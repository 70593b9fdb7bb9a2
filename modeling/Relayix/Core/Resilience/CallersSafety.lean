import Relayix.Core.Resilience.CallersProofs

/-! Whole runs of a breaker: generations, trips and the calls between them.

`Consistent` speaks of one state. What the breaker promises over time needs the
history as well: the generation counts the transitions, a call still holds the
generation it was admitted under, and from a trip until the next return to CLOSED
an `Outage` is kept. `Ledger` joins them and survives every step; `Safe` is what
it says of a run. -/
namespace Relayix
open Library

variable {J : Interface} {ε ι : Type}

abbrev History (J : Interface) (ε ι : Type) := List (Step (breakerI.sum J) ε ι Clocked)

/-- Since a trip at time `t`, with `mid` the steps taken after it. -/
structure Outage (t : ℚ) (mid : History J ε ι) (w : Clocked) (q : ι → Client) : Prop where
  broken : w.breaker.state ≠ .closed
  since : t ≤ w.breaker.openedAt
  settled : ∀ m ∈ mid, admits m = true →
    (∃ n ∈ mid, n.thread = m.thread ∧ reports n = true) ∨
      q m.thread = .holding w.breaker.generation

structure Ledger (resetTimeoutS : ℚ) (h : History J ε ι) (w : Clocked) (q : ι → Client) : Prop where
  consistent : Consistent w q
  timeout : w.breaker.resetTimeoutS = resetTimeoutS
  clock : ∀ s ∈ h, s.before.now ≤ w.now
  counted : w.breaker.generation = transitions h
  dated : w.breaker.state ≠ .closed →
    ∃ s ∈ h, trips s = true ∧ s.before.now = w.breaker.openedAt
  admitted : ∀ pre s mid, h = pre ++ s :: mid → admits s = true →
    q s.thread = .holding (transitions (pre ++ [s])) ∨ q s.thread = .finished
  outage : ∀ pre trip mid, h = pre ++ trip :: mid → trips trip = true →
    (∀ m ∈ mid, closes m = false) → Outage trip.before.now mid w q

/-! ### What a move does to the breaker -/

theorem Move.timeout_eq {w w' : Clocked} {q r : Client} (hm : Move w q w' r) :
    w'.breaker.resetTimeoutS = w.breaker.resetTimeoutS := by
  cases hm <;> rfl

theorem Move.now_eq {w w' : Clocked} {q r : Client} (hm : Move w q w' r) : w'.now = w.now := by
  cases hm <;> rfl

/-- The generation moves with the state. -/
theorem Move.generation_eq {w w' : Clocked} {q r : Client} (hm : Move w q w' r)
    (ho : w.breaker.state = .opened → q ≠ .holding w.breaker.generation) :
    w'.breaker.generation =
      w.breaker.generation + if w.breaker.state ≠ w'.breaker.state then 1 else 0 := by
  cases hm with
  | probe hs _ => simp [CircuitBreaker.enter, hs]
  | close hs => simp [hs]
  | trip _ =>
    have hs : w.breaker.state ≠ .opened := fun hs => ho hs rfl
    simp [hs]
  | _ => simp

/-- A trip is dated with the time it happens. -/
theorem Move.openedAt_cases {w w' : Clocked} {q r : Client} (hm : Move w q w' r) :
    w'.breaker.openedAt = w.breaker.openedAt ∨ w'.breaker.openedAt = w.now := by
  cases hm with
  | trip _ => exact .inr rfl
  | _ => exact .inl rfl

theorem Move.openedAt_of_trip {w w' : Clocked} {q r : Client} (hm : Move w q w' r)
    (hs : w.breaker.state ≠ w'.breaker.state) (ho : w'.breaker.state = .opened) :
    w'.breaker.openedAt = w.now := by
  cases hm with
  | trip _ => rfl
  | probe _ _ => cases ho
  | close _ => cases ho
  | _ => exact absurd rfl hs

/-- Leaving CLOSED is a trip; anything else keeps the date of the last one. -/
theorem Move.dated {w w' : Clocked} {q r : Client} (hm : Move w q w' r)
    (ho : w.breaker.state = .opened → q ≠ .holding w.breaker.generation)
    (hs : w'.breaker.state ≠ .closed) :
    (w.breaker.state ≠ .closed ∧ w'.breaker.openedAt = w.breaker.openedAt) ∨
      (w.breaker.state ≠ w'.breaker.state ∧ w'.breaker.state = .opened ∧
        w'.breaker.openedAt = w.now) := by
  cases hm with
  | trip _ => exact .inr ⟨fun he => ho he rfl, rfl, rfl⟩
  | close _ => exact absurd rfl hs
  | probe h _ =>
    refine .inl ⟨?_, rfl⟩
    rw [h]
    decide
  | pass h => exact absurd h hs
  | reset h => exact absurd h hs
  | _ => exact .inl ⟨hs, rfl⟩

/-- A non-closed breaker admits only after its timeout, and alone. -/
theorem Consistent.admit_alone {w w' : Clocked} {q : ι → Client} {n : Nat} (h : Consistent w q)
    (hs : w.breaker.state ≠ .closed) (hm : Move w .fresh w' (.holding n)) :
    w.breaker.openedAt + w.breaker.resetTimeoutS ≤ w.now ∧
      ∀ j, q j ≠ .holding w.breaker.generation := by
  cases hm with
  | pass hc => exact absurd hc hs
  | probe ho ht =>
    refine ⟨?_, h.opened ho⟩
    linarith
  | trial hh hf => exact ⟨h.cooled hh, h.idle hh hf⟩

theorem transitions_snoc (h : History J ε ι) (s : Step (breakerI.sum J) ε ι Clocked) :
    transitions (h ++ [s]) = transitions h + if transition s = true then 1 else 0 := by
  simp [transitions, List.countP_append, List.countP_singleton]

/-- A trip leaves the breaker open, from another state. -/
theorem trips_iff {s : Step (breakerI.sum J) ε ι Clocked} :
    trips s = true ↔ s.before.breaker.state ≠ (after s).state ∧ (after s).state = .opened := by
  simp [trips, transition]

theorem closes_iff {s : Step (breakerI.sum J) ε ι Clocked} :
    closes s = true ↔ s.before.breaker.state ≠ (after s).state ∧ (after s).state = .closed := by
  simp [closes, transition]

/-! ### One step of the ledger -/

section Step
variable [DecidableEq ι] {r : ℚ} {h : History J ε ι} {w w' : Clocked} {q : ι → Client} {i : ι}
  {c : (breakerI.sum J).Cmd} {a : Except ε ((breakerI.sum J).Ans c)}

omit [DecidableEq ι] in
/-- While one caller has the only slot, no step of another moves the generation. -/
theorem Consistent.generation_of_other {j : ι} {qi : Client} (hk : Consistent w q)
    (hs : w.breaker.state ≠ .closed) (hj : q j = .holding w.breaker.generation)
    (hqi : qi ≠ .holding w.breaker.generation) {r : Client} (hm : Move w qi w' r) :
    w'.breaker.generation = w.breaker.generation := by
  have hhalf := hk.halfOpen_of_holding hs hj
  cases hm with
  | probe ho _ =>
    rw [ho] at hhalf
    cases hhalf
  | close _ => exact absurd rfl hqi
  | trip _ => exact absurd rfl hqi
  | _ => rfl

omit [DecidableEq ι] in
/-- A trip opens an outage in which nothing was admitted yet. -/
theorem outage_new {q : Client} (hq : (client : Monitor _ ε _).allowed q c)
    (ha : (guarded J ε).answers w c a w') (ht : trips ⟨w, i, ⟨c, a⟩⟩ = true) (g : ι → Client) :
    Outage w.now ([] : History J ε ι) w' g := by
  have hm := move_of_answers hq ha
  have hw := after_of_answers (i := i) ha
  obtain ⟨hne, ho⟩ := trips_iff.mp ht
  have hb : w'.breaker = after ⟨w, i, ⟨c, a⟩⟩ := by rw [hw]
  rw [← hb] at hne ho
  refine ⟨by rw [ho]; decide, ?_, fun m hm => by cases hm⟩
  rw [hm.openedAt_of_trip hne ho]

/-- During an outage a step that does not close the breaker keeps it. -/
theorem Ledger.outage_step (hl : Ledger r h w q)
    (hq : (client : Monitor _ ε _).allowed (q i) c) (ha : (guarded J ε).answers w c a w')
    {t : ℚ} {mid : History J ε ι} (ht : t ≤ w.now) (ho : Outage t mid w q)
    (hc : closes ⟨w, i, ⟨c, a⟩⟩ = false) :
    Outage t (mid ++ [⟨w, i, ⟨c, a⟩⟩]) w' (Function.update q i (client.next (q i) c a)) := by
  have hm := move_of_answers hq ha
  have hb : w'.breaker = after ⟨w, i, ⟨c, a⟩⟩ := by rw [after_of_answers (i := i) ha]
  have hk := hl.consistent
  refine ⟨fun hs => ?_, ?_, fun m hmem hadm => ?_⟩
  · have : closes ⟨w, i, ⟨c, a⟩⟩ = true := by
      rw [closes_iff, ← hb]
      exact ⟨fun he => ho.broken (he.trans hs), hs⟩
    rw [hc] at this
    cases this
  · rcases hm.openedAt_cases with he | he <;> rw [he]
    · exact ho.since
    · exact ht
  · rcases List.mem_append.mp hmem with hin | hin
    · rcases ho.settled m hin hadm with ⟨n, hn, hr⟩ | hj
      · exact .inl ⟨n, List.mem_append_left _ hn, hr⟩
      · by_cases hi : m.thread = i
        · rw [hi] at hj ⊢
          rw [hj] at hq ⊢
          rcases holding_step (i := i) hq ha with ⟨hkeep, hw⟩ | ⟨_, hrep⟩
          · right
            rw [Function.update_self, hkeep, hw]
          · exact .inl ⟨_, List.mem_append_right _ (List.mem_singleton_self _), rfl, hrep⟩
        · -- somebody else holds the only slot, so this step left the breaker's state alone
          right
          have halone := hk.alone ho.broken hj (Ne.symm hi)
          rw [Function.update_of_ne hi, hj, hk.generation_of_other ho.broken hj halone hm]
    · obtain rfl := List.mem_singleton.mp hin
      right
      rw [Function.update_self, (admits_step hq ha hadm).2]

/-- Whoever was admitted still holds that generation or has reported. -/
theorem Ledger.admitted_step (hl : Ledger r h w q)
    (hq : (client : Monitor _ ε _).allowed (q i) c) (ha : (guarded J ε).answers w c a w')
    (hgen : w'.breaker.generation = transitions (h ++ [⟨w, i, ⟨c, a⟩⟩]))
    {pre mid : History J ε ι} {s : Step (breakerI.sum J) ε ι Clocked}
    (he : h ++ [⟨w, i, ⟨c, a⟩⟩] = pre ++ s :: mid) (hs : admits s = true) :
    Function.update q i (client.next (q i) c a) s.thread = .holding (transitions (pre ++ [s])) ∨
      Function.update q i (client.next (q i) c a) s.thread = .finished := by
  rcases snoc_eq_split he with ⟨_, rfl, rfl⟩ | ⟨front, _, hh⟩
  · left
    rw [Function.update_self, (admits_step hq ha hs).2, hgen]
  · have hold := hl.admitted pre s front hh hs
    by_cases hi : s.thread = i
    · rw [hi] at hold ⊢
      rw [Function.update_self]
      rcases hold with hold | hold <;> rw [hold] at hq ⊢
      · rcases holding_step (i := i) hq ha with ⟨hkeep, _⟩ | ⟨hfin, _⟩
        · exact .inl hkeep
        · exact .inr hfin
      · cases c with
        | inl c => exact absurd hq id
        | inr c => exact .inr rfl
    · rw [Function.update_of_ne hi]
      exact hold

/-- Every step keeps the ledger. -/
theorem Ledger.step (hl : Ledger r h w q)
    (hq : (client : Monitor _ ε _).allowed (q i) c) (ha : (guarded J ε).answers w c a w') :
    Ledger r (h ++ [⟨w, i, ⟨c, a⟩⟩]) w' (Function.update q i (client.next (q i) c a)) := by
  have hm := move_of_answers hq ha
  have hb : w'.breaker = after ⟨w, i, ⟨c, a⟩⟩ := by rw [after_of_answers (i := i) ha]
  have hgen : w'.breaker.generation = transitions (h ++ [⟨w, i, ⟨c, a⟩⟩]) := by
    rw [hm.generation_eq (fun hs => hl.consistent.opened hs i), transitions_snoc, hl.counted, hb]
    simp [transition]
  refine ⟨hl.consistent.move hm, hm.timeout_eq.trans hl.timeout, ?_, hgen, fun hs => ?_, ?_, ?_⟩
  rotate_left
  · rcases hm.dated (fun he => hl.consistent.opened he i) hs with ⟨hold, he⟩ | ⟨hne, hop, he⟩ <;> rw [he]
    · obtain ⟨s, hmem, ht⟩ := hl.dated hold
      exact ⟨s, List.mem_append_left _ hmem, ht⟩
    · refine ⟨_, List.mem_append_right _ (List.mem_singleton_self _), trips_iff.mpr ?_, rfl⟩
      rw [← hb]
      exact ⟨hne, hop⟩
  rotate_left 2
  · intro s hs
    rw [hm.now_eq]
    rcases List.mem_append.mp hs with hin | hin
    · exact hl.clock s hin
    · obtain rfl := List.mem_singleton.mp hin
      exact le_refl _
  · exact fun pre s mid he hs => hl.admitted_step hq ha hgen he hs
  · intro pre trip mid he ht hc
    rcases snoc_eq_split he with ⟨rfl, _, rfl⟩ | ⟨front, rfl, hh⟩
    · exact outage_new hq ha ht _
    · have hfront : ∀ m ∈ front, closes m = false :=
        fun m hmem => hc m (List.mem_append_left _ hmem)
      have hclock : trip.before.now ≤ w.now := by
        apply hl.clock
        rw [hh]
        simp
      exact hl.outage_step hq ha hclock (hl.outage pre trip front hh ht hfront)
        (hc _ (List.mem_append_right _ (List.mem_singleton_self _)))

end Step

theorem Ledger.elapse {r : ℚ} {h : History J ε ι} {w w' : Clocked} {q : ι → Client}
    (hl : Ledger r h w q) (he : (guarded J ε).elapses w w') : Ledger r h w' q := by
  obtain ⟨hn, hb⟩ := he
  have hw : w' = ⟨w.breaker, w'.now⟩ := by rw [← hb]
  rw [hw]
  refine ⟨hl.consistent.elapse hn, hl.timeout, fun s hs => (hl.clock s hs).trans hn, hl.counted,
    hl.dated, hl.admitted, fun pre trip mid hh ht hc => ?_⟩
  have ho := hl.outage pre trip mid hh ht hc
  exact ⟨ho.broken, ho.since, ho.settled⟩

theorem ledger_new (failThreshold : Nat) (resetTimeoutS now : ℚ) :
    Ledger resetTimeoutS ([] : History J ε ι) ⟨.new failThreshold resetTimeoutS, now⟩
      (fun _ => .fresh) := by
  have hc : Consistent ⟨.new failThreshold resetTimeoutS, now⟩ (fun _ : ι => Client.fresh) := by
    constructor <;> simp [CircuitBreaker.new]
  constructor
  case consistent => exact hc
  case timeout => rfl
  case counted => rfl
  case dated => exact fun hs => absurd rfl hs
  all_goals simp

/-! ### Whole runs -/

section Runs
variable [DecidableEq ι] {failThreshold : Nat} {resetTimeoutS now : ℚ}
  {threads : ι → Prog (breakerI.sum J) ε Unit} {Q : ι → Except ε Unit → Client → Prop}
  {h : History J ε ι} {p : Pool (breakerI.sum J) ε ι Clocked}

/-- The callers after a history. -/
abbrev callers (h : History J ε ι) : ι → Client := watched client (fun _ => .fresh) h

/-- **The ledger of every run** of callers that ask once and report at most once. -/
theorem ledger_run (ho : ∀ i, (threads i).Obeys client (Q i) .fresh)
    (hr : Run (guarded J ε) ⟨⟨.new failThreshold resetTimeoutS, now⟩, threads⟩ h p) :
    Ledger resetTimeoutS h p.world (callers h) := by
  refine Run.always guarded_meets ho ?_ ?_ ?_ hr
  · exact ledger_new failThreshold resetTimeoutS now
  · intro h w q i c a w' hl hq ha
    exact hl.step hq ha
  · intro h w q w' hl he
    exact hl.elapse he

/-- Every step was taken from a state whose ledger is in order. -/
def Audited (resetTimeoutS : ℚ) (h : History J ε ι) : Prop :=
  ∀ pre s post, h = pre ++ s :: post → Ledger resetTimeoutS pre s.before (callers pre) ∧
    (client : Monitor _ ε _).allowed (callers pre s.thread) s.event.cmd ∧
    ∃ w', (guarded J ε).answers s.before s.event.cmd s.event.answer w'

theorem audited_run (ho : ∀ i, (threads i).Obeys client (Q i) .fresh)
    (hr : Run (guarded J ε) ⟨⟨.new failThreshold resetTimeoutS, now⟩, threads⟩ h p) : Audited resetTimeoutS h := by
  intro pre s post he
  obtain ⟨p', hr', hw, ⟨k, hk⟩, ha⟩ := hr.at he
  have hl := ledger_run ho hr'
  have hob := hr'.obeys guarded_meets ho s.thread
  rw [hk] at hob
  rw [hw] at hl
  exact ⟨hl, hob.1, ha⟩

end Runs

/-- What a breaker owes its callers after a history. -/
structure Safe [DecidableEq ι] (resetTimeoutS : ℚ) (h : History J ε ι) (b : CircuitBreaker) : Prop where
  /-- half open, at most one admitted call of the current generation is unreported -/
  single : b.state = .halfOpen →
    ∀ i j, Outstanding h i b.generation → Outstanding h j b.generation → i = j
  /-- and there is one exactly when a trial is marked as in flight -/
  trial : b.state = .halfOpen → (b.trialInFlight = true ↔ ∃ i, Outstanding h i b.generation)
  /-- open, there is none -/
  idle : b.state = .opened → ∀ i, ¬ Outstanding h i b.generation
  slot : b.trialInFlight = true → b.state = .halfOpen
  /-- from a trip until the next return to CLOSED, nothing is admitted before the timeout -/
  cooled : ∀ pre trip mid s post, h = pre ++ trip :: (mid ++ s :: post) → trips trip = true →
    (∀ m ∈ mid, closes m = false) → admits s = true →
    trip.before.now + resetTimeoutS ≤ s.before.now
  /-- and a call is admitted only when those admitted since the trip have reported -/
  disjoint : ∀ pre trip mid s post, h = pre ++ trip :: (mid ++ s :: post) → trips trip = true →
    (∀ m ∈ mid, closes m = false) → admits s = true →
    ∀ m ∈ mid, admits m = true → ∃ n ∈ mid, n.thread = m.thread ∧ reports n = true
  counted : b.generation = transitions h
  /-- the report of a call admitted before a later transition changes nothing -/
  stale : ∀ pre s mid x post, h = pre ++ s :: (mid ++ x :: post) → admits s = true →
    x.thread = s.thread → reports x = true → (∃ m ∈ mid, transition m = true) →
    after x = x.before.breaker

section Safety
variable {failThreshold : Nat} {resetTimeoutS now : ℚ}
  {threads : ι → Prog (breakerI.sum J) ε Unit} {Q : ι → Except ε Unit → Client → Prop}
  {h : History J ε ι} {p : Pool (breakerI.sum J) ε ι Clocked}

/-- An admission during an outage finds the timeout over and nobody admitted before it left. -/
theorem admitted_in_outage {r : ℚ} {w w' : Clocked} {q : ι → Client} {i : ι}
    {c : (breakerI.sum J).Cmd} {a : Except ε ((breakerI.sum J).Ans c)} {t : ℚ}
    {mid : History J ε ι} (hl : Ledger r h w q) (ho : Outage t mid w q)
    (hq : (client : Monitor _ ε _).allowed (q i) c) (ha : (guarded J ε).answers w c a w')
    (hs : admits ⟨w, i, ⟨c, a⟩⟩ = true) :
    t + r ≤ w.now ∧
      ∀ m ∈ mid, admits m = true → ∃ n ∈ mid, n.thread = m.thread ∧ reports n = true := by
  obtain ⟨hfresh, hnext⟩ := admits_step hq ha hs
  have hm := move_of_answers hq ha
  rw [hnext, hfresh] at hm
  obtain ⟨hcool, hnone⟩ := hl.consistent.admit_alone ho.broken hm
  constructor
  · have hsince := ho.since
    rw [hl.timeout] at hcool
    linarith
  · intro m hmem hadm
    rcases ho.settled m hmem hadm with hrep | hheld
    · exact hrep
    · exact absurd hheld (hnone m.thread)

/-- The report of a call whose generation is over. -/
theorem report_after_transition {r : ℚ} {q : ι → Client}
    {pre mid : History J ε ι} {s x : Step (breakerI.sum J) ε ι Clocked}
    (hl : Ledger r (pre ++ s :: mid) x.before q) (hs : admits s = true)
    (hx : x.thread = s.thread) (hrep : reports x = true)
    (hq : (client : Monitor _ ε _).allowed (q x.thread) x.event.cmd)
    (ht : ∃ m ∈ mid, transition m = true) : after x = x.before.breaker := by
  have hlate : transitions (pre ++ [s]) < x.before.breaker.generation := by
    have hsplit : pre ++ s :: mid = (pre ++ [s]) ++ mid := by simp
    rw [hl.counted, hsplit]
    unfold transitions
    rw [@List.countP_append _ _ (pre ++ [s])]
    have := List.countP_pos_iff.mpr ht
    omega
  obtain ⟨b, i, c, a⟩ := x
  cases c with
  | inr c => simp [reports] at hrep
  | inl c =>
    cases c with
    | allow => simp [reports] at hrep
    | report o g =>
      obtain rfl : i = s.thread := hx
      rcases hl.admitted pre s mid rfl hs with hq' | hq' <;> simp only [hq'] at hq
      · have hg : g = transitions (pre ++ [s]) := hq
        have hne : g ≠ b.breaker.generation := by
          rw [hg]
          exact Nat.ne_of_lt hlate
        exact b.breaker.report_stale b.now o hne
      · exact absurd hq id

variable [DecidableEq ι]

/-- A history whose ledgers are in order is safe. -/
theorem safe_of_audited {r : ℚ} {w : Clocked} (hl : Ledger r h w (callers h)) (haudited : Audited r h) :
    Safe r h w.breaker := by
  have hk := hl.consistent
  refine ⟨fun hs => ?_, fun hs => ?_, hk.opened, fun ht => (hk.trial.mp ht).1, ?_, ?_, hl.counted, ?_⟩
  · exact hk.exclusive (by rw [hs]; decide)
  · rw [hk.trial]
    exact and_iff_right hs
  · intro pre trip mid s post he ht hc hs
    have hat : h = (pre ++ trip :: mid) ++ s :: post := by simpa using he
    obtain ⟨hl', hq, w', ha⟩ := haudited _ _ _ hat
    exact (admitted_in_outage hl' (hl'.outage pre trip mid rfl ht hc) hq ha hs).1
  · intro pre trip mid s post he ht hc hs
    have hat : h = (pre ++ trip :: mid) ++ s :: post := by simpa using he
    obtain ⟨hl', hq, w', ha⟩ := haudited _ _ _ hat
    exact (admitted_in_outage hl' (hl'.outage pre trip mid rfl ht hc) hq ha hs).2
  · intro pre s mid x post he hs hx hrep ht
    have hat : h = (pre ++ s :: mid) ++ x :: post := by simpa using he
    obtain ⟨hl', hq, _⟩ := haudited _ _ _ hat
    exact report_after_transition hl' hs hx hrep hq ht

/-- **The breaker under any interleaving of its callers**: however many there are,
each asking once and, if admitted, reporting at most once under the generation it
was given, every reachable state is `Safe`. -/
theorem breaker_safe (ho : ∀ i, (threads i).Obeys client (Q i) .fresh)
    (hr : Run (guarded J ε) ⟨⟨.new failThreshold resetTimeoutS, now⟩, threads⟩ h p) :
    Safe resetTimeoutS h p.world.breaker := by
  have hl := ledger_run ho hr
  have haudited := audited_run ho hr
  exact safe_of_audited hl haudited

/-- Threshold one: the first caller fails and trips the breaker, and once the timeout
is over the second one is its trial. -/
theorem breaker_safe_trial :
    ∃ (h : History .silent Unit Bool) (b : CircuitBreaker),
      b.state = .halfOpen ∧ b.trialInFlight = true ∧ transitions h = 2 ∧ Safe 30 h b := by
  have r₀ : Run (guarded .silent Unit) ⟨⟨.new 1 30, 0⟩, fun _ : Bool => caller (some .failure)⟩ [] _ :=
    .start
  have r₁ := r₀.answer false rfl (.ok (true, 0)) ⟨.new 1 30, 0⟩ ⟨rfl, rfl⟩
  have r₂ := r₁.answer false rfl (.ok ()) ⟨⟨1, 30, .opened, 1, 0, false, 1⟩, 0⟩ ⟨rfl, rfl⟩
  have r₃ := r₂.wait ⟨⟨1, 30, .opened, 1, 0, false, 1⟩, 30⟩ ⟨by norm_num, rfl⟩
  have probe : (⟨1, 30, .opened, 1, 0, false, 1⟩ : CircuitBreaker).allow 30 =
      ((true, 2), ⟨1, 30, .halfOpen, 1, 0, true, 2⟩) := by decide +kernel
  have r₄ := r₃.answer true rfl _ _ (guarded_allow probe)
  exact ⟨_, _, rfl, rfl, by decide +kernel, breaker_safe (fun _ => caller_obeys _) r₄⟩

end Safety
end Relayix
