import Relayix.Services.IdempotencyLease
import Relayix.Services.IdempotencySettle

/-! A response that could not be stored.

When the final write of a call fails, `execute` leaves the claim as it is, and `_settle`
parks the key. So what keeps the next call from running the operation again is in one case
what remains of the claim, in the other a record with the longer retention. -/
namespace Relayix
open Library
namespace IdempotencyService
open Prog.Asks (apart)

/-! ### Which operation a call awaits -/

section Kind
variable {self : IdempotencyService} {apiKeyId : UUID} {key : String} {request : ChatRequest}

/-- Everything but one step of the operation. -/
def without (o : OperationCmd) : (redisI.sum callI).Cmd → Prop
  | .inr (.inl c) => c ≠ o
  | _ => True

theorem unserved_asks {α : Type} {fingerprint : String} {e : Exn} {o : OperationCmd} :
    (self.unserved apiKeyId key fingerprint e : Prog (redisI.sum operationI) Exn α).Asks
      fun c => apart (without o) (.inl c) := by
  unfold unserved
  split
  · exact (Prog.Asks.of_forall (fun _ => trivial) _).inl.bind fun _ => trivial
  · exact (Prog.Asks.of_forall (fun _ => trivial) _).inl.bind fun _ => trivial

/-- A call of `execute` does not prime a stream. -/
theorem buffered_asks : (self.buffered apiKeyId key request).Asks (apart (without .prime)) := by
  have executed : (self.execute apiKeyId key request (@Prog.perform operationI Exn .run)).Asks
      fun c => apart (without .prime) (.inl c) := by
    refine (Prog.Asks.of_forall (fun _ => trivial) _).inl.bind fun outcome => ?_
    split
    · have asked : ((@Prog.perform operationI Exn .run).inr.tryExcept
          (self.unserved apiKeyId key (self.fingerprint request))).Asks
          fun c => apart (without .prime) (.inl c) :=
        (Prog.Asks.perform (show OperationCmd.run ≠ .prime by decide)).inr.tryExcept fun e => unserved_asks
      exact asked.bind fun r => (Prog.Asks.of_forall (fun _ => trivial) _).inl.bind fun _ => trivial
    · exact (Prog.Asks.ofExcept _).bind fun _ => Prog.Asks.ofExcept _
  exact executed.inl.bind fun r => Prog.Asks.perform trivial

theorem primed_asks {P : (operationI.sum (handoff ChatStreamEvent)).Cmd → Prop}
    (harrive : P (.inl .arrive)) (hyield : ∀ event, P (.inr event)) (upcoming : Upcoming) :
    (primed upcoming).Asks P := by
  have arrives : ((@Prog.perform operationI Exn .arrive).inl :
      Gen operationI Exn ChatStreamEvent Unit).Asks P := (Prog.Asks.perform harrive).inl
  induction upcoming with
  | delta c rest ih => exact arrives.bind fun _ => (Prog.Asks.perform (hyield _)).bind fun _ => ih
  | response r => exact arrives.bind fun _ => Prog.Asks.perform (hyield _)
  | interrupted e => exact arrives.bind fun _ => trivial
  | stop => exact arrives

theorem replayStream_asks {body : Option ResponseBody} :
    (replayStream body : Gen (redisI.sum operationI) Exn ChatStreamEvent Unit).Asks (apart (without .run)) := by
  refine (Prog.Asks.ofExcept _).bind fun r => ?_
  split
  · exact Prog.Asks.perform trivial
  · exact (Prog.Asks.perform trivial).bind fun _ => Prog.Asks.perform trivial

/-- A call of `execute_stream` does not run a buffered operation. -/
theorem streamed_asks : (self.streamed apiKeyId key request).Asks (apart (without .run)) := by
  have primes : ((@Prog.perform operationI Exn .prime).bind fun upcoming => .ret (primed upcoming)).Asks
      fun c => apart (without .run) (.inl (.inr c)) :=
    (Prog.Asks.perform (show OperationCmd.prime ≠ .run by decide)).bind fun _ => trivial
  have executed : (self.executeStream apiKeyId key request
      ((@Prog.perform operationI Exn .prime).bind fun upcoming => .ret (primed upcoming))).Asks
      fun c => apart (without .run) (.inl c) := by
    refine (show (self.store.reserve apiKeyId key (self.fingerprint request)).Asks
      fun c => apart (without .run) (.inl (.inl c)) from .of_forall (fun _ => trivial) _).inl.bind
        fun outcome => ?_
    split
    · exact (primes.inr.tryExcept fun e => unserved_asks).bind fun _ => trivial
    · exact (Prog.Asks.ofExcept _).bind fun _ => trivial
  refine executed.inl.bind_of_ends fun t events hev => ?_
  refine (Prog.Asks.perform (show OperationCmd.iterate ≠ .run by decide)).inl.bind fun _ => ?_
  obtain ⟨s, _, hs⟩ := ends_inl.mp hev
  rcases executeStream_returns hs with ⟨g, v, hv, rfl⟩ | ⟨_, body, rfl⟩
  · obtain ⟨upcoming, _, _, hret⟩ | ⟨e, _, he⟩ := ends_perform_bind.mp hv
    · cases (ends_ret.mp hret).2
      exact settle_asks (fun _ _ => trivial) (fun _ => trivial)
        (primed_asks (show OperationCmd.arrive ≠ .run by decide) (fun _ => trivial) upcoming)
    · cases he
  · exact replayStream_asks

/-- The operation that a call awaits is that of its kind. -/
theorem call_asks {c : KeyedCall} :
    (self.call apiKeyId key c).Asks (without (if c.streamed then .run else .prime)) := by
  obtain ⟨request, streamed⟩ := c
  cases streamed with
  | true => exact streamed_asks.assoc
  | false => exact buffered_asks.assoc

end Kind
/-- A primed stream is under way. -/
def flows : Phase → Bool
  | .streaming _ | .delivering => true
  | _ => false

theorem flows_of_next {q : Phase} {c : (redisI.sum callI).Cmd}
    {a : Except Exn ((redisI.sum callI).Ans c)} (h : flows (q.next c a) = true) :
    c = .inr (.inl .prime) ∨ flows q = true := by
  unfold Phase.next at h
  split at h <;> first
    | exact .inl rfl
    | exact .inr rfl
    | unfold Phase.failing at h; split at h <;> cases h
    | cases h

section Runs
variable {ι : Type} [DecidableEq ι] {self : IdempotencyService} {apiKeyId : UUID} {key : String}
  {calls : ι → KeyedCall} {w : Redis} {h : Steps ι} {p : Pool (redisI.sum callI) Exn ι Redis}

theorem primed_of_flows (hr : Run (served callI) (self.callers apiKeyId key calls w) h p) {i : ι}
    (hi : flows (self.phases apiKeyId key h i) = true) :
    ∃ e ∈ log i h, e.cmd = .inr (.inl .prime) := by
  refine Run.each (F := fun (t : Trace (redisI.sum callI) Exn) q =>
      flows q = true → ∃ e ∈ t, e.cmd = .inr (.inl .prime))
    (self.served_meets _) (fun i => self.call_obeys apiKeyId key (calls i)) (fun _ h => by cases h)
    (fun t q _ c a _ ht _ _ hf => ?_) hr i hi
  rcases flows_of_next hf with hc | hq
  · exact ⟨_, List.mem_append_right _ List.mem_cons_self, hc⟩
  · obtain ⟨e, he, hc⟩ := ht hq
    exact ⟨e, List.mem_append_left _ he, hc⟩

/-- Where a call stores its response, according to its kind. -/
theorem storing_of_kind (hr : Run (served callI) (self.callers apiKeyId key calls w) h p) {i : ι}
    {fingerprint : String} {body : ResponseBody} {k : Except Exn Bool → Prog (redisI.sum callI) Exn Unit}
    (hi : p.threads i = .await (self.completing apiKeyId key fingerprint body) k) :
    self.phases apiKeyId key h i = if (calls i).streamed then .delivering else .answered := by
  have called : (self.call apiKeyId key (calls i)).Asks
      (without (if (calls i).streamed then .run else .prime)) := call_asks
  have asks := called.reaches (hr.reaches i)
  rcases storing (allows_of_await hr hi) with hq | hq
  · have htold : (self.phases apiKeyId key h i).told = true := by
      rw [hq]
      rfl
    obtain ⟨e, he, hc⟩ := (recorded hr i).told htold
    have hasks := asks e he
    rw [hc] at hasks
    split
    · rename_i hs
      rw [if_pos hs] at hasks
      exact absurd rfl hasks
    · exact hq
  · have hflows : flows (self.phases apiKeyId key h i) = true := by
      rw [hq]
      rfl
    obtain ⟨e, he, hc⟩ := primed_of_flows hr hflows
    have hasks := asks e he
    rw [hc] at hasks
    split
    · exact hq
    · rename_i hs
      rw [if_neg hs] at hasks
      exact absurd rfl hasks

/-! ### What keeps the next call off -/

/-- Only a claim of a free key acquires it. -/
theorem Move.free_of_acquires {st : RedisIdempotencyStore} {name : String} {w w' : Redis} {q q' : Phase}
    {e : Event (redisI.sum callI) Exn} (hm : Move st name w w' q q' e) (hacq : acquires e = true) :
    w.find name = none ∧ ∃ fingerprint, e.cmd = .inl (.set name (.claimed fingerprint) true st.inflightTtlS) := by
  cases hm with
  | keep _ _ quiet _ =>
    rw [quiet] at hacq
    cases hacq
  | claim fingerprint cmd free _ _ _ => exact ⟨free, fingerprint, cmd⟩
  | store _ _ cmd _ _ _ =>
    obtain ⟨c, a⟩ := e
    subst cmd
    cases hacq
  | free cmd _ _ _ =>
    obtain ⟨c, a⟩ := e
    subst cmd
    cases hacq

/-- A healthy Redis that answers with an error did nothing. -/
theorem exec_error {w w' : Redis} {c : RedisCmd} {e : Exn} (h : (Except.error e, w') = w.exec c) : w' = w := by
  cases c with
  | set name value nx ex =>
    rcases w.exec_set name value nx ex with hexec | hexec | ⟨_, hexec⟩ <;> rw [hexec] at h
    · exact (Prod.mk.inj h).2
    · cases (Prod.mk.inj h).1
    · cases (Prod.mk.inj h).1
  | get name => cases (Prod.mk.inj h).1
  | delete name => cases (Prod.mk.inj h).1

/-- Until `bound` nobody finds the key free: the call `i` is about to park it, under a claim
that holds it, or a record is there that lasts that long. -/
inductive Guarded (service : IdempotencyService) (apiKeyId : UUID) (key : String) (i : ι) (bound : ℚ)
    (h : Steps ι) (w : Redis) (g : ι → Phase) : Prop where
  | past (late : bound ≤ w.now)
  | parking (leased : Leased service apiKeyId key h w g) (parks : g i = .parking)
      (lasts : bound ≤ w.now + service.store.completedTtlS)
  | shut {x : Expires Record} {n : Nat} (shut : Shut (redisKey apiKeyId key) x n h w g)
      (lasts : bound ≤ x.deadline)

omit [DecidableEq ι] in
theorem Guarded.wait {i : ι} {bound : ℚ} {g : ι → Phase} {w' : Redis}
    (hg : Guarded self apiKeyId key i bound h w g) (he : Expiring.Waits w w') :
    Guarded self apiKeyId key i bound h w' g := by
  cases hg with
  | past late => exact .past (late.trans he.later)
  | parking leased parks lasts =>
    exact .parking (leased.wait he) parks (lasts.trans (add_le_add_left he.later _))
  | shut hs lasts => exact .shut (hs.wait he) lasts

/-- A step that finds the key guarded does not acquire it. -/
theorem Guarded.refuses {i j : ι} {bound : ℚ} {w' : Redis} {c : (redisI.sum callI).Cmd}
    {a : Except Exn ((redisI.sum callI).Ans c)}
    (hg : Guarded self apiKeyId key i bound h w (self.phases apiKeyId key h))
    (hc : self.store.allows (redisKey apiKeyId key) (self.phases apiKeyId key h j) c)
    (ha : (served callI).answers w c a w') (hprompt : ¬ self.Late apiKeyId key h ⟨w, j, ⟨c, a⟩⟩)
    (hnow : w.now < bound) : acquires ⟨c, a⟩ = false := by
  rw [Bool.eq_false_iff]
  intro hacq
  obtain ⟨hfree, fingerprint, hcmd⟩ := (move_of_answers hc ha).free_of_acquires hacq
  cases hg with
  | past late => exact absurd hnow (not_lt.mpr late)
  | parking leased parks _ =>
    have howns : (self.phases apiKeyId key h i).stage.owns = true := by
      rw [parks]
      rfl
    refine leased.seen howns (fun t ht => ?_) hfree
    by_contra hlate
    exact hprompt ⟨⟨fingerprint, hcmd⟩, i, t, howns, ht, not_lt.mp hlate⟩
  | shut hs lasts =>
    obtain ⟨hx, _, _⟩ := hs.holds (lt_of_lt_of_le hnow lasts)
    rw [Expiring.find_eq_some.mpr ⟨hx, lt_of_lt_of_le hnow lasts⟩] at hfree
    cases hfree

/-- It stays guarded while no store command fails. -/
theorem Guarded.command {i j : ι} {bound : ℚ} {w' : Redis} {c : (redisI.sum callI).Cmd}
    {a : Except Exn ((redisI.sum callI).Ans c)}
    (hg : Guarded self apiKeyId key i bound h w (self.phases apiKeyId key h))
    (hc : self.store.allows (redisKey apiKeyId key) (self.phases apiKeyId key h j) c)
    (ha : (sound callI).answers w c a w') (hprompt : ¬ self.Late apiKeyId key h ⟨w, j, ⟨c, a⟩⟩) :
    Guarded self apiKeyId key i bound (h ++ [⟨w, j, ⟨c, a⟩⟩]) w'
      (self.phases apiKeyId key (h ++ [⟨w, j, ⟨c, a⟩⟩])) := by
  have hserved := served_of_healthy (healthy_of_sound ha)
  have hnow := now_of_answers hserved
  cases hg with
  | past late => exact .past (by rw [hnow]; exact late)
  | parking leased parks lasts =>
    by_cases hj : j = i
    · subst hj
      have hparks := hc
      rw [parks] at hparks
      obtain c | c := c
      · obtain ⟨fingerprint, error, rfl⟩ := hparks
        have hexec : (a, w') = w.exec (.set (redisKey apiKeyId key) (.parked fingerprint error) false
            self.store.completedTtlS) := ha
        rw [exec_set] at hexec
        split at hexec
        · rename_i hex
          have hle : (self.store.completedTtlS : ℚ) ≤ 0 := by exact_mod_cast hex
          refine .past ?_
          rw [hnow]
          exact lasts.trans (add_le_of_nonpos_right hle)
        · have howns : (self.phases apiKeyId key h j).stage.owns = true := by
            rw [parks]
            rfl
          refine .shut (shut_of_write (leased.others howns) ?_ (Prod.mk.inj hexec).2) lasts
          rw [parks]
          cases a <;> rfl
      · exact hparks.elim
    · refine .parking ?_ ?_ (by rw [hnow]; exact lasts)
      · rw [phases_snoc]
        refine leased.command hc hserved hprompt fun htorn hne => ?_
        obtain ⟨_, c', e, he⟩ := htorn
        cases he
        exact absurd (exec_error ha) hne
      · rw [phases_snoc, Function.update_of_ne (Ne.symm hj)]
        exact parks
  | shut hs lasts =>
    rw [phases_snoc]
    exact .shut (hs.command hc hserved) lasts

/-- No later call acquires the key before `bound`: with a Redis that fails nobody any more, and
no claim past an unsettled one. -/
def KeepsOff (service : IdempotencyService) (apiKeyId : UUID) (key : String) (bound : ℚ) (h : Steps ι)
    (p : Pool (redisI.sum callI) Exn ι Redis) : Prop :=
  ∀ h' p', Run (sound callI) p h' p' →
    (∀ pre s post, h' = pre ++ s :: post → ¬ service.Late apiKeyId key (h ++ pre) s) →
    ∀ s ∈ h', s.before.now < bound → acquires s.event = false

/-- A guarded key keeps them off. -/
theorem Guarded.keepsOff {i : ι} {bound : ℚ}
    (hr : Run (served callI) (self.callers apiKeyId key calls w) h p)
    (hg : Guarded self apiKeyId key i bound h p.world (self.phases apiKeyId key h)) :
    KeepsOff self apiKeyId key bound h p := by
  have both : ∀ h' p', Run (sound callI) p h' p' →
      (∀ pre s post, h' = pre ++ s :: post → ¬ self.Late apiKeyId key (h ++ pre) s) →
      Run (served callI) (self.callers apiKeyId key calls w) (h ++ h') p' ∧
        Guarded self apiKeyId key i bound (h ++ h') p'.world (self.phases apiKeyId key (h ++ h')) ∧
        ∀ s ∈ h', s.before.now < bound → acquires s.event = false := by
    intro h' p' hr' hprompt
    induction hr' with
    | start =>
      rw [List.append_nil]
      exact ⟨hr, hg, fun s hs => absurd hs List.not_mem_nil⟩
    | @command h' p' j c k a w' _ hk ha ih =>
      obtain ⟨hrun, hguard, hquiet⟩ := ih fun pre s post he =>
        hprompt pre s (post ++ [⟨p'.world, j, ⟨c, a⟩⟩]) (by simp [he])
      have hserved := served_of_healthy (healthy_of_sound ha)
      have hnot := hprompt h' _ [] rfl
      have hc := allows_of_await hrun hk
      rw [← List.append_assoc]
      refine ⟨hrun.command hk hserved, hguard.command hc ha hnot, fun s hs hnow => ?_⟩
      rcases List.mem_append.mp hs with hs | hs
      · exact hquiet s hs hnow
      · rw [List.mem_singleton.mp hs] at hnow ⊢
        exact hguard.refuses hc hserved hnot hnow
    | elapse _ he ih =>
      obtain ⟨hrun, hguard, hquiet⟩ := ih hprompt
      exact ⟨hrun.elapse he, hguard.wait he, hquiet⟩
  exact fun h' p' hr' hprompt => (both h' p' hr' hprompt).2.2

/-! ### Before and after the failed write -/

/-- Somebody claimed the key, so a claim has a lifetime. -/
theorem inflight_pos (hr : Run (served callI) (self.callers apiKeyId key calls w) h p)
    {s : Step (redisI.sum callI) Exn ι Redis} (hs : s ∈ h) (hacq : acquires s.event = true) :
    0 < self.store.inflightTtlS := by
  obtain ⟨pre, post, he⟩ := List.append_of_mem hs
  obtain ⟨p', hr', hw, ⟨k, hk⟩, w', ha⟩ := hr.at he
  obtain ⟨_, fingerprint, hcmd⟩ := (move_of_answers (allows_of_await hr' hk) ha).free_of_acquires hacq
  obtain ⟨before, thread, c, a⟩ := s
  obtain rfl : c = _ := hcmd
  obtain e | _ | _ := a
  · cases hacq
  · cases hacq
  · by_contra hex
    rcases ha with ha | ⟨e, ha, _⟩
    · have hexec : before.exec (.set (redisKey apiKeyId key) (.claimed fingerprint) true self.store.inflightTtlS) =
          (.error invalidExpire, before) := if_pos (not_lt.mp hex)
      rw [hexec] at ha
      cases (Prod.mk.inj ha).1
    · cases ha

/-- A call begins with its claim. -/
theorem call_claims (service : IdempotencyService) (apiKeyId : UUID) (key : String) (c : KeyedCall) :
    ∃ fingerprint k, service.call apiKeyId key c =
      .await (.inl (.set (redisKey apiKeyId key) (.claimed fingerprint) true service.store.inflightTtlS)) k := by
  obtain ⟨request, streamed⟩ := c
  cases streamed <;> exact ⟨_, _, rfl⟩

/-- The write of a response is no claim. -/
theorem not_late_completing {fingerprint : String} {body : ResponseBody} {i : ι} {a : Except Exn Bool} :
    ¬ self.Late apiKeyId key h ⟨w, i, ⟨self.completing apiKeyId key fingerprint body, a⟩⟩ := by
  rintro ⟨⟨fingerprint', hcmd⟩, _⟩
  exact absurd (RedisCmd.set.inj (Sum.inl.inj hcmd)).2.2.1 Bool.false_ne_true

/-- A stream whose response was not stored is about to park the key. -/
theorem guarded_of_streamed (hr : Run (served callI) (self.callers apiKeyId key calls w) h p)
    (hok : ∀ pre s post, h = pre ++ s :: post → self.Timely apiKeyId key pre s)
    {i : ι} {fingerprint : String} {body : ResponseBody} {k : Except Exn Bool → Prog (redisI.sum callI) Exn Unit}
    (hi : p.threads i = .await (self.completing apiKeyId key fingerprint body) k) (e : Exn)
    (hs : (calls i).streamed = true) :
    Guarded self apiKeyId key i (p.world.now + self.store.completedTtlS)
      (h ++ [⟨p.world, i, ⟨self.completing apiKeyId key fingerprint body, .error e⟩⟩]) p.world
      (self.phases apiKeyId key (h ++ [⟨p.world, i, ⟨self.completing apiKeyId key fingerprint body, .error e⟩⟩])) := by
  have hphase := storing_of_kind hr hi
  rw [if_pos hs] at hphase
  have unchanged : (served callI).answers p.world (self.completing apiKeyId key fingerprint body) (.error e)
      p.world := .inr ⟨e, rfl, .inl rfl⟩
  refine .parking ?_ ?_ le_rfl
  · rw [phases_snoc]
    exact (leased hr hok).command (allows_of_await hr hi) unchanged not_late_completing
      fun _ hne => absurd rfl hne
  · rw [phases_snoc, Function.update_self, hphase]
    rfl

/-- A buffered call whose response was not stored leaves nobody to settle the claim. -/
theorem unowned_of_buffered (hr : Run (served callI) (self.callers apiKeyId key calls w) h p)
    (hok : ∀ pre s post, h = pre ++ s :: post → self.Timely apiKeyId key pre s)
    {i : ι} {fingerprint : String} {body : ResponseBody} {k : Except Exn Bool → Prog (redisI.sum callI) Exn Unit}
    (hi : p.threads i = .await (self.completing apiKeyId key fingerprint body) k) (e : Exn)
    (hs : ¬ (calls i).streamed = true) (j : ι) :
    (self.phases apiKeyId key (h ++ [⟨p.world, i, ⟨self.completing apiKeyId key fingerprint body, .error e⟩⟩])
      j).stage.owns = false := by
  have hphase := storing_of_kind hr hi
  rw [if_neg hs] at hphase
  refine nobody_left ((leased hr hok).others ?_) ?_ j
  · rw [hphase]
    rfl
  · rw [hphase]
    rfl

/-- Its claim, left as it is, keeps the others off for what remains of it. -/
theorem guarded_of_claim (hr : Run (served callI) (self.callers apiKeyId key calls w) h p)
    (hok : ∀ pre s post, h = pre ++ s :: post → self.Timely apiKeyId key pre s)
    {i : ι} {fingerprint : String} {body : ResponseBody} {k : Except Exn Bool → Prog (redisI.sum callI) Exn Unit}
    (hi : p.threads i = .await (self.completing apiKeyId key fingerprint body) k) (e : Exn)
    (hs : ¬ (calls i).streamed = true) {x : Expires Record}
    (hx : p.world.entries (redisKey apiKeyId key) = some x) {bound : ℚ}
    (hle : bound ≤ max p.world.now x.deadline) :
    Guarded self apiKeyId key i bound
      (h ++ [⟨p.world, i, ⟨self.completing apiKeyId key fingerprint body, .error e⟩⟩]) p.world
      (self.phases apiKeyId key (h ++ [⟨p.world, i, ⟨self.completing apiKeyId key fingerprint body, .error e⟩⟩])) := by
  rcases le_max_iff.mp hle with hle | hle
  · exact .past hle
  · refine .shut (n := h.length + 1) ⟨by simp, fun _ => ⟨hx, unowned_of_buffered hr hok hi e hs, ?_⟩⟩ hle
    simp

/-- Once the entry has expired, a call that has not begun acquires a key that nobody owns. -/
theorem not_keepsOff
    (hnone : ∀ i, (self.phases apiKeyId key h i).stage.owns = false) (hpos : 0 < self.store.inflightTtlS)
    {x : Expires Record} (hx : p.world.entries (redisKey apiKeyId key) = some x) {j : ι}
    (hj : p.threads j = self.call apiKeyId key (calls j)) {bound : ℚ}
    (hlt : max p.world.now x.deadline < bound) : ¬ KeepsOff self apiKeyId key bound h p := by
  intro hkeeps
  obtain ⟨fingerprint, k, hcall⟩ := call_claims self apiKeyId key (calls j)
  have expired : Expiring.find (⟨max p.world.now x.deadline, p.world.entries⟩ : Redis)
      (redisKey apiKeyId key) = none := by
    refine Expiring.find_eq_none.mpr fun y hy => ?_
    rw [show y = x from Option.some.inj (hy.symm.trans hx)]
    exact le_max_right _ _
  have taken : (sound callI).answers (⟨max p.world.now x.deadline, p.world.entries⟩ : Redis)
      (.inl (.set (redisKey apiKeyId key) (.claimed fingerprint) true self.store.inflightTtlS)) (.ok true) _ :=
    exec_granted hpos expired
  have waited : Run (sound callI) p [] ⟨⟨max p.world.now x.deadline, p.world.entries⟩, p.threads⟩ :=
    Run.start.wait _ ⟨le_max_left _ _, rfl⟩
  have claims := waited.answer j (hj.trans hcall) (.ok true) _ taken
  have hquiet := hkeeps _ _ claims ?_ _ List.mem_cons_self hlt
  · cases hquiet
  · intro pre s post he
    rcases snoc_eq_split he with ⟨_, rfl, rfl⟩ | ⟨front, _, hnil⟩
    · rintro ⟨_, i, t, howns, _⟩
      rw [List.append_nil, hnone i] at howns
      cases howns
    · simp at hnil

/-- **A response that could not be stored, and exactly when the key is kept all the same.** In
a run without late claims, a call comes to store its response and the write fails, not
applied; from then on Redis fails nobody. While `completed_ttl_s` lasts no call acquires the
key exactly if the call was a stream, or the claim lives that long. -/
theorem unstored_kept_iff (hr : Run (served callI) (self.callers apiKeyId key calls w) h p)
    (hok : ∀ pre s post, h = pre ++ s :: post → self.Timely apiKeyId key pre s)
    {i j : ι} {fingerprint : String} {body : ResponseBody}
    {k : Except Exn Bool → Prog (redisI.sum callI) Exn Unit}
    (hi : p.threads i = .await (self.completing apiKeyId key fingerprint body) k) (e : Exn) {x : Expires Record}
    (hx : p.world.entries (redisKey apiKeyId key) = some x) (hij : j ≠ i)
    (hj : p.threads j = self.call apiKeyId key (calls j)) :
    KeepsOff self apiKeyId key (p.world.now + self.store.completedTtlS)
        (h ++ [⟨p.world, i, ⟨self.completing apiKeyId key fingerprint body, .error e⟩⟩])
        ⟨p.world, Function.update p.threads i (k (.error e))⟩ ↔
      (calls i).streamed = true ∨ p.world.now + self.store.completedTtlS ≤ max p.world.now x.deadline := by
  have failed := hr.command hi (w := p.world) (a := .error e) (.inr ⟨e, rfl, .inl rfl⟩)
  constructor
  · intro hkeeps
    by_contra hnot
    obtain ⟨hs, hlt⟩ := not_or.mp hnot
    have hphase := storing_of_kind hr hi
    rw [if_neg hs] at hphase
    obtain ⟨t, _, ⟨s, hmem, _, hacq, _⟩, _⟩ := (leased hr hok).kept i (by rw [hphase]; rfl)
    have hj' : Function.update p.threads i (k (.error e)) j = self.call apiKeyId key (calls j) := by
      rw [Function.update_of_ne hij]
      exact hj
    exact not_keepsOff (p := ⟨p.world, Function.update p.threads i (k (.error e))⟩)
      (unowned_of_buffered hr hok hi e hs) (inflight_pos hr hmem hacq) hx hj' (not_le.mp hlt) hkeeps
  · intro hwhen
    by_cases hs : (calls i).streamed = true
    · exact (guarded_of_streamed hr hok hi e hs).keepsOff failed
    · exact (guarded_of_claim hr hok hi e hs hx (hwhen.resolve_left hs)).keepsOff failed

/-- The response of a stream could not be stored at the very moment of its claim: for a day
nobody acquires the key. -/
theorem unstored_kept_stream :
    ∃ (h : Steps Bool) (p : Pool (redisI.sum callI) Exn Bool Redis) (s : Step (redisI.sum callI) Exn Bool Redis),
      Run (served callI) (trialService.callers ⟨7⟩ "k1" (fun i => ⟨trialRequest, !i⟩) ⟨0, fun _ => none⟩)
        (h ++ [s]) p ∧
      s.event = ⟨trialService.completing ⟨7⟩ "k1" (trialService.fingerprint trialRequest)
        (serialize trialResponse), .error (.redisError "gone")⟩ ∧
      KeepsOff trialService ⟨7⟩ "k1" (0 + (86400 : Int)) (h ++ [s]) p := by
  let name := redisKey ⟨7⟩ "k1"
  let print := trialService.fingerprint trialRequest
  let w₁ : Redis := Expiring.write ⟨0, fun _ => none⟩ name (.claimed print) (120 : Int)
  have r₀ : Run (served callI) (trialService.callers ⟨7⟩ "k1" (fun i : Bool => ⟨trialRequest, !i⟩)
      ⟨0, fun _ => none⟩) [] _ := .start
  have r₁ := r₀.answer false rfl (.ok true) w₁ (exec_taken (by decide) rfl)
  have r₂ := r₁.answer false rfl (.ok (.response trialResponse)) w₁ rfl
  have r₃ := r₂.answer false rfl (.ok ()) w₁ rfl
  have r₄ := r₃.answer false rfl (.ok ()) w₁ rfl
  have r₅ := r₄.answer false rfl (.ok ()) w₁ rfl
  have r₆ := r₅.answer false rfl (.error (.redisError "gone")) w₁ (.inr ⟨_, rfl, .inl rfl⟩)
  refine (fun timely => ⟨_, _, _, r₆, rfl, (unstored_kept_iff (i := false) (j := true) r₅
    (timely_of_instant (t := 0) timely (by decide) (by decide)) rfl (.redisError "gone")
    Expiring.write_entries_self (by decide) rfl).mpr (.inl rfl)⟩) ?_
  exact List.forall_mem_cons.mpr ⟨rfl, List.forall_mem_cons.mpr ⟨rfl, List.forall_mem_cons.mpr ⟨rfl,
    List.forall_mem_cons.mpr ⟨rfl, List.forall_mem_singleton.mpr rfl⟩⟩⟩⟩

/-- The response of a buffered call could not be stored. Two minutes later the claim has
expired, and the next call acquires the key, to run the operation a second time. -/
theorem unstored_reacquired :
    ∃ (h h' : Steps Bool) (p p' : Pool (redisI.sum callI) Exn Bool Redis)
      (s s' : Step (redisI.sum callI) Exn Bool Redis),
      Run (served callI) (trialService.callers ⟨7⟩ "k1" (fun _ => ⟨trialRequest, false⟩) ⟨0, fun _ => none⟩)
        (h ++ [s]) p ∧
      s.event = ⟨trialService.completing ⟨7⟩ "k1" (trialService.fingerprint trialRequest)
        (serialize trialResponse), .error (.redisError "gone")⟩ ∧ p.world = s.before ∧
      Run (sound callI) p (h' ++ [s']) p' ∧ acquires s'.event = true ∧ s'.thread ≠ s.thread ∧
      s'.before.now < s.before.now + trialService.store.completedTtlS := by
  let name := redisKey ⟨7⟩ "k1"
  let print := trialService.fingerprint trialRequest
  let w₁ : Redis := Expiring.write ⟨0, fun _ => none⟩ name (.claimed print) (120 : Int)
  have r₀ : Run (served callI) (trialService.callers ⟨7⟩ "k1" (fun _ : Bool => ⟨trialRequest, false⟩)
      ⟨0, fun _ => none⟩) [] _ := .start
  have r₁ := r₀.answer false rfl (.ok true) w₁ (exec_taken (by decide) rfl)
  have r₂ := r₁.answer false rfl (.ok trialResponse) w₁ rfl
  have r₃ := r₂.answer false rfl (.error (.redisError "gone")) w₁ (.inr ⟨_, rfl, .inl rfl⟩)
  let w₂ : Redis := ⟨120, w₁.entries⟩
  have failed : ∃ h p k s, Run (served callI) _ (h ++ [s]) p ∧ s.thread = false ∧ s.before = w₁ ∧
      s.event = ⟨trialService.completing ⟨7⟩ "k1" print (serialize trialResponse), .error (.redisError "gone")⟩ ∧
      p.world = w₁ ∧ p.threads true = .await (.inl (.set name (.claimed print) true (120 : Int))) k :=
    ⟨[_, _], _, _, _, r₃, rfl, rfl, rfl, rfl, rfl⟩
  obtain ⟨h, p, k, s, hrun, hthread, hbefore, hevent, hworld, hj⟩ := failed
  have later : Expiring.Waits w₁ w₂ := ⟨by show (0 : ℚ) ≤ 120; norm_num, rfl⟩
  have expired := later.expired (by show (0 : ℚ) + (120 : Int) ≤ 120; norm_num)
  have waited : Run (sound callI) p [] ⟨w₂, p.threads⟩ := Run.start.wait _ (by rw [hworld]; exact later)
  have claims := waited.answer true hj (.ok true) (w₂.write name (.claimed print) (120 : Int))
    (exec_granted (by decide) expired)
  refine ⟨h, [], p, _, s, _, hrun, hevent, hworld.trans hbefore.symm, claims, rfl, by simp [hthread], ?_⟩
  rw [hbefore]
  show (120 : ℚ) < 0 + (86400 : Int)
  norm_num

end Runs
end IdempotencyService
end Relayix
