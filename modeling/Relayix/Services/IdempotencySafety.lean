import Relayix.Services.IdempotencyMoves

/-! Any number of calls on one idempotency key.

While a claim is held there is an entry for the key, so `SET NX` refuses everybody else
for as long as that entry has not expired: at most one call holds a claim (`Sole`). What
keeps the entry from expiring is left to the run. -/
namespace Relayix
open Library
namespace IdempotencyService

abbrev Steps (ι : Type) := List (Step (redisI.sum callI) Exn ι Redis)

section Calls
variable {ι : Type} [DecidableEq ι] (self : IdempotencyService) (apiKeyId : UUID) (key : String)

/-- The calls on one key, on a Redis that may hold anything else. -/
abbrev callers (calls : ι → KeyedCall) (w : Redis) : Pool (redisI.sum callI) Exn ι Redis :=
  ⟨w, fun i => self.call apiKeyId key (calls i)⟩

/-- Where each call is, after a history. -/
abbrev phases (h : Steps ι) : ι → Phase :=
  watched (self.store.claims (redisKey apiKeyId key)) (fun _ => .claiming) h

theorem phases_snoc (h : Steps ι) (s : Step (redisI.sum callI) Exn ι Redis) :
    self.phases apiKeyId key (h ++ [s]) = Function.update (self.phases apiKeyId key h) s.thread
      ((self.phases apiKeyId key h s.thread).next s.event.cmd s.event.answer) :=
  watched_snoc _ _ _ _

theorem served_meets (name : String) : (served callI).Meets (self.store.claims name) :=
  fun _ _ _ _ _ => trivial

/-- The call got its claim and no write has ended it. -/
def Unsettled (t : Trace (redisI.sum callI) Exn) : Prop :=
  (∃ e ∈ t, acquires e = true) ∧ ∀ e ∈ t, settles e = false

/-- The operation of a call that got its claim has not ended: `await operation()` of
`execute` has not returned, or what `execute_stream` started is not over. -/
def Running (h : Steps ι) (p : Pool (redisI.sum callI) Exn ι Redis) (i : ι) : Prop :=
  (∃ e ∈ log i h, acquires e = true) ∧ (∀ o, p.threads i ≠ .ofExcept o) ∧
    ∀ e ∈ log i h, e.cmd ≠ .inr (.inl .run)

end Calls

/-! ### What a log says of a phase -/

/-- Only `await operation()` of `execute` makes a call tell its answer. -/
theorem told_of_next {q : Phase} {c : (redisI.sum callI).Cmd}
    {a : Except Exn ((redisI.sum callI).Ans c)} (h : (q.next c a).told = true) :
    c = .inr (.inl .run) ∨ q.told = true := by
  unfold Phase.next at h
  split at h <;> first
    | exact .inl rfl
    | exact .inr rfl
    | rw [Phase.told_failing] at h; cases h
    | rw [Phase.told_arrived] at h; cases h
    | cases h

structure Recorded (t : Trace (redisI.sum callI) Exn) (q : Phase) : Prop where
  begun : (∃ e ∈ t, acquires e = true) → q.stage ≠ .outside
  unsettled : Unsettled t → q.stage.held = true
  told : q.told = true → ∃ e ∈ t, e.cmd = .inr (.inl .run)

theorem Move.begun {st : RedisIdempotencyStore} {name : String} {w w' : Redis} {q q' : Phase}
    {e : Event (redisI.sum callI) Exn} (hm : Move st name w w' q q' e)
    (h : q.stage ≠ .outside ∨ acquires e = true) : q'.stage ≠ .outside := by
  cases hm with
  | keep _ leads quiet _ =>
    intro hq
    rw [quiet] at h
    rcases h with h | h
    · rw [hq] at leads
      cases hs : q.stage <;> simp_all [Stage.leads]
    · cases h
  | claim _ _ _ _ _ takes =>
    rcases takes with ⟨_, h⟩ | ⟨_, h⟩ <;> rw [h] <;> decide
  | store _ _ _ _ _ after =>
    rcases after with h | ⟨_, h, _⟩ <;> rw [h] <;> decide
  | free _ _ _ after =>
    rw [after]
    decide

theorem Move.unsettled {st : RedisIdempotencyStore} {name : String} {w w' : Redis} {q q' : Phase}
    {e : Event (redisI.sum callI) Exn} (hm : Move st name w w' q q' e)
    (h : q.stage.held = true ∨ acquires e = true) (hs : settles e = false) :
    q'.stage.held = true := by
  cases hm with
  | keep _ _ quiet ends =>
    rw [quiet] at h
    rcases ends (h.resolve_right Bool.false_ne_true) with hq | he
    · exact hq
    · rw [hs] at he
      cases he
  | claim _ _ _ _ outside takes =>
    rcases takes with ⟨_, hq⟩ | ⟨ha, _⟩
    · rw [hq]
      rfl
    · rw [outside, ha] at h
      rcases h with h | h <;> cases h
  | store _ _ cmd _ _ _ => 
    obtain ⟨c, a⟩ := e
    subst cmd
    cases hs
  | free cmd _ _ _ =>
    obtain ⟨c, a⟩ := e
    subst cmd
    cases hs

section Runs
variable {ι : Type} [DecidableEq ι] {self : IdempotencyService} {apiKeyId : UUID} {key : String}
  {calls : ι → KeyedCall} {w : Redis} {h : Steps ι} {p : Pool (redisI.sum callI) Exn ι Redis}

/-- What a call awaits is what its phase allows. -/
theorem allows_of_await (hr : Run (served callI) (self.callers apiKeyId key calls w) h p) {i : ι}
    {c : (redisI.sum callI).Cmd} {k : Except Exn ((redisI.sum callI).Ans c) → Prog (redisI.sum callI) Exn Unit}
    (hi : p.threads i = .await c k) :
    self.store.allows (redisKey apiKeyId key) (self.phases apiKeyId key h i) c := by
  have hob := hr.obeys (self.served_meets _) (fun i => self.call_obeys apiKeyId key (calls i)) i
  rw [hi] at hob
  exact hob.1

theorem recorded (hr : Run (served callI) (self.callers apiKeyId key calls w) h p) (i : ι) :
    Recorded (log i h) (self.phases apiKeyId key h i) := by
  refine Run.each (self.served_meets _) (fun i => self.call_obeys apiKeyId key (calls i))
    (fun _ => ?_) (fun t q w c a w' ht hc ha => ?_) hr i
  · have nothing : ¬ ∃ e ∈ ([] : Trace (redisI.sum callI) Exn), acquires e = true := by simp
    exact ⟨fun h => absurd h nothing, fun h => absurd h.1 nothing, fun h => by cases h⟩
  · have hm := move_of_answers hc ha
    refine ⟨fun ⟨e, he, hq⟩ => hm.begun ?_, fun ⟨⟨e, he, hq⟩, hs⟩ => hm.unsettled ?_ ?_, fun h => ?_⟩
    · rcases List.mem_append.mp he with he | he
      · exact .inl (ht.begun ⟨e, he, hq⟩)
      · exact .inr (List.mem_singleton.mp he ▸ hq)
    · rcases List.mem_append.mp he with he | he
      · exact .inl (ht.unsettled ⟨⟨e, he, hq⟩, fun x hx => hs x (List.mem_append_left _ hx)⟩)
      · exact .inr (List.mem_singleton.mp he ▸ hq)
    · exact hs _ (List.mem_append_right _ List.mem_cons_self)
    · rcases told_of_next h with hc | hq
      · exact ⟨_, List.mem_append_right _ List.mem_cons_self, hc⟩
      · obtain ⟨e, he, hc⟩ := ht.told hq
        exact ⟨e, List.mem_append_left _ he, hc⟩

/-- A running operation's call owns the key. -/
theorem owns_of_running (hr : Run (served callI) (self.callers apiKeyId key calls w) h p) {i : ι}
    (hi : Running h p i) : (self.phases apiKeyId key h i).stage.owns = true := by
  obtain ⟨hacq, hlive, hrun⟩ := hi
  have hrec := recorded hr i
  have hbegun := hrec.begun hacq
  obtain ⟨c, hc⟩ := hr.pending (self.served_meets _) (fun i => self.call_obeys apiKeyId key (calls i))
    hlive
  have htold : (self.phases apiKeyId key h i).told = false := by
    rw [Bool.eq_false_iff]
    intro ht
    obtain ⟨e, he, hec⟩ := hrec.told ht
    exact hrun e he hec
  have hallows : self.store.allows (redisKey apiKeyId key) (self.phases apiKeyId key h i) c := hc
  cases hq : self.phases apiKeyId key h i with
  | claiming | reading | refused => exact absurd (by rw [hq]; rfl) hbegun
  | answered | served =>
    rw [hq] at htold
    cases htold
  | running | streaming _ | delivering | parking | releasing => rfl
  | lapsed | ended =>
    rw [hq] at hallows
    obtain c | c | c := c <;> exact hallows.elim

end Runs

/-! ### At most one claim -/

/-- At most one call is in `P`, and while one is, the key has an entry. -/
structure Sole {ι : Type} (P : Stage → Bool) (name : String) (w : Redis) (g : ι → Phase) : Prop where
  one : ∀ i j, P (g i).stage = true → P (g j).stage = true → i = j
  entry : ∀ i, P (g i).stage = true → ∃ e, w.entries name = some e

section Move
variable {ι : Type} [DecidableEq ι] {P : Stage → Bool} {st : RedisIdempotencyStore} {name : String}
  {w w' : Redis} {g : ι → Phase} {i : ι} {q' : Phase} {e : Event (redisI.sum callI) Exn}

theorem holder_of_update {j : ι} (h : P (Function.update g i q' j).stage = true) :
    (j = i ∧ P q'.stage = true) ∨ (j ≠ i ∧ P (g j).stage = true) := by
  by_cases hj : j = i
  · subst hj
    rw [Function.update_self] at h
    exact .inl ⟨rfl, h⟩
  · rw [Function.update_of_ne hj] at h
    exact .inr ⟨hj, h⟩

/-- The step of a holder after which nobody else holds. -/
theorem Sole.alone (hs : Sole P name w g) (hi : P (g i).stage = true) {j : ι}
    (h : P (Function.update g i q' j).stage = true) : j = i ∧ P q'.stage = true := by
  rcases holder_of_update h with h | ⟨hj, h⟩
  · exact h
  · exact absurd (hs.one j i h hi) hj

/-- A step keeps it, provided a claim does not find the key of a holder free. -/
theorem Sole.move (hP : Stage.Tracked P) (hs : Sole P name w g)
    (hm : Move st name w w' (g i) q' e)
    (hseen : ∀ fingerprint, e.cmd = .inl (.set name (.claimed fingerprint) true st.inflightTtlS) →
      ∀ j, P (g j).stage = true → w.find name ≠ none) :
    Sole P name w' (Function.update g i q') := by
  cases hm with
  | keep same leads _ _ =>
    have hback : ∀ j, P (Function.update g i q' j).stage = true → P (g j).stage = true := by
      intro j hj
      rcases holder_of_update hj with ⟨rfl, hq⟩ | ⟨_, hq⟩
      · exact hP.back leads hq
      · exact hq
    rw [same]
    exact ⟨fun j k hj hk => hs.one j k (hback j hj) (hback k hk), fun j hj => hs.entry j (hback j hj)⟩
  | claim fingerprint cmd free wrote _ _ =>
    have hself : ∀ j, P (Function.update g i q' j).stage = true → j = i := by
      intro j hj
      rcases holder_of_update hj with ⟨h, _⟩ | ⟨_, hq⟩
      · exact h
      · exact absurd free (hseen fingerprint cmd j hq)
    rw [wrote]
    exact ⟨fun j k hj hk => (hself j hj).trans (hself k hk).symm,
      fun _ _ => ⟨_, Expiring.write_entries_self⟩⟩
  | store _ _ _ wrote committed _ =>
    have hi : P (g i).stage = true := by
      rw [committed]
      exact hP.committed
    rw [wrote]
    exact ⟨fun j k hj hk => (hs.alone hi hj).1.trans (hs.alone hi hk).1.symm,
      fun _ _ => ⟨_, Expiring.write_entries_self⟩⟩
  | free _ _ releasing after =>
    have hi : P (g i).stage = true := by
      rw [releasing]
      exact hP.unsure
    have hnone : ∀ j, P (Function.update g i q' j).stage ≠ true := by
      intro j hj
      have hq := (hs.alone hi hj).2
      rw [after, hP.settled] at hq
      cases hq
    exact ⟨fun j _ hj _ => absurd hj (hnone j), fun j hj => absurd hj (hnone j)⟩

end Move

/-! ### No operation after one that may have run -/

section Commit
variable {st : RedisIdempotencyStore} {name : String} {q : Phase} {c : (redisI.sum callI).Cmd}
  {a : Except Exn ((redisI.sum callI).Ans c)}

theorem running_of_returns (h : st.allows name q c) (hr : returns ⟨c, a⟩ = true) : q = .running := by
  obtain c | c | c := c
  · cases hr
  · cases q with
    | running => rfl
    | refused =>
      obtain rfl : c = .iterate := h
      cases hr
    | streaming upcoming => rcases h with rfl | rfl <;> cases hr
    | _ => exact h.elim
  · cases hr

theorem returns_of_commits {e : Event (redisI.sum callI) Exn} (h : commits e = true) :
    returns e = true := by
  unfold commits at h
  split at h <;> first | rfl | cases h

/-- The operation that committed will not release its claim. -/
theorem committed_of_commits (h : st.allows name q c) (hc : commits ⟨c, a⟩ = true) :
    q = .running ∧ (q.next c a).stage = .committed := by
  obtain rfl := running_of_returns h (returns_of_commits hc)
  refine ⟨rfl, ?_⟩
  obtain c | c | c := c
  · cases hc
  · rcases h with rfl | rfl
    · cases a with
      | ok _ => rfl
      | error e =>
        have he : e.isUpstreamAmbiguous = true := hc
        show (Phase.failing e).stage = _
        rw [Phase.failing, if_pos he]
        rfl
    · cases a with
      | ok _ => rfl
      | error e =>
        have he : e.isUpstreamAmbiguous = true := hc
        show (Phase.failing e).stage = _
        rw [Phase.failing, if_pos he]
        rfl
  · cases hc

end Commit

/-- After a commit the key stays taken, nobody may release it, and no operation starts. -/
def Sealed {ι : Type} (name : String) (h : Steps ι) (w : Redis) (g : ι → Phase) : Prop :=
  ∀ pre s post, h = pre ++ s :: post → commits s.event = true →
    (∃ e, w.entries name = some e) ∧ (∀ i, (g i).stage ≠ .unsure) ∧
      ∀ s' ∈ post, acquires s'.event = false ∧ returns s'.event = false

section Seal
variable {ι : Type} [DecidableEq ι] {st : RedisIdempotencyStore} {name : String} {w w' : Redis}
  {h : Steps ι} {g : ι → Phase} {i : ι} {c : (redisI.sum callI).Cmd}
  {a : Except Exn ((redisI.sum callI).Ans c)}

/-- A step that finds the entry of the key keeps a seal. -/
theorem Sealed.sealed_step (hc : st.allows name (g i) c) (ha : (served callI).answers w c a w')
    (hlive : w.find name ≠ none) (hnone : ∀ j, (g j).stage ≠ .unsure) :
    (∃ e, w'.entries name = some e) ∧
      (∀ j, (Function.update g i ((g i).next c a) j).stage ≠ .unsure) ∧
      acquires ⟨c, a⟩ = false ∧ returns ⟨c, a⟩ = false := by
  have hret : returns ⟨c, a⟩ = false := by
    rw [Bool.eq_false_iff]
    intro hr
    exact hnone i (by rw [running_of_returns hc hr]; rfl)
  have hothers : ((g i).next c a).stage ≠ .unsure →
      ∀ j, (Function.update g i ((g i).next c a) j).stage ≠ .unsure := by
    intro hi j
    by_cases hj : j = i
    · subst hj
      rwa [Function.update_self]
    · rw [Function.update_of_ne hj]
      exact hnone j
  cases move_of_answers hc ha with
  | keep same leads quiet _ =>
    have hentry : ∃ e, w.entries name = some e := by
      obtain ⟨e, he⟩ := Option.ne_none_iff_exists'.mp hlive
      exact ⟨e, (Expiring.find_eq_some.mp he).1⟩
    rw [same]
    refine ⟨hentry, hothers fun hq => ?_, quiet, hret⟩
    have hi := hnone i
    rw [hq] at leads
    cases hs : (g i).stage <;> simp_all [Stage.leads]
  | claim _ _ free _ _ _ => exact absurd free hlive
  | store _ _ cmd wrote _ after =>
    have hacq : acquires ⟨c, a⟩ = false := by
      obtain rfl := cmd
      rfl
    rw [wrote]
    refine ⟨⟨_, Expiring.write_entries_self⟩, hothers ?_, hacq, hret⟩
    rcases after with hq | ⟨_, hq, _⟩ <;> rw [hq] <;> decide
  | free _ _ releasing _ => exact absurd (by rw [releasing]; rfl) (hnone i)

/-- A commit is made by the only holder. -/
theorem Sealed.commit_step (hs : Sole Stage.held name w g) (hc : st.allows name (g i) c)
    (ha : (served callI).answers w c a w') (hcommit : commits ⟨c, a⟩ = true) :
    (∃ e, w'.entries name = some e) ∧
      ∀ j, (Function.update g i ((g i).next c a) j).stage ≠ .unsure := by
  obtain ⟨hrun, hnext⟩ := committed_of_commits hc hcommit
  have hi : (g i).stage.held = true := by
    rw [hrun]
    rfl
  have hw : w' = w := by
    obtain c | c := c
    · cases hcommit
    · exact ha
  rw [hw]
  refine ⟨hs.entry i hi, fun j hj => ?_⟩
  have hheld : (Function.update g i ((g i).next c a) j).stage.held = true := by
    rw [hj]
    rfl
  obtain ⟨rfl, _⟩ := hs.alone hi hheld
  rw [Function.update_self, hnext] at hj
  cases hj

theorem Sealed.move (hs : Sole Stage.held name w g) (hseal : Sealed name h w g)
    (hc : st.allows name (g i) c) (ha : (served callI).answers w c a w')
    (hlive : ∀ e, w.entries name = some e → w.now < e.deadline) :
    Sealed name (h ++ [⟨w, i, ⟨c, a⟩⟩]) w' (Function.update g i ((g i).next c a)) := by
  intro pre s post he hcommit
  rcases snoc_eq_split he with ⟨rfl, rfl, rfl⟩ | ⟨front, rfl, hh⟩
  · obtain ⟨hentry, hnone⟩ := commit_step hs hc ha hcommit
    exact ⟨hentry, hnone, fun _ h => by cases h⟩
  · obtain ⟨⟨e, hentry⟩, hnone, hfront⟩ := hseal pre s front hh hcommit
    have hfind : w.find name ≠ none := by
      rw [Expiring.find_eq_some.mpr ⟨hentry, hlive e hentry⟩]
      exact Option.some_ne_none e
    obtain ⟨hentry', hnone', hacq, hret⟩ := sealed_step hc ha hfind hnone
    refine ⟨hentry', hnone', fun s' hs' => ?_⟩
    rcases List.mem_append.mp hs' with hs' | hs'
    · exact hfront s' hs'
    · rw [List.mem_singleton.mp hs']
      exact ⟨hacq, hret⟩

end Seal

section Undisturbed
variable {ι : Type} [DecidableEq ι] {self : IdempotencyService} {apiKeyId : UUID} {key : String}
  {calls : ι → KeyedCall} {w : Redis} {h : Steps ι} {p : Pool (redisI.sum callI) Exn ι Redis}

/-- No step of the run finds an expired record under the key. -/
def Unexpired (name : String) (h : Steps ι) : Prop :=
  ∀ s ∈ h, ∀ e, s.before.entries name = some e → s.before.now < e.deadline

/-- While no record expires, one claim at a time, and none after a commit. -/
theorem sole_sealed (hr : Run (served callI) (self.callers apiKeyId key calls w) h p)
    (hfresh : Unexpired (redisKey apiKeyId key) h) :
    Sole Stage.held (redisKey apiKeyId key) p.world (self.phases apiKeyId key h) ∧
      Sealed (redisKey apiKeyId key) h p.world (self.phases apiKeyId key h) := by
  have hok : ∀ pre s post, h = pre ++ s :: post →
      (fun (_ : Steps ι) (s : Step (redisI.sum callI) Exn ι Redis) =>
        ∀ e, s.before.entries (redisKey apiKeyId key) = some e → s.before.now < e.deadline) pre s :=
    fun pre s post he => hfresh s (by rw [he]; simp)
  have hcommand : ∀ (h : Steps ι) (w : Redis) (g : ι → Phase) (i : ι) (c : (redisI.sum callI).Cmd)
      a w', (Sole Stage.held (redisKey apiKeyId key) w g ∧ Sealed (redisKey apiKeyId key) h w g) →
      (self.store.claims (redisKey apiKeyId key)).allowed (g i) c →
      (served callI).answers w c a w' →
      (∀ e, w.entries (redisKey apiKeyId key) = some e → w.now < e.deadline) →
      Sole Stage.held (redisKey apiKeyId key) w' (Function.update g i ((g i).next c a)) ∧
        Sealed (redisKey apiKeyId key) (h ++ [⟨w, i, ⟨c, a⟩⟩]) w'
          (Function.update g i ((g i).next c a)) := by
    intro h w g i c a w' ⟨hsole, hseal⟩ hc ha hlive
    refine ⟨hsole.move Stage.held_tracked (move_of_answers hc ha) fun _ _ j hj => ?_,
      hseal.move hsole hc ha hlive⟩
    obtain ⟨e, he⟩ := hsole.entry j hj
    rw [Expiring.find_eq_some.mpr ⟨he, hlive e he⟩]
    exact Option.some_ne_none e
  have hstart : Sole Stage.held (redisKey apiKeyId key) w (fun _ : ι => Phase.claiming) ∧
      Sealed (redisKey apiKeyId key) ([] : Steps ι) w (fun _ : ι => Phase.claiming) :=
    ⟨⟨fun _ _ h => (by cases h), fun _ h => (by cases h)⟩, fun pre s post he => by simp at he⟩
  refine Run.invariant (self.served_meets _) (fun i => self.call_obeys apiKeyId key (calls i))
    hstart hcommand (fun h w g w' ⟨hsole, hseal⟩ hw => ?_) hr hok
  refine ⟨⟨hsole.one, fun i hi => ?_⟩, fun pre s post he hc => ?_⟩
  · rw [hw.entries]
    exact hsole.entry i hi
  · rw [hw.entries]
    exact hseal pre s post he hc

end Undisturbed
end IdempotencyService
end Relayix
