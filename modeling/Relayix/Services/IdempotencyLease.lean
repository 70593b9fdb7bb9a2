import Relayix.Services.IdempotencyAnswers

/-! Claims that expire.

A claim lasts `inflight_ttl_s` and nothing renews it, while its operation may run for
longer; the writes that end a claim do not ask whose it is. So both the single owner and
the completed record depend on when the other calls arrive: `Late` is the arrival that
breaks them, and without one they hold of every run. -/
namespace Relayix
open Library
namespace IdempotencyService

section Lease
variable {ι : Type} [DecidableEq ι] (service : IdempotencyService) (apiKeyId : UUID) (key : String)

/-- When call `i` got its claim. -/
def ClaimedAt (h : Steps ι) (i : ι) (t : ℚ) : Prop :=
  ∃ s ∈ h, s.thread = i ∧ acquires s.event = true ∧ s.before.now = t

/-- The step is a `SET NX` for the key, whether Redis runs it or not, while a call still has to
settle a claim that it got `inflight_ttl_s` ago or earlier. -/
def Late (pre : Steps ι) (s : Step (redisI.sum callI) Exn ι Redis) : Prop :=
  (∃ fingerprint, s.event.cmd = .inl (.set (redisKey apiKeyId key) (.claimed fingerprint) true
    service.store.inflightTtlS)) ∧
    ∃ j t, (service.phases apiKeyId key pre j).stage.owns = true ∧ ClaimedAt pre j t ∧
      t + service.store.inflightTtlS ≤ s.before.now

/-- The step is the `complete` of a stream, and raises. -/
def Torn (pre : Steps ι) (s : Step (redisI.sum callI) Exn ι Redis) : Prop :=
  service.phases apiKeyId key pre s.thread = .delivering ∧
    ∃ c e, s.event = (⟨.inl c, .error e⟩ : Event (redisI.sum callI) Exn)

/-- Nobody claims the key past an unsettled claim; and a stream's `complete` raises only
where a final record outlives a claim. -/
structure Timely (pre : Steps ι) (s : Step (redisI.sum callI) Exn ι Redis) : Prop where
  prompt : ¬ service.Late apiKeyId key pre s
  firm : service.Torn apiKeyId key pre s → service.store.inflightTtlS ≤ service.store.completedTtlS

/-- The write of a response. -/
abbrev completing (fingerprint : String) (body : ResponseBody) : (redisI.sum callI).Cmd :=
  .inl (.set (redisKey apiKeyId key) (.completed fingerprint body) false service.store.completedTtlS)

/-- The entry of the key lasts at least as long as the claim of whoever owns it. -/
def Kept (st : RedisIdempotencyStore) (name : String) (h : Steps ι) (w : Redis) (g : ι → Phase) :
    Prop :=
  ∀ i, (g i).stage.owns = true → ∃ t e, ClaimedAt h i t ∧ t ≤ w.now ∧ w.entries name = some e ∧
    t + st.inflightTtlS ≤ e.deadline

end Lease

section Moves
variable {ι : Type} [DecidableEq ι] {st : RedisIdempotencyStore} {name : String} {w w' : Redis}
  {h : Steps ι} {g : ι → Phase} {i : ι} {q' : Phase} {e : Event (redisI.sum callI) Exn}

omit [DecidableEq ι] in
theorem ClaimedAt.snoc {j : ι} {t : ℚ} {s : Step (redisI.sum callI) Exn ι Redis}
    (hc : ClaimedAt h j t) : ClaimedAt (h ++ [s]) j t := by
  obtain ⟨x, hx, rest⟩ := hc
  exact ⟨x, List.mem_append_left _ hx, rest⟩

/-- A step keeps it: the owner's entry is replaced only by a later one. -/
theorem Kept.move (hs : Sole Stage.owns name w g) (hk : Kept st name h w g)
    (hm : Move st name w w' (g i) q' e)
    (hseen : ∀ fingerprint, e.cmd = .inl (.set name (.claimed fingerprint) true st.inflightTtlS) →
      ∀ j, (g j).stage.owns = true → w.find name ≠ none)
    (hfirm : g i = .delivering → (∃ c, e.cmd = .inl c) → (∀ a, e ≠ ⟨e.cmd, .ok a⟩) → w' ≠ w →
      st.inflightTtlS ≤ st.completedTtlS) :
    Kept st name (h ++ [⟨w, i, e⟩]) w' (Function.update g i q') := by
  intro j hj
  have untouched : w' = w → (g j).stage.owns = true → ∃ t x, ClaimedAt (h ++ [⟨w, i, e⟩]) j t ∧
      t ≤ w'.now ∧ w'.entries name = some x ∧ t + st.inflightTtlS ≤ x.deadline := by
    intro same hown
    obtain ⟨t, x, hc, rest⟩ := hk j hown
    rw [same]
    exact ⟨t, x, hc.snoc, rest⟩
  cases hm with
  | keep same leads _ _ =>
    refine untouched same ?_
    rcases holder_of_update hj with ⟨rfl, hq⟩ | ⟨_, hq⟩
    · exact Stage.owns_tracked.back leads hq
    · exact hq
  | claim fingerprint cmd free wrote _ takes =>
    rw [wrote]
    rcases holder_of_update hj with ⟨rfl, hq⟩ | ⟨_, hq⟩
    · rcases takes with ⟨hacq, _⟩ | ⟨_, hq'⟩
      · refine ⟨w.now, _, ⟨_, List.mem_append_right _ List.mem_cons_self, rfl, hacq, rfl⟩, le_rfl,
          Expiring.write_entries_self, le_rfl⟩
      · rw [hq'] at hq
        cases hq
    · exact absurd free (hseen fingerprint cmd j hq)
  | store record _ cmd wrote committed after =>
    have hi : (g i).stage.owns = true := by
      rw [committed]
      rfl
    obtain ⟨rfl, hq⟩ := hs.alone hi hj
    rcases after with hq' | ⟨hdel, _, herr⟩
    · rw [hq'] at hq
      cases hq
    · -- a stream whose `complete` raised: if the new entry is there, it lasts
      by_cases hsame : w' = w
      · exact untouched hsame hi
      · obtain ⟨t, x, hc, ht, _, _⟩ := hk j hi
        have hle : (st.inflightTtlS : ℚ) ≤ st.completedTtlS := by
          exact_mod_cast hfirm hdel ⟨_, cmd⟩ herr hsame
        rw [wrote]
        exact ⟨t, _, hc.snoc, ht, Expiring.write_entries_self, add_le_add ht hle⟩
  | free _ _ releasing after =>
    have hi : (g i).stage.owns = true := by
      rw [releasing]
      rfl
    have hq := (hs.alone hi hj).2
    rw [after] at hq
    cases hq

end Moves
section Runs
variable {ι : Type} [DecidableEq ι] {self : IdempotencyService} {apiKeyId : UUID} {key : String}
  {calls : ι → KeyedCall} {w : Redis} {h : Steps ι} {p : Pool (redisI.sum callI) Exn ι Redis}

/-- One owner at a time, under an entry that lasts. -/
structure Leased (service : IdempotencyService) (apiKeyId : UUID) (key : String) (h : Steps ι)
    (w : Redis) (g : ι → Phase) : Prop where
  sole : Sole Stage.owns (redisKey apiKeyId key) w g
  kept : Kept service.store (redisKey apiKeyId key) h w g

omit [DecidableEq ι] in
/-- While the claim of an owner lasts, `SET NX` finds its entry. -/
theorem Leased.seen {g : ι → Phase} {j : ι} (hl : Leased self apiKeyId key h w g)
    (hj : (g j).stage.owns = true)
    (hprompt : ∀ t, ClaimedAt h j t → w.now < t + self.store.inflightTtlS) :
    w.find (redisKey apiKeyId key) ≠ none := by
  obtain ⟨t, x, hc, _, hx, hd⟩ := hl.kept j hj
  rw [Expiring.find_eq_some.mpr ⟨hx, lt_of_lt_of_le (hprompt t hc) hd⟩]
  exact Option.some_ne_none x

theorem Leased.command {w' : Redis} {i : ι} {c : (redisI.sum callI).Cmd}
    {a : Except Exn ((redisI.sum callI).Ans c)}
    (hl : Leased self apiKeyId key h w (self.phases apiKeyId key h))
    (hc : self.store.allows (redisKey apiKeyId key) (self.phases apiKeyId key h i) c)
    (ha : (served callI).answers w c a w') (hprompt : ¬ self.Late apiKeyId key h ⟨w, i, ⟨c, a⟩⟩)
    (hfirm : self.Torn apiKeyId key h ⟨w, i, ⟨c, a⟩⟩ → w' ≠ w →
      self.store.inflightTtlS ≤ self.store.completedTtlS) :
    Leased self apiKeyId key (h ++ [⟨w, i, ⟨c, a⟩⟩]) w'
      (Function.update (self.phases apiKeyId key h) i ((self.phases apiKeyId key h i).next c a)) := by
  have hm := move_of_answers hc ha
  have hseen : ∀ fingerprint, c = .inl (.set (redisKey apiKeyId key) (.claimed fingerprint) true
      self.store.inflightTtlS) → ∀ j, (self.phases apiKeyId key h j).stage.owns = true →
      w.find (redisKey apiKeyId key) ≠ none := by
    intro fingerprint hcmd j hj
    refine hl.seen hj fun t ht => ?_
    by_contra hlate
    exact hprompt ⟨⟨fingerprint, hcmd⟩, j, t, hj, ht, not_lt.mp hlate⟩
  refine ⟨hl.sole.move Stage.owns_tracked hm hseen, hl.kept.move hl.sole hm hseen ?_⟩
  rintro hdel ⟨c', rfl⟩ herr hne
  cases a with
  | ok b => exact absurd rfl (herr b)
  | error e => exact hfirm ⟨hdel, c', e, rfl⟩ hne

omit [DecidableEq ι] in
theorem Leased.wait {g : ι → Phase} {w' : Redis} (hl : Leased self apiKeyId key h w g)
    (he : Expiring.Waits w w') : Leased self apiKeyId key h w' g := by
  refine ⟨⟨hl.sole.one, fun i hi => ?_⟩, fun i hi => ?_⟩
  · rw [he.entries]
    exact hl.sole.entry i hi
  · obtain ⟨t, x, hc, ht, hx, hd⟩ := hl.kept i hi
    rw [he.entries]
    exact ⟨t, x, hc, ht.trans he.later, hx, hd⟩

/-- It lasts through every run without late claims. -/
theorem Leased.continued {h' : Steps ι} {p' : Pool (redisI.sum callI) Exn ι Redis}
    (hr : Run (served callI) (self.callers apiKeyId key calls w) h p)
    (hl : Leased self apiKeyId key h p.world (self.phases apiKeyId key h))
    (hr' : Run (served callI) p h' p')
    (hok : ∀ pre s post, h' = pre ++ s :: post → self.Timely apiKeyId key (h ++ pre) s) :
    Leased self apiKeyId key (h ++ h') p'.world (self.phases apiKeyId key (h ++ h')) := by
  refine hr.continued (self.Timely apiKeyId key) (self.served_meets _)
    (fun i => self.call_obeys apiKeyId key (calls i)) hl
    (fun h w i c a w' hl hc ha htimely => ?_) (fun h w w' hl he => hl.wait he) hr' hok
  exact hl.command hc ha htimely.prompt fun htorn _ => htimely.firm htorn

theorem leased (hr : Run (served callI) (self.callers apiKeyId key calls w) h p)
    (hok : ∀ pre s post, h = pre ++ s :: post → self.Timely apiKeyId key pre s) :
    Leased self apiKeyId key h p.world (self.phases apiKeyId key h) := by
  have nobody : Leased self apiKeyId key [] w (fun _ : ι => Phase.claiming) :=
    ⟨⟨fun _ _ h => (by cases h), fun _ h => (by cases h)⟩, fun _ h => (by cases h)⟩
  exact nobody.continued .start hr hok

/-- **One operation at a time**: in a run in which nobody claims the key past an unsettled
claim, at most one call that acquired it is running its operation. -/
theorem one_operation (hr : Run (served callI) (self.callers apiKeyId key calls w) h p)
    (hok : ∀ pre s post, h = pre ++ s :: post → self.Timely apiKeyId key pre s) (i j : ι)
    (hi : Running h p i) (hj : Running h p j) : i = j :=
  (leased hr hok).sole.one i j (owns_of_running hr hi) (owns_of_running hr hj)

/-- A run shorter than a claim has no late claims. -/
theorem timely_of_short (hshort : ∀ x ∈ h, ∀ s ∈ h, s.before.now < x.before.now + self.store.inflightTtlS)
    (hle : self.store.inflightTtlS ≤ self.store.completedTtlS) :
    ∀ pre s post, h = pre ++ s :: post → self.Timely apiKeyId key pre s := by
  intro pre s post he
  have hpre : ∀ x ∈ pre, x ∈ h := fun x hx => by rw [he]; exact List.mem_append_left _ hx
  have hs : s ∈ h := by rw [he]; exact List.mem_append_right _ List.mem_cons_self
  refine ⟨fun ⟨_, j, t, _, ⟨x, hx, _, _, ht⟩, hlate⟩ => ?_, fun _ => hle⟩
  rw [← ht] at hlate
  exact absurd (hshort x (hpre x hx) s hs) (not_lt.mpr hlate)

/-- Nor has one in which no time passes. -/
theorem timely_of_instant {t : ℚ} (hinstant : ∀ s ∈ h, s.before.now = t) (hpos : 0 < self.store.inflightTtlS)
    (hle : self.store.inflightTtlS ≤ self.store.completedTtlS) :
    ∀ pre s post, h = pre ++ s :: post → self.Timely apiKeyId key pre s := by
  refine timely_of_short (fun x hx s hs => ?_) hle
  rw [hinstant s hs, hinstant x hx]
  exact lt_add_of_pos_right t (by exact_mod_cast hpos)

/-- The first call holds the key, and a second one that comes at once is refused. -/
theorem one_operation_refused :
    ∃ (h : Steps Bool) (p : Pool (redisI.sum callI) Exn Bool Redis),
      Run (served callI) (trialService.callers ⟨7⟩ "k1" (fun _ => ⟨trialRequest, false⟩)
        ⟨0, fun _ => none⟩) h p ∧ Running h p false ∧ ∀ j, Running h p j → false = j := by
  let name := redisKey ⟨7⟩ "k1"
  let print := trialService.fingerprint trialRequest
  let w₁ : Redis := Expiring.write ⟨0, fun _ => none⟩ name (.claimed print) (120 : Int)
  have found : w₁.find name = some ⟨.claimed print, 0 + (120 : Int)⟩ :=
    Expiring.find_eq_some.mpr ⟨Expiring.write_entries_self,
      Expiring.write_fresh (by norm_num) Expiring.write_entries_self⟩
  have r₀ : Run (served callI) (trialService.callers ⟨7⟩ "k1" (fun _ : Bool => ⟨trialRequest, false⟩)
      ⟨0, fun _ => none⟩) [] _ := .start
  have r₁ := r₀.answer false rfl (.ok true) w₁ (exec_taken (by decide) rfl)
  have r₂ := r₁.answer true rfl (.ok false) w₁ (exec_refused (by decide) found)
  refine (fun hrun : Running _ _ false => ⟨_, _, r₂, hrun, fun j hj =>
    one_operation r₂ (timely_of_instant (t := 0) ?_ (by decide) (by decide)) false j hrun hj⟩) ?_
  · refine ⟨⟨_, List.mem_cons_self, rfl⟩, fun o ho => ?_, List.forall_mem_singleton.mpr nofun⟩
    cases o <;> cases ho
  · exact List.forall_mem_cons.mpr ⟨rfl, List.forall_mem_singleton.mpr rfl⟩

/-! ### A stream that outlives its claim -/

/-- Each step of an operation comes within `timeout` of its call's step before it. -/
def Paced (timeout : ℚ) : (ι → ℚ) → Steps ι → Prop
  | _, [] => True
  | last, s :: rest =>
    (∀ c, s.event.cmd = .inr (.inl c) → s.before.now ≤ last s.thread + timeout) ∧
      Paced timeout (Function.update last s.thread s.before.now) rest

/-- A stream whose events come every 40 seconds still runs when its claim expires: the
call that comes then acquires the key and starts its own operation. -/
theorem claim_outlived :
    ∃ (h : Steps Bool) (p : Pool (redisI.sum callI) Exn Bool Redis),
      Run (served callI) (trialService.callers ⟨7⟩ "k1" (fun i => ⟨trialRequest, !i⟩)
        ⟨0, fun _ => none⟩) h p ∧ Paced 40 (fun _ => 0) h ∧
      Running h p false ∧ Running h p true := by
  let name := redisKey ⟨7⟩ "k1"
  let print := trialService.fingerprint trialRequest
  let w₁ : Redis := Expiring.write ⟨0, fun _ => none⟩ name (.claimed print) (120 : Int)
  let events : Upcoming := .delta "a" (.delta "b" (.response trialResponse))
  have r₀ : Run (served callI) (trialService.callers ⟨7⟩ "k1" (fun i : Bool => ⟨trialRequest, !i⟩)
      ⟨0, fun _ => none⟩) [] _ := .start
  have r₁ := r₀.answer false rfl (.ok true) w₁ (exec_taken (by decide) rfl)
  have r₂ := r₁.wait ⟨40, w₁.entries⟩ ⟨by show (0 : ℚ) ≤ 40; norm_num, rfl⟩
  have r₃ := r₂.answer false rfl (.ok events) ⟨40, w₁.entries⟩ rfl
  have r₄ := r₃.answer false rfl (.ok ()) ⟨40, w₁.entries⟩ rfl
  have r₅ := r₄.answer false rfl (.ok ()) ⟨40, w₁.entries⟩ rfl
  have r₆ := r₅.answer false rfl (.ok ()) ⟨40, w₁.entries⟩ rfl
  have r₇ := r₆.wait ⟨80, w₁.entries⟩ ⟨by show (40 : ℚ) ≤ 80; norm_num, rfl⟩
  have r₈ := r₇.answer false rfl (.ok ()) ⟨80, w₁.entries⟩ rfl
  have r₉ := r₈.wait ⟨120, w₁.entries⟩ ⟨by show (80 : ℚ) ≤ 120; norm_num, rfl⟩
  have expired : Expiring.find (⟨120, w₁.entries⟩ : Redis) name = none :=
    (show Expiring.Waits w₁ ⟨120, w₁.entries⟩ from ⟨by show (0 : ℚ) ≤ 120; norm_num, rfl⟩).expired
      (by show (0 : ℚ) + (120 : Int) ≤ 120; norm_num)
  have r₁₀ := r₉.answer true rfl (.ok true) _ (exec_taken (by decide) expired)
  refine ⟨_, _, r₁₀, ?_, ?_, ?_⟩
  · have first : (40 : ℚ) ≤ 0 + 40 := by norm_num
    have at_once : (40 : ℚ) ≤ 40 + 40 := by norm_num
    have second : (80 : ℚ) ≤ 40 + 40 := by norm_num
    exact ⟨nofun, fun _ _ => first, fun _ _ => at_once, fun _ _ => at_once, nofun,
      fun _ _ => second, nofun, trivial⟩
  · refine ⟨⟨_, List.mem_cons_self, rfl⟩, fun o ho => ?_, ?_⟩
    · cases o <;> cases ho
    · exact List.forall_mem_cons.mpr ⟨nofun, List.forall_mem_cons.mpr ⟨nofun,
        List.forall_mem_cons.mpr ⟨nofun, List.forall_mem_cons.mpr ⟨nofun,
          List.forall_mem_cons.mpr ⟨nofun, List.forall_mem_singleton.mpr nofun⟩⟩⟩⟩⟩
  · refine ⟨⟨_, List.mem_cons_self, rfl⟩, fun o ho => ?_, List.forall_mem_singleton.mpr nofun⟩
    cases o <;> cases ho

/-! ### A completed record -/

/-- No step but time passing changes the clock. -/
theorem now_of_answers {J : Interface} {w w' : Redis} {c : (redisI.sum J).Cmd}
    {a : Except Exn ((redisI.sum J).Ans c)} (h : (served J).answers w c a w') : w'.now = w.now := by
  obtain c | c := c
  · cases c with
    | set name value nx ex =>
      rcases served_set h with ⟨hw, _⟩ | ⟨hw, _⟩ <;> rw [hw]
      rfl
    | get name => rw [served_get h]
    | delete name =>
      rcases served_delete h with hw | hw <;> rw [hw]
      rfl
  · rw [show w' = w from h]

/-- Until `x` expires: it is there, nobody owns the key, and no step from the `n`th on has
acquired it. -/
structure Shut (name : String) (x : Expires Record) (n : Nat) (h : Steps ι) (w : Redis) (g : ι → Phase) :
    Prop where
  since : n ≤ h.length
  holds : w.now < x.deadline → w.entries name = some x ∧ (∀ j, (g j).stage.owns = false) ∧
    ∀ s ∈ h.drop n, acquires s.event = false

theorem Shut.command {st : RedisIdempotencyStore} {name : String} {x : Expires Record} {n : Nat}
    {g : ι → Phase} {w' : Redis} {i : ι} {c : (redisI.sum callI).Cmd}
    {a : Except Exn ((redisI.sum callI).Ans c)} (hs : Shut name x n h w g)
    (hc : st.allows name (g i) c) (ha : (served callI).answers w c a w') :
    Shut name x n (h ++ [⟨w, i, ⟨c, a⟩⟩]) w' (Function.update g i ((g i).next c a)) := by
  refine ⟨by rw [List.length_append]; exact Nat.le_add_right_of_le hs.since, fun hnow => ?_⟩
  rw [now_of_answers ha] at hnow
  obtain ⟨hx, hnone, hsince⟩ := hs.holds hnow
  cases move_of_answers hc ha with
  | keep same leads quiet _ =>
    rw [same, List.drop_append_of_le_length hs.since]
    refine ⟨hx, fun j => ?_, fun s hmem => ?_⟩
    · rw [Bool.eq_false_iff]
      intro hq
      have hback : (g j).stage.owns = true := by
        rcases holder_of_update hq with ⟨rfl, hq⟩ | ⟨_, hq⟩
        · exact Stage.owns_tracked.back leads hq
        · exact hq
      rw [hnone j] at hback
      cases hback
    · rcases List.mem_append.mp hmem with hmem | hmem
      · exact hsince s hmem
      · rw [List.mem_singleton.mp hmem]
        exact quiet
  | claim _ _ free _ _ _ =>
    rw [Expiring.find_eq_some.mpr ⟨hx, hnow⟩] at free
    cases free
  | store _ _ _ _ committed _ =>
    have hi := hnone i
    rw [committed] at hi
    cases hi
  | free _ _ releasing _ =>
    have hi := hnone i
    rw [releasing] at hi
    cases hi

omit [DecidableEq ι] in
theorem Shut.wait {name : String} {x : Expires Record} {n : Nat} {g : ι → Phase} {w' : Redis}
    (hs : Shut name x n h w g) (he : Expiring.Waits w w') : Shut name x n h w' g := by
  refine ⟨hs.since, fun hnow => ?_⟩
  rw [he.entries]
  exact hs.holds (lt_of_le_of_lt he.later hnow)

/-- It stays so, whatever the calls do. -/
theorem Shut.continued {x : Expires Record} {n : Nat} {h' : Steps ι}
    {p' : Pool (redisI.sum callI) Exn ι Redis}
    (hr : Run (served callI) (self.callers apiKeyId key calls w) h p)
    (hs : Shut (redisKey apiKeyId key) x n h p.world (self.phases apiKeyId key h))
    (hr' : Run (served callI) p h' p') :
    Shut (redisKey apiKeyId key) x n (h ++ h') p'.world (self.phases apiKeyId key (h ++ h')) := by
  exact hr.continued (fun _ _ => True) (self.served_meets _)
    (fun i => self.call_obeys apiKeyId key (calls i)) hs
    (fun h w i c a w' hs hc ha _ => hs.command hc ha) (fun h w w' hs he => hs.wait he) hr'
    (fun _ _ _ _ => trivial)

omit [DecidableEq ι] in
/-- Next to an owner there is no other. -/
theorem Leased.others {g : ι → Phase} {i : ι} (hl : Leased self apiKeyId key h w g) (hi : (g i).stage.owns = true) :
    ∀ j, j ≠ i → (g j).stage.owns = false := by
  intro j hj
  rw [Bool.eq_false_iff]
  intro hown
  exact hj (hl.sole.one j i hown hi)

section Write
variable {i : ι} {w' : Redis} {c : (redisI.sum callI).Cmd} {a : Except Exn ((redisI.sum callI).Ans c)}

/-- The step that ends the only ownership leaves nobody. -/
theorem nobody_left (hone : ∀ j, j ≠ i → (self.phases apiKeyId key h j).stage.owns = false)
    (hdone : ((self.phases apiKeyId key h i).next c a).stage.owns = false) (j : ι) :
    (self.phases apiKeyId key (h ++ [⟨w, i, ⟨c, a⟩⟩]) j).stage.owns = false := by
  rw [phases_snoc]
  by_cases hj : j = i
  · subst hj
    rw [Function.update_self]
    exact hdone
  · rw [Function.update_of_ne hj]
    exact hone j hj

/-- A final write by the only owner shuts the key. -/
theorem shut_of_write {record : Record} (hone : ∀ j, j ≠ i → (self.phases apiKeyId key h j).stage.owns = false)
    (hdone : ((self.phases apiKeyId key h i).next c a).stage.owns = false)
    (hw : w' = w.write (redisKey apiKeyId key) record self.store.completedTtlS) :
    Shut (redisKey apiKeyId key) ⟨record, w.now + self.store.completedTtlS⟩ (h.length + 1)
      (h ++ [⟨w, i, ⟨c, a⟩⟩]) w' (self.phases apiKeyId key (h ++ [⟨w, i, ⟨c, a⟩⟩])) := by
  refine ⟨by simp, fun _ => ⟨?_, nobody_left hone hdone, by simp⟩⟩
  rw [hw]
  exact Expiring.write_entries_self

end Write

/-- Where a call stores its response. -/
theorem storing {st : RedisIdempotencyStore} {name fingerprint : String} {body : ResponseBody} {q : Phase}
    (h : st.allows name q (.inl (.set name (.completed fingerprint body) false st.completedTtlS))) :
    q = .answered ∨ q = .delivering := by
  cases q with
  | answered => exact .inl rfl
  | delivering => exact .inr rfl
  | claiming =>
    obtain ⟨_, he⟩ := h
    exact absurd (RedisCmd.set.inj he).2.2.1 Bool.false_ne_true
  | parking =>
    obtain ⟨_, _, he⟩ := h
    have hstatus : IdempotencyStatus.completed.value = IdempotencyStatus.ambiguous.value :=
      congrArg Record.status (RedisCmd.set.inj he).2.1
    exact absurd hstatus (by decide)
  | reading => cases h
  | releasing => cases h
  | _ => exact h.elim

/-- **A completed key never runs the request again.** From the moment a call writes its response
(and, for a stream, is told so) while no other call still has to settle a claim, until the record
expires: it is there as it was written, nobody acquires the key, and nobody is running its operation. -/
theorem completed_kept (hr : Run (served callI) (self.callers apiKeyId key calls w) h p)
    {i : ι} {fingerprint : String} {body : ResponseBody} {k : Except Exn Bool → Prog (redisI.sum callI) Exn Unit}
    (hi : p.threads i = .await (self.completing apiKeyId key fingerprint body) k)
    (hone : ∀ j, j ≠ i → (self.phases apiKeyId key h j).stage.owns = false) {a : Except Exn Bool} {w' : Redis}
    (ha : (served callI).answers p.world (self.completing apiKeyId key fingerprint body) a w')
    (hw : w' = p.world.write (redisKey apiKeyId key) (.completed fingerprint body) self.store.completedTtlS)
    (hfirm : self.phases apiKeyId key h i = .delivering → ∃ b, a = .ok b)
    {h' : Steps ι} {p' : Pool (redisI.sum callI) Exn ι Redis}
    (hr' : Run (served callI) ⟨w', Function.update p.threads i (k a)⟩ h' p')
    (hnow : p'.world.now < p.world.now + self.store.completedTtlS) :
    p'.world.entries (redisKey apiKeyId key) =
        some ⟨.completed fingerprint body, p.world.now + self.store.completedTtlS⟩ ∧
      (∀ s ∈ h', acquires s.event = false) ∧
      ∀ j, ¬ Running (h ++ [⟨p.world, i, ⟨self.completing apiKeyId key fingerprint body, a⟩⟩] ++ h') p' j := by
  have hdone : ((self.phases apiKeyId key h i).next (self.completing apiKeyId key fingerprint body)
      a).stage.owns = false := by
    rcases storing (allows_of_await hr hi) with hq | hq
    · rw [hq]
      cases a <;> rfl
    · obtain ⟨b, rfl⟩ := hfirm hq
      rw [hq]
      rfl
  have hrun := hr.command hi ha
  have hshut := (shut_of_write hone hdone hw).continued hrun hr'
  obtain ⟨hx, hnone, hsince⟩ := hshut.holds hnow
  refine ⟨hx, fun s hs => hsince s ?_, fun j hj => ?_⟩
  · rw [List.drop_append_of_le_length (by simp)]
    exact List.mem_append_right _ hs
  · have hown := owns_of_running (hrun.trans hr') hj
    rw [hnone j] at hown
    cases hown

/-- A response stored, and a day later less a second: still there. -/
theorem completed_kept_day :
    ∃ p' : Pool (redisI.sum callI) Exn Bool Redis, p'.world.now = 86399 ∧
      p'.world.entries (redisKey ⟨7⟩ "k1") = some ⟨.completed (trialService.fingerprint trialRequest)
        (serialize trialResponse), 0 + (86400 : Int)⟩ := by
  let name := redisKey ⟨7⟩ "k1"
  let print := trialService.fingerprint trialRequest
  let w₁ : Redis := Expiring.write ⟨0, fun _ => none⟩ name (.claimed print) (120 : Int)
  let w₂ : Redis := w₁.write name (.completed print (serialize trialResponse)) (86400 : Int)
  have r₀ : Run (served callI) (trialService.callers ⟨7⟩ "k1" (fun _ : Bool => ⟨trialRequest, false⟩)
      ⟨0, fun _ => none⟩) [] _ := .start
  have r₁ := r₀.answer false rfl (.ok true) w₁ (exec_taken (by decide) rfl)
  have r₂ := r₁.answer false rfl (.ok trialResponse) w₁ rfl
  have later : Expiring.Waits w₂ ⟨86399, w₂.entries⟩ := ⟨by show (0 : ℚ) ≤ 86399; norm_num, rfl⟩
  have hone : ∀ j, j ≠ false → (trialService.phases ⟨7⟩ "k1" [⟨⟨0, fun _ => none⟩, false,
      ⟨.inl (.set name (.claimed print) true 120), .ok true⟩⟩, ⟨w₁, false, ⟨.inr (.inl .run), .ok trialResponse⟩⟩]
      j).stage.owns = false := by
    intro j hj
    cases j with
    | false => exact absurd rfl hj
    | true => rfl
  exact ⟨_, rfl, (completed_kept (i := false) (a := .ok true) r₂
    (rfl : _ = Prog.await (trialService.completing ⟨7⟩ "k1" print (serialize trialResponse)) _) hone
    (exec_write (by decide)) rfl (fun _ => ⟨true, rfl⟩) (Run.start.wait _ later)
    (by show (86399 : ℚ) < 0 + (86400 : Int); norm_num)).1⟩

/-- An owner whose claim has expired fails, and its release deletes the response that the
next owner stored: the key is free at once. -/
theorem completed_deleted :
    ∃ (h h' : Steps Bool) (p : Pool (redisI.sum callI) Exn Bool Redis) (s : Step (redisI.sum callI) Exn Bool Redis),
      Run (served callI) (trialService.callers ⟨7⟩ "k1" (fun _ => ⟨trialRequest, false⟩)
        ⟨0, fun _ => none⟩) (h ++ s :: h') p ∧
      s.event = ⟨trialService.completing ⟨7⟩ "k1" (trialService.fingerprint trialRequest)
        (serialize trialResponse), .ok true⟩ ∧
      p.world.now < s.before.now + trialService.store.completedTtlS ∧
      p.world.entries (redisKey ⟨7⟩ "k1") = none := by
  let name := redisKey ⟨7⟩ "k1"
  let print := trialService.fingerprint trialRequest
  let w₁ : Redis := Expiring.write ⟨0, fun _ => none⟩ name (.claimed print) (120 : Int)
  let w₂ : Redis := ⟨120, w₁.entries⟩
  let w₃ : Redis := w₂.write name (.claimed print) (120 : Int)
  let w₄ : Redis := w₃.write name (.completed print (serialize trialResponse)) (86400 : Int)
  have expired : w₂.find name = none :=
    (show Expiring.Waits w₁ w₂ from ⟨by show (0 : ℚ) ≤ 120; norm_num, rfl⟩).expired
      (by show (0 : ℚ) + (120 : Int) ≤ 120; norm_num)
  have r₀ : Run (served callI) (trialService.callers ⟨7⟩ "k1" (fun _ : Bool => ⟨trialRequest, false⟩)
      ⟨0, fun _ => none⟩) [] _ := .start
  have r₁ := r₀.answer false rfl (.ok true) w₁ (exec_taken (by decide) rfl)
  have r₂ := r₁.wait w₂ ⟨by show (0 : ℚ) ≤ 120; norm_num, rfl⟩
  have r₃ := r₂.answer true rfl (.ok true) w₃ (exec_taken (by decide) expired)
  have r₄ := r₃.answer true rfl (.ok trialResponse) w₃ rfl
  have r₅ := r₄.answer true rfl (.ok true) w₄ (exec_write (by decide))
  have r₆ := r₅.answer false rfl (.error (.upstreamUnavailable "refused")) w₄ rfl
  have r₇ := r₆.answer false rfl _ (w₄.erase name) exec_delete
  -- one list of steps, so that nothing is unfolded to compare two of them
  simp only [List.nil_append, List.cons_append] at r₇
  refine ⟨[_, _, _], [_, _], _, _, r₇, rfl, ?_, Expiring.erase_entries_self⟩
  show (120 : ℚ) < 120 + (86400 : Int)
  norm_num

end Runs
end IdempotencyService
end Relayix
