import Relayix.Infra.Idempotency.RecordText
import Relayix.Services.IdempotencyLease

/-! A stored response, replayed.

Once a call has stored its response, and nobody else still has to settle a claim, the record stays
as it was written until it expires. Every later call on the key is then refused its claim, reads
the record back and gives the response out again: `replay` is the whole of such a call, and what
it does is the beginning of that, as far as its consumer takes it. -/
namespace Relayix
open Library
namespace IdempotencyService

/-! ### The whole of a replay -/

section Replay
variable (self : IdempotencyService) (apiKeyId : UUID) (key : String)

/-- A call that finds the response `r`, and whose consumer takes it all. -/
def replay (c : KeyedCall) (r : ChatResponse) : Trace (redisI.sum callI) Exn :=
  [⟨.inl (.set (redisKey apiKeyId key) (.claimed (self.fingerprint c.request)) true self.store.inflightTtlS), .ok false⟩,
    ⟨.inl (.get (redisKey apiKeyId key)), .ok (some (.completed (self.fingerprint c.request) (serialize r)))⟩] ++
  (if c.streamed then [⟨.inr (.inl .iterate), .ok ()⟩] else []) ++
  (pieces c.streamed r).map fun event => ⟨.inr (.inr event), .ok ()⟩

variable {self apiKeyId key} {fingerprint : String} {request : ChatRequest} {r : ChatResponse}

theorem reserve_found {record : Record} :
    Ends (self.store.reserve apiKeyId key fingerprint)
      [self.store.attempt apiKeyId key fingerprint false, RedisIdempotencyStore.look apiKeyId key (some record)]
      (.ok (.found record)) := by
  have tried : Ends (self.store.tryReserve apiKeyId key fingerprint reserveAttempts)
      [self.store.attempt apiKeyId key fingerprint false, RedisIdempotencyStore.look apiKeyId key (some record)]
      (.ok (some (.found record))) :=
    ends_perform_bind.mpr (.inl ⟨false, _, rfl, ends_perform_bind.mpr (.inl ⟨some record, [], rfl, ends_ret.mpr ⟨rfl, rfl⟩⟩)⟩)
  exact ends_bind.mpr (.inl ⟨some (.found record), _, [], (List.append_nil _).symm,
    ends_tryExcept.mpr (.inl ⟨_, rfl, tried⟩), ends_ret.mpr ⟨rfl, rfl⟩⟩)

theorem refuse_completed : refuse fingerprint (.found (.completed fingerprint (serialize r))) = .ok (some (serialize r)) := by
  simp [refuse, ReservationOutcome.found, Record.completed]

/-- What a call asks of the store, and is answered. -/
def found (self : IdempotencyService) (apiKeyId : UUID) (key : String) (request : ChatRequest) (r : ChatResponse) :
    Trace redisI Exn :=
  [self.store.attempt apiKeyId key (self.fingerprint request) false,
    RedisIdempotencyStore.look apiKeyId key (some (.completed (self.fingerprint request) (serialize r)))]

theorem execute_replays {operation : Prog operationI Exn ChatResponse} :
    Ends (self.execute apiKeyId key request operation) ((self.found apiKeyId key request r).map Event.inl) (.ok r) := by
  refine ends_bind.mpr (.inl ⟨_, _, [], (List.append_nil _).symm, ends_inl.mpr ⟨_, rfl, reserve_found⟩, ?_⟩)
  show Ends (Prog.bind (.ofExcept (refuse _ _)) fun body => .ofExcept (deserialize body)) [] (.ok r)
  rw [refuse_completed]
  show Ends (.ofExcept (deserialize (some (serialize r)))) [] (.ok r)
  rw [deserialize_serialize]
  exact ends_ret.mpr ⟨rfl, rfl⟩

theorem executeStream_replays {operation : Prog operationI Exn (Gen operationI Exn ChatStreamEvent Unit)} :
    Ends (self.executeStream apiKeyId key request operation) ((self.found apiKeyId key request r).map Event.inl)
      (.ok (replayStream (some (serialize r)))) := by
  refine ends_bind.mpr (.inl ⟨_, _, [], (List.append_nil _).symm, ends_inl.mpr ⟨_, rfl, reserve_found⟩, ?_⟩)
  show Ends (Prog.bind (.ofExcept (refuse _ _)) fun body => .ret (replayStream body)) [] _
  rw [refuse_completed]
  exact ends_ret.mpr ⟨rfl, rfl⟩

/-- The pieces of a response, all of them taken. -/
def taken {I : Interface} (events : List ChatStreamEvent) : Trace (I.sum (handoff ChatStreamEvent)) Exn :=
  events.map fun event => ⟨.inr event, .ok ()⟩

theorem replayStream_replays {J : Interface} :
    Ends (replayStream (some (serialize r)) : Gen (redisI.sum J) Exn ChatStreamEvent Unit) (taken (pieces true r)) (.ok ()) := by
  unfold replayStream
  rw [deserialize_serialize]
  show Ends (Prog.bind (if r.content = "" then .ret () else Gen.yield (.delta r.content)) fun _ => Gen.yield (.response r))
    (taken (pieces true r)) (.ok ())
  by_cases hcontent : r.content = ""
  · have hpieces : pieces true r = [.response r] := if_neg fun h => h.2 hcontent
    rw [hpieces, if_pos hcontent]
    exact ends_perform.mpr rfl
  · have hpieces : pieces true r = [.delta r.content, .response r] := if_pos ⟨rfl, hcontent⟩
    rw [hpieces, if_neg hcontent]
    exact ends_perform_bind.mpr (.inl ⟨(), _, rfl, ends_perform.mpr rfl⟩)

theorem regroup_taken {I J : Interface} (events : List ChatStreamEvent) :
    regroup (taken events : Trace ((I.sum J).sum (handoff ChatStreamEvent)) Exn) =
      events.map fun event => ⟨.inr (.inr event), .ok ()⟩ := by
  induction events with
  | nil => rfl
  | cons event events ih => exact congrArg (List.cons _) ih

theorem call_replays (c : KeyedCall) : Ends (self.call apiKeyId key c) (self.replay apiKeyId key c r) (.ok ()) := by
  obtain ⟨request, streamed⟩ := c
  unfold call
  cases streamed with
  | false =>
    refine ends_assoc.mpr ⟨((self.found apiKeyId key request r).map Event.inl).map Event.inl ++ taken [.response r], rfl, ?_⟩
    exact ends_bind.mpr (.inl ⟨r, _, _, rfl, ends_inl.mpr ⟨_, rfl, execute_replays⟩, ends_perform.mpr rfl⟩)
  | true =>
    have begun : Ends ((@Prog.perform (redisI.sum operationI) Exn (.inr .iterate)).inl.bind fun _ =>
        replayStream (some (serialize r))) (⟨.inl (.inr .iterate), .ok ()⟩ :: taken (pieces true r)) (.ok ()) :=
      ends_bind.mpr (.inl ⟨(), [_], _, rfl, ends_perform_inl.mpr rfl, replayStream_replays⟩)
    refine ends_assoc.mpr ⟨_, ?_,
      ends_bind.mpr (.inl ⟨_, _, _, rfl, ends_inl.mpr ⟨_, rfl, executeStream_replays⟩, begun⟩)⟩
    have hrest : regroup (taken (pieces true r)) = _ := @regroup_taken redisI operationI (pieces true r)
    show _ :: _ :: _ :: _ = _ :: _ :: _ :: regroup (taken (pieces true r))
    rw [hrest]
    rfl

end Replay

/-! ### What the consumer makes of it -/

def text? : ChatStreamEvent → Option String
  | .delta content => some content
  | .response _ => none

def response? : ChatStreamEvent → Option ChatResponse
  | .delta _ => none
  | .response r => some r

/-- The response `r` as the consumer gets it: a stream's deltas make up its text, and it comes last
and alone. -/
structure Gives (streamed : Bool) (r : ChatResponse) (events : List ChatStreamEvent) : Prop where
  responses : events.filterMap response? = [r]
  last : events.getLast? = some (.response r)
  content : streamed = true → String.join (events.filterMap text?) = r.content
  whole : streamed = false → events = [.response r]

theorem pieces_give (streamed : Bool) (r : ChatResponse) : Gives streamed r (pieces streamed r) := by
  by_cases h : streamed = true ∧ r.content ≠ ""
  · have hpieces : pieces streamed r = [.delta r.content, .response r] := if_pos h
    rw [hpieces]
    refine ⟨rfl, rfl, fun _ => ?_, fun hs => ?_⟩
    · show String.join [r.content] = r.content
      simp [String.join]
    · rw [h.1] at hs
      cases hs
  · have hpieces : pieces streamed r = [.response r] := if_neg h
    rw [hpieces]
    refine ⟨rfl, rfl, fun hs => ?_, fun _ => rfl⟩
    have hcontent : r.content = "" := by
      by_contra hne
      exact h ⟨hs, hne⟩
    rw [hcontent]
    rfl

/-- What a call handed over. -/
def handed (t : Trace (redisI.sum callI) Exn) : List ChatStreamEvent := (rights (rights t)).map Event.cmd

theorem handed_taken (events : List ChatStreamEvent) :
    handed (events.map fun event => ⟨.inr (.inr event), .ok ()⟩) = events := by
  induction events with
  | nil => rfl
  | cons event events ih => exact congrArg (List.cons event) ih

theorem handed_replay (self : IdempotencyService) (apiKeyId : UUID) (key : String) (c : KeyedCall) (r : ChatResponse) :
    handed (self.replay apiKeyId key c r) = pieces c.streamed r := by
  obtain ⟨request, streamed⟩ := c
  have htaken := handed_taken (pieces streamed r)
  cases streamed with
  | true => exact htaken
  | false => exact htaken

/-! ### Calls that come later -/

/-- The call neither has an outcome of its operation nor awaits one. -/
def Untouched (t : Trace (redisI.sum callI) Exn) (q : Prog (redisI.sum callI) Exn Unit) : Prop :=
  (∀ e ∈ t, returns e = false) ∧
    ∀ c k, q = .await (.inr (.inl c)) k → c ≠ .run ∧ c ≠ .prime

section Runs
variable {ι : Type} [DecidableEq ι] {self : IdempotencyService} {apiKeyId : UUID} {key : String}
  {calls : ι → KeyedCall} {w w' : Redis} {h h' : Steps ι} {p p' : Pool (redisI.sum callI) Exn ι Redis}

theorem Move.acquired {st : RedisIdempotencyStore} {name : String} {q q' : Phase}
    {e : Event (redisI.sum callI) Exn} (hm : Move st name w w' q q' e) (h : q'.stage.owns = true) :
    q.stage.owns = true ∨ acquires e = true := by
  cases hm with
  | keep _ leads _ _ => exact .inl (Stage.owns_tracked.back leads h)
  | claim _ _ _ _ _ takes =>
    rcases takes with ⟨hacq, _⟩ | ⟨_, hq⟩
    · exact .inr hacq
    · rw [hq] at h
      cases h
  | store _ _ _ _ committed _ =>
    rw [committed]
    exact .inl rfl
  | free _ _ _ after =>
    rw [after] at h
    cases h

/-- Whoever owns the key acquired it. -/
theorem acquired_of_owns (hr : Run (served callI) (self.callers apiKeyId key calls w) h p) {i : ι}
    (hi : (self.phases apiKeyId key h i).stage.owns = true) : ∃ e ∈ log i h, acquires e = true := by
  refine Run.each (F := fun (t : Trace (redisI.sum callI) Exn) q => q.stage.owns = true → ∃ e ∈ t, acquires e = true)
    (self.served_meets _) (fun i => self.call_obeys apiKeyId key (calls i)) (fun _ h => by cases h)
    (fun t q w c a w' ht hc ha hq => ?_) hr i hi
  rcases (move_of_answers hc ha).acquired hq with hq | hacq
  · obtain ⟨e, he, hacq⟩ := ht hq
    exact ⟨e, List.mem_append_left _ he, hacq⟩
  · exact ⟨_, List.mem_append_right _ List.mem_cons_self, hacq⟩

/-- The operation is only awaited by the owner of the key. -/
theorem owns_of_operation {st : RedisIdempotencyStore} {name : String} {q : Phase} {c : OperationCmd}
    (h : st.allows name q (.inr (.inl c))) (hc : c = .run ∨ c = .prime) : q.stage.owns = true := by
  cases q with
  | running => rfl
  | streaming upcoming => rfl
  | refused =>
    obtain rfl : c = .iterate := h
    rcases hc with hc | hc <;> cases hc
  | _ => exact h.elim

/-- A call that did not acquire the key leaves its operation alone. -/
theorem untouched_of_unacquired (hr : Run (served callI) (self.callers apiKeyId key calls w) h p) {i : ι}
    (hno : ∀ e ∈ log i h, acquires e = false) : Untouched (log i h) (p.threads i) := by
  have unowned : ∀ {pre post : Steps ι} {p₀ : Pool (redisI.sum callI) Exn ι Redis},
      Run (served callI) (self.callers apiKeyId key calls w) pre p₀ → h = pre ++ post →
      (self.phases apiKeyId key pre i).stage.owns ≠ true := by
    intro pre post p₀ hr₀ he hown
    obtain ⟨e, hmem, hacq⟩ := acquired_of_owns hr₀ hown
    have hnot := hno e (by rw [he, log_append]; exact List.mem_append_left _ hmem)
    rw [hacq] at hnot
    cases hnot
  refine ⟨fun e he => ?_, fun c k hk => ?_⟩
  · obtain ⟨s, hmem, rfl, rfl⟩ := mem_log.mp he
    obtain ⟨pre, post, hh⟩ := List.append_of_mem hmem
    obtain ⟨p₀, hr₀, _, ⟨k, hk⟩, _⟩ := hr.at hh
    have hallows := allows_of_await hr₀ hk
    have hunowned := unowned hr₀ hh
    rw [Bool.eq_false_iff]
    intro hret
    obtain ⟨b, j, ⟨c, a⟩⟩ := s
    obtain c | c | c := c
    · cases hret
    · refine hunowned (owns_of_operation hallows ?_)
      cases c with
      | run => exact .inl rfl
      | prime => exact .inr rfl
      | iterate => cases hret
      | arrive => cases hret
    · cases hret
  · have hallows := allows_of_await hr hk
    have hunowned := unowned hr (List.append_nil h).symm
    exact ⟨fun hc => hunowned (owns_of_operation hallows (.inl hc)), fun hc => hunowned (owns_of_operation hallows (.inr hc))⟩

/-- A response written by the only owner shuts the key. -/
theorem shut_of_stored (hr : Run (served callI) (self.callers apiKeyId key calls w) h p) {i : ι} {fingerprint : String}
    {body : ResponseBody} {k : Except Exn Bool → Prog (redisI.sum callI) Exn Unit}
    (hi : p.threads i = .await (self.completing apiKeyId key fingerprint body) k)
    (hone : ∀ j, j ≠ i → (self.phases apiKeyId key h j).stage.owns = false)
    (ha : (served callI).answers p.world (self.completing apiKeyId key fingerprint body) (.ok true) w') :
    Shut (redisKey apiKeyId key) ⟨.completed fingerprint body, p.world.now + self.store.completedTtlS⟩ (h.length + 1)
      (h ++ [⟨p.world, i, ⟨self.completing apiKeyId key fingerprint body, .ok true⟩⟩]) w'
      (self.phases apiKeyId key (h ++ [⟨p.world, i, ⟨self.completing apiKeyId key fingerprint body, .ok true⟩⟩])) := by
  apply shut_of_write hone
  · rcases storing (allows_of_await hr hi) with hq | hq
    · rw [hq]
      rfl
    · rw [hq]
      rfl
  · rcases served_set ha with ⟨_, hno⟩ | ⟨hw, _, _⟩
    · exact absurd rfl hno
    · exact hw

/-- While the key is shut, a step finds its record and acquires nothing. -/
theorem Shut.step {x : Expires Record} {n : Nat} (hr : Run (served callI) (self.callers apiKeyId key calls w) h p)
    (hs : Shut (redisKey apiKeyId key) x n h p.world (self.phases apiKeyId key h)) (hr' : Run (served callI) p h' p')
    {s : Step (redisI.sum callI) Exn ι Redis} (hmem : s ∈ h') (hnow : s.before.now < x.deadline) :
    s.before.find (redisKey apiKeyId key) = some x ∧ acquires s.event = false := by
  obtain ⟨pre, post, he⟩ := List.append_of_mem hmem
  obtain ⟨p₀, k, w₀, hr₀, hw, hk, ha, _⟩ := hr'.resumes he
  rw [← hw] at hnow ha ⊢
  have hbefore := (hs.continued hr hr₀).holds hnow
  have hafter := hs.continued hr (hr₀.answer s.thread hk s.event.answer w₀ ha)
  refine ⟨Expiring.find_eq_some.mpr ⟨hbefore.1, hnow⟩, ?_⟩
  have hnow' : w₀.now < x.deadline := by
    rw [now_of_answers ha]
    exact hnow
  refine (hafter.holds hnow').2.2 ⟨p₀.world, s.thread, s.event⟩ ?_
  rw [← List.append_assoc, List.drop_append_of_le_length (by rw [List.length_append]; exact Nat.le_add_right_of_le hs.since)]
  exact List.mem_append_right _ List.mem_cons_self

/-- The refusal of a claim, and the record that is read, while the key has it. -/
theorem refused_of_found {x : Expires Record} {fingerprint : String} {a : Except Exn Bool}
    (hfind : w.find (redisKey apiKeyId key) = some x)
    (ha : (served callI).answers w (.inl (.set (redisKey apiKeyId key) (.claimed fingerprint) true self.store.inflightTtlS)) a w')
    (hok : ∃ b, a = .ok b) : a = .ok false := by
  obtain ⟨b, rfl⟩ := hok
  rcases served_set ha with ⟨_, hno⟩ | ⟨_, _, hfree⟩
  · cases b with
    | true => exact absurd rfl hno
    | false => rfl
  · rw [hfree rfl] at hfind
    cases hfind

theorem read_of_found {x : Expires Record} {a : Except Exn (Option Record)}
    (hfind : w.find (redisKey apiKeyId key) = some x)
    (ha : (served callI).answers w (.inl (.get (redisKey apiKeyId key))) a w') (hok : ∃ b, a = .ok b) :
    a = .ok (some x.value) := by
  obtain ⟨b, rfl⟩ := hok
  rcases ha with ha | ⟨e, he, _⟩
  · have hread : w.read (redisKey apiKeyId key) = some x.value := Expiring.read_eq_some.mpr ⟨x, hfind, rfl⟩
    have hanswer : Except.ok b = .ok (w.read (redisKey apiKeyId key)) := congrArg Prod.fst ha
    rw [hanswer, hread]
  · cases he

/-- A command of the replay that is answered at all is answered as in it. -/
theorem answered_as_replay {x : Expires Record} {c : KeyedCall} {r : ChatResponse} {e e' : Event (redisI.sum callI) Exn}
    (hx : x.value = .completed (self.fingerprint c.request) (serialize r))
    (hstore : (∃ c, e.cmd = .inl c) → w.find (redisKey apiKeyId key) = some x)
    (ha : (served callI).answers w e.cmd e.answer w') (hok : ∃ a, e.answer = .ok a)
    (he' : e' ∈ self.replay apiKeyId key c r) (hcmd : e.cmd = e'.cmd) : e = e' := by
  obtain ⟨cmd, answer⟩ := e
  rcases List.mem_append.mp he' with he' | he'
  · rcases List.mem_append.mp he' with he' | he'
    · rcases List.mem_cons.mp he' with rfl | he'
      · obtain rfl : cmd = _ := hcmd
        exact congrArg (Event.mk _) (refused_of_found (hstore ⟨_, rfl⟩) ha hok)
      · obtain rfl := List.mem_singleton.mp he'
        obtain rfl : cmd = _ := hcmd
        rw [← hx]
        exact congrArg (Event.mk _) (read_of_found (hstore ⟨_, rfl⟩) ha hok)
    · split at he'
      · obtain rfl := List.mem_singleton.mp he'
        obtain rfl : cmd = _ := hcmd
        obtain ⟨a, ha'⟩ := hok
        exact congrArg (Event.mk _) ha'
      · cases he'
  · obtain ⟨event, _, rfl⟩ := List.mem_map.mp he'
    obtain rfl : cmd = _ := hcmd
    obtain ⟨a, ha'⟩ := hok
    exact congrArg (Event.mk _) ha'

/-- **A stored response is replayed.** -/
theorem later_replays (hr : Run (served callI) (self.callers apiKeyId key calls w) h p) {i j : ι} {fingerprint : String}
    {r : ChatResponse} {k : Except Exn Bool → Prog (redisI.sum callI) Exn Unit}
    (hi : p.threads i = .await (self.completing apiKeyId key fingerprint (serialize r)) k)
    (hone : ∀ j, j ≠ i → (self.phases apiKeyId key h j).stage.owns = false)
    (ha : (served callI).answers p.world (self.completing apiKeyId key fingerprint (serialize r)) (.ok true) w')
    (hr' : Run (served callI) ⟨w', Function.update p.threads i (k (.ok true))⟩ h' p')
    (hj : j ≠ i) (hlater : log j h = []) (hbody : self.fingerprint (calls j).request = fingerprint)
    (hbefore : ∀ s ∈ h', s.thread = j → (∃ c, s.event.cmd = .inl c) →
      s.before.now < p.world.now + self.store.completedTtlS) :
    Untouched (log j h') (p'.threads j) ∧
      ((∀ e ∈ log j h', ∃ a, e.answer = .ok a) →
        ∃ rest, log j h' ++ rest = self.replay apiKeyId key (calls j) r ∧ Ends (p'.threads j) rest (.ok ())) := by
  have hrun := hr.command hi ha
  have hshut := shut_of_stored hr hi hone ha
  have hlog : log j (h ++ [⟨p.world, i, ⟨self.completing apiKeyId key fingerprint (serialize r), .ok true⟩⟩] ++ h') = log j h' := by
    rw [log_append, log_snoc_of_ne h (Ne.symm hj), hlater, List.nil_append]
  have hall := hrun.trans hr'
  have hreaches := hall.reaches j
  rw [hlog] at hreaches
  constructor
  · rw [← hlog]
    refine untouched_of_unacquired hall fun e he => ?_
    rw [hlog] at he
    obtain ⟨s, hs, hthread, rfl⟩ := mem_log.mp he
    obtain ⟨b, i', ⟨c, a⟩⟩ := s
    obtain c | c := c
    · exact (hshut.step hrun hr' hs (hbefore _ hs hthread ⟨c, rfl⟩)).2
    · rfl
  · intro hok
    refine Reaches.along (call_replays (calls j)) hreaches fun e he e' he' hcmd => ?_
    obtain ⟨s, hs, hthread, rfl⟩ := mem_log.mp he
    obtain ⟨w₀, ha₀⟩ := hr'.mem_answers hs
    exact answered_as_replay (x := ⟨.completed fingerprint (serialize r), p.world.now + self.store.completedTtlS⟩)
      (by rw [hbody]) (fun hc => (hshut.step hrun hr' hs (hbefore s hs hthread hc)).1) ha₀ (hok _ he) he' hcmd

end Runs

section Texts
variable {ι : Type} [DecidableEq ι] {self : IdempotencyService} {apiKeyId : UUID} {key : String}
  {calls : ι → KeyedCall} {v : TextRedis} {w : Redis} {p : Pool (redisI.sum callI) Exn ι TextRedis}
  {pre post : List (Step (redisI.sum callI) Exn ι TextRedis)} {s : Step (redisI.sum callI) Exn ι TextRedis}

/-- **The stored form replays a response faithfully**, on the server that keeps the texts. Call `s.thread`,
whichever its mode, stores `r` while no other call still has to settle a claim. Then every call `j` that
comes later with the same body, and whose store commands all come before the record expires, leaves its
operation alone; and unless a command or its consumer fails, what it does is the beginning of a replay,
and it is on its way to the end of it: the response `r`, whole. -/
theorem stored_replays (hv : Lettered (redisKey apiKeyId key) v w)
    (hr : Run (lettered callI) ⟨v, fun i => self.call apiKeyId key (calls i)⟩ (pre ++ s :: post) p) {r : ChatResponse}
    (hstored : s.event =
      ⟨self.completing apiKeyId key (self.fingerprint (calls s.thread).request) (serialize r), .ok true⟩)
    (hone : ∀ j, j ≠ s.thread →
      ((self.store.claims (redisKey apiKeyId key)).run .claiming (log j pre)).stage.owns = false)
    {j : ι} (hj : j ≠ s.thread) (hlater : log j pre = [])
    (hbody : self.fingerprint (calls j).request = self.fingerprint (calls s.thread).request)
    (hbefore : ∀ x ∈ post, x.thread = j → (∃ c, x.event.cmd = .inl c) →
      x.before.now < s.before.now + self.store.completedTtlS) :
    Untouched (log j post) (p.threads j) ∧
      ((∀ e ∈ log j post, ∃ a, e.answer = .ok a) →
        ∃ rest, log j post ++ rest = self.replay apiKeyId key (calls j) r ∧ Ends (p.threads j) rest (.ok ()) ∧
          Gives (calls j).streamed r (handed (log j post ++ rest))) := by
  obtain ⟨h₁, p₁, hr₁, halike, _, hthreads⟩ := hr.simulated (letteredSimulation callI (redisKey apiKeyId key))
    (fun i => self.call_named apiKeyId key (calls i)) (by exact hv)
  obtain ⟨pre₁, s₁, post₁, rfl, hpre, hs, hpost⟩ := Simulation.split halike
  obtain ⟨p₀, k, w₀, hr₀, hw, hk, ha, hrest⟩ := hr₁.resumes rfl
  have hthread : s₁.thread = s.thread := hs.thread
  have hevent : s₁.event =
      ⟨self.completing apiKeyId key (self.fingerprint (calls s.thread).request) (serialize r), .ok true⟩ :=
    hs.event.trans hstored
  obtain ⟨before₁, thread₁, event₁⟩ := s₁
  obtain rfl : thread₁ = s.thread := hthread
  obtain rfl : event₁ = _ := hevent
  obtain rfl : p₀.world = before₁ := hw
  have hnow : s.before.now = p₀.world.now := hs.before.now
  have hlog : log j post₁ = log j post := Simulation.log_eq hpost j
  have hbefore₁ : ∀ x₁ ∈ post₁, x₁.thread = j → (∃ c, x₁.event.cmd = .inl c) →
      x₁.before.now < p₀.world.now + self.store.completedTtlS := by
    intro x₁ hx₁ hthread hstore
    obtain ⟨x, hx, halike⟩ := Simulation.mem hpost hx₁
    rw [← hnow, ← halike.before.now]
    rw [halike.event] at hstore
    exact hbefore x hx (halike.thread.symm.trans hthread) hstore
  have replays := later_replays hr₀ hk
    (fun j' hj' => by
      show (self.phases apiKeyId key pre₁ j').stage.owns = false
      rw [← hone j' hj', phases, watched, Simulation.log_eq hpre j'])
    ha hrest hj (by rw [Simulation.log_eq hpre j, hlater]) hbody hbefore₁
  rw [hlog, hthreads] at replays
  refine ⟨replays.1, fun hok => ?_⟩
  obtain ⟨rest, hreplay, hends⟩ := replays.2 hok
  refine ⟨rest, hreplay, hends, ?_⟩
  rw [hreplay, handed_replay]
  exact pieces_give _ r

end Texts

/-- Stored by `execute`; a day later less a second a stream has claimed in vain and read the text back. -/
theorem stored_replays_day :
    ∃ t rest : Trace (redisI.sum callI) Exn, t.length = 2 ∧
      t ++ rest = trialService.replay ⟨7⟩ "k1" ⟨trialRequest, true⟩ trialResponse ∧
      Gives true trialResponse (handed (t ++ rest)) := by
  let name := redisKey ⟨7⟩ "k1"
  let print := trialService.fingerprint trialRequest
  let record : Record := .completed print (serialize trialResponse)
  let v₀ : TextRedis := ⟨0, fun _ => none⟩
  let v₁ : TextRedis := v₀.write name (Record.claimed print).text (120 : Int)
  let v₂ : TextRedis := v₁.write name record.text (86400 : Int)
  let v₃ : TextRedis := ⟨86399, v₂.entries⟩
  have later : Expiring.Waits v₂ v₃ := ⟨by show (0 : ℚ) ≤ 86399; norm_num, rfl⟩
  have hread : v₃.read name = some record.text := by
    refine later.kept ?_
    show (86399 : ℚ) < 0 + (86400 : Int)
    norm_num
  have r₀ : Run (lettered callI) ⟨v₀, fun i : Bool => trialService.call ⟨7⟩ "k1" ⟨trialRequest, i⟩⟩ [] _ := .start
  have r₁ := r₀.answer false rfl (.ok true) v₁ (.inl (TextRedis.exec_granted (by decide) fun _ => rfl).symm)
  have r₂ := r₁.answer false rfl (.ok trialResponse) v₁ rfl
  have r₃ := r₂.answer false rfl (.ok true) v₂ (.inl (TextRedis.exec_granted (by decide) fun h => by cases h).symm)
  have r₄ := r₃.wait v₃ later
  have r₅ := r₄.answer true rfl (.ok false) v₃ (.inl (TextRedis.exec_refused (by decide) hread).symm)
  have r₆ := r₅.answer true rfl (.ok (some record)) v₃ (.inl (TextRedis.exec_found hread).symm)
  refine (fun replays : Untouched _ _ ∧ (_ → _) => ?_) (@stored_replays Bool _ trialService ⟨7⟩ "k1" _ v₀
    ⟨0, fun _ => none⟩ _ [_, _] [_, _] _ ⟨rfl, rfl⟩ r₆ trialResponse rfl ?_ true (by decide) rfl rfl ?_)
  · obtain ⟨rest, hreplay, _, hgives⟩ := replays.2
      (List.forall_mem_cons.mpr ⟨⟨_, rfl⟩, List.forall_mem_singleton.mpr ⟨_, rfl⟩⟩)
    exact ⟨_, rest, rfl, hreplay, hgives⟩
  · intro j hj
    cases j with
    | false => exact absurd rfl hj
    | true => rfl
  · have before : v₃.now < (0 : ℚ) + trialService.store.completedTtlS := by
      show (86399 : ℚ) < 0 + (86400 : Int)
      norm_num
    exact List.forall_mem_cons.mpr ⟨fun _ _ => before, List.forall_mem_singleton.mpr fun _ _ => before⟩

/-- A call whose claim has expired fails after the next one stored its response, and releases the key:
a later call with the same body acquires it, and gets the answer of its own operation. -/
theorem stored_rerun :
    ∃ (pre post : List (Step (redisI.sum callI) Exn (Fin 3) TextRedis)) (s : Step (redisI.sum callI) Exn (Fin 3) TextRedis)
      (p : Pool (redisI.sum callI) Exn (Fin 3) TextRedis),
      Run (lettered callI) ⟨⟨0, fun _ => none⟩, fun _ => trialService.call ⟨7⟩ "k1" ⟨trialRequest, false⟩⟩
        (pre ++ s :: post) p ∧
      s.event = ⟨trialService.completing ⟨7⟩ "k1" (trialService.fingerprint trialRequest) (serialize trialResponse), .ok true⟩ ∧
      s.thread ≠ 2 ∧ log 2 pre = [] ∧
      (∀ x ∈ post, x.before.now < s.before.now + trialService.store.completedTtlS) ∧
      (⟨.inr (.inl .run), .ok { trialResponse with content := "hello again" }⟩ : Event (redisI.sum callI) Exn) ∈
        log 2 post := by
  let name := redisKey ⟨7⟩ "k1"
  let print := trialService.fingerprint trialRequest
  let v₀ : TextRedis := ⟨0, fun _ => none⟩
  let v₁ : TextRedis := v₀.write name (Record.claimed print).text (120 : Int)
  let v₂ : TextRedis := ⟨120, v₁.entries⟩
  let v₃ : TextRedis := v₂.write name (Record.claimed print).text (120 : Int)
  let v₄ : TextRedis := v₃.write name (Record.completed print (serialize trialResponse)).text (86400 : Int)
  let v₅ : TextRedis := v₄.erase name
  let v₆ : TextRedis := v₅.write name (Record.claimed print).text (120 : Int)
  have later : Expiring.Waits v₁ v₂ := ⟨by show (0 : ℚ) ≤ 120; norm_num, rfl⟩
  have expired : v₂.read name = none :=
    Expiring.read_eq_none.mpr (later.expired (by show (0 : ℚ) + (120 : Int) ≤ 120; norm_num))
  have erased : v₅.read name = none := by
    have hentry : v₅.entries name = none := Expiring.erase_entries_self
    refine Expiring.read_eq_none.mpr (Expiring.find_eq_none.mpr fun e he => ?_)
    rw [hentry] at he
    cases he
  have r₀ : Run (lettered callI) ⟨v₀, fun _ : Fin 3 => trialService.call ⟨7⟩ "k1" ⟨trialRequest, false⟩⟩ [] _ := .start
  have r₁ := r₀.answer 0 rfl (.ok true) v₁ (.inl (TextRedis.exec_granted (by decide) fun _ => rfl).symm)
  have r₂ := r₁.wait v₂ later
  have r₃ := r₂.answer 1 rfl (.ok true) v₃ (.inl (TextRedis.exec_granted (by decide) fun _ => expired).symm)
  have r₄ := r₃.answer 1 rfl (.ok trialResponse) v₃ rfl
  have r₅ := r₄.answer 1 rfl (.ok true) v₄ (.inl (TextRedis.exec_granted (by decide) fun h => by cases h).symm)
  have r₆ := r₅.answer 0 rfl (.error (.upstreamUnavailable "refused")) v₄ rfl
  have r₇ := r₆.answer 0 rfl _ v₅ (.inl rfl)
  have r₈ := r₇.answer 2 rfl (.ok true) v₆ (.inl (TextRedis.exec_granted (by decide) fun _ => erased).symm)
  have r₉ := r₈.answer 2 rfl (.ok { trialResponse with content := "hello again" }) v₆ rfl
  have before : (120 : ℚ) < 120 + trialService.store.completedTtlS := by
    show (120 : ℚ) < 120 + (86400 : Int)
    norm_num
  refine ⟨[_, _, _], [_, _, _, _], _, _, r₉, rfl, by decide, rfl, ?_, ?_⟩
  · exact List.forall_mem_cons.mpr ⟨before, List.forall_mem_cons.mpr ⟨before, List.forall_mem_cons.mpr ⟨before,
      List.forall_mem_singleton.mpr before⟩⟩⟩
  · exact List.mem_cons_of_mem _ List.mem_cons_self

end IdempotencyService
end Relayix
