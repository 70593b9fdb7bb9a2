import Relayix.Services.Idempotency

/-! The calls on one idempotency key, as threads.

The operation is opaque here: one command that answers or raises, and for a stream what
it then gives, event by event, each awaited on its own. A thread is a call together with
its consumer. `claims` follows a thread from outside and says where it is in the protocol
on its key (`Phase`); what matters of a phase for the other calls is its `Stage`. -/
namespace Relayix
open Library

/-- What a committed stream still gives: deltas, then its terminal response, an exception
or nothing. -/
inductive Upcoming where
  | delta (content : String) (rest : Upcoming)
  | response (r : ChatResponse)
  | interrupted (e : Exn)
  | stop
  deriving DecidableEq

inductive OperationCmd where
  /-- `await operation()` in `execute` -/
  | run
  /-- `await operation()` in `execute_stream` -/
  | prime
  /-- the consumer begins to iterate; failing here, it never does -/
  | iterate
  /-- the stream's next event -/
  | arrive
  deriving DecidableEq

@[reducible] def operationI : Interface where
  Cmd := OperationCmd
  Ans
    | .run => ChatResponse
    | .prime => Upcoming
    | .iterate => Unit
    | .arrive => Unit

/-- The generator of a committed stream. -/
def primed : Upcoming → Gen operationI Exn ChatStreamEvent Unit
  | .delta content rest => do
    (@Prog.perform operationI Exn .arrive).inl
    Gen.yield (.delta content)
    primed rest
  | .response r => do
    (@Prog.perform operationI Exn .arrive).inl
    Gen.yield (.response r)
  | .interrupted e => do
    (@Prog.perform operationI Exn .arrive).inl
    .raise e
  | .stop => (@Prog.perform operationI Exn .arrive).inl

/-- What a call does besides its store commands: its operation, and what it hands over. -/
@[reducible] def callI : Interface := operationI.sum (handoff ChatStreamEvent)

structure KeyedCall where
  request : ChatRequest
  streamed : Bool
  deriving DecidableEq

namespace IdempotencyService
variable (self : IdempotencyService) (apiKeyId : UUID) (key : String)

/-- `execute`, and the response going out. -/
def buffered (request : ChatRequest) : Gen (redisI.sum operationI) Exn ChatStreamEvent Unit := do
  let response ← (self.execute apiKeyId key request (@Prog.perform operationI Exn .run)).inl
  Gen.yield (.response response)

/-- `executeStream`, and its consumer. -/
def streamed (request : ChatRequest) : Gen (redisI.sum operationI) Exn ChatStreamEvent Unit := do
  let events ← (self.executeStream apiKeyId key request
    ((@Prog.perform operationI Exn .prime).bind fun upcoming => .ret (primed upcoming))).inl
  (@Prog.perform (redisI.sum operationI) Exn (.inr .iterate)).inl
  events

/-- A call as a thread. -/
def call (c : KeyedCall) : Prog (redisI.sum callI) Exn Unit :=
  if c.streamed then (self.streamed apiKeyId key c.request).assoc
  else (self.buffered apiKeyId key c.request).assoc

end IdempotencyService

/-! ### Where a call is -/

inductive Phase where
  | claiming
  | reading
  /-- the record was somebody else's -/
  | refused
  /-- owns the key; the operation is under way -/
  | running
  /-- the operation answered, to be stored -/
  | answered
  /-- stored, going out -/
  | served
  | streaming (upcoming : Upcoming)
  /-- the terminal response is going out, to be stored -/
  | delivering
  /-- to be marked ambiguous -/
  | parking
  | releasing
  /-- the stream ended without a response, or was never begun -/
  | lapsed
  | ended
  deriving DecidableEq

/-- What the other calls can tell of a phase. -/
inductive Stage where
  /-- has not acquired the key -/
  | outside
  /-- has acquired it, and may release it -/
  | unsure
  /-- has acquired it, and will not release it -/
  | committed
  /-- left the key claimed -/
  | lapsed
  | settled
  deriving DecidableEq

namespace Phase

def stage : Phase → Stage
  | claiming | reading | refused => .outside
  | running | releasing => .unsure
  | answered | streaming _ | delivering | parking => .committed
  | lapsed => .lapsed
  | served | ended => .settled

/-- The operation of `execute` answered. -/
def told : Phase → Bool
  | answered | served => true
  | _ => false

/-- The operation failed. -/
def failing (e : Exn) : Phase := if e.isUpstreamAmbiguous then parking else releasing

/-- The next event of the stream is there. -/
def arrived : Upcoming → Phase
  | .delta _ rest => streaming rest
  | .response _ => delivering
  | .interrupted _ => parking
  | .stop => lapsed

@[simp] theorem told_failing (e : Exn) : (failing e).told = false := by
  unfold failing
  split <;> rfl

@[simp] theorem told_arrived (upcoming : Upcoming) : (arrived upcoming).told = false := by
  cases upcoming <;> rfl

def next : Phase → (c : (redisI.sum callI).Cmd) → Except Exn ((redisI.sum callI).Ans c) → Phase
  | claiming, .inl (.set _ _ _ _), .ok true => running
  | claiming, .inl (.set _ _ _ _), .ok false => reading
  | reading, .inl (.get _), .ok none => claiming
  | reading, .inl (.get _), .ok (some _) => refused
  | running, .inr (.inl .run), .ok _ => answered
  | running, .inr (.inl .run), .error e => failing e
  | running, .inr (.inl .prime), .ok upcoming => streaming upcoming
  | running, .inr (.inl .prime), .error e => failing e
  | answered, .inl (.set _ _ _ _), .ok _ => served
  | streaming upcoming, .inr (.inl .iterate), .ok _ => streaming upcoming
  | streaming _, .inr (.inl .iterate), .error _ => lapsed
  | streaming upcoming, .inr (.inl .arrive), .ok _ => arrived upcoming
  | streaming _, .inr (.inl .arrive), .error _ => parking
  | streaming upcoming, .inr (.inr _), .ok _ => streaming upcoming
  | streaming _, .inr (.inr _), .error _ => parking
  | delivering, .inr (.inr _), .ok _ => delivering
  | delivering, .inr (.inr _), .error _ => parking
  | delivering, .inl (.set _ _ _ _), .error _ => parking
  | refused, .inr _, .ok _ => refused
  | served, .inr _, .ok _ => served
  | _, _, _ => ended

end Phase

/-- The records that calls write. -/
inductive Record.Written : Record → Prop where
  | claimed (fingerprint : String) : Written (.claimed fingerprint)
  | completed (fingerprint : String) (r : ChatResponse) :
      Written (.completed fingerprint (IdempotencyService.serialize r))
  | parked (fingerprint error : String) : Written (.parked fingerprint error)

namespace RedisIdempotencyStore
variable (self : RedisIdempotencyStore) (name : String)

/-- What a call may ask where it is, on the key `name` of Redis. -/
def allows : Phase → (redisI.sum callI).Cmd → Prop
  | .claiming, .inl c => ∃ fingerprint, c = .set name (.claimed fingerprint) true self.inflightTtlS
  | .reading, .inl c => c = .get name
  | .refused, .inr (.inl c) => c = .iterate
  | .refused, .inr (.inr _) => True
  | .running, .inr (.inl c) => c = .run ∨ c = .prime
  | .answered, .inl c => ∃ fingerprint r, c =
      .set name (.completed fingerprint (IdempotencyService.serialize r)) false self.completedTtlS
  | .served, .inr (.inr _) => True
  | .streaming _, .inr (.inl c) => c = .iterate ∨ c = .arrive
  | .streaming _, .inr (.inr _) => True
  | .delivering, .inr (.inr _) => True
  | .delivering, .inl c => ∃ fingerprint r, c =
      .set name (.completed fingerprint (IdempotencyService.serialize r)) false self.completedTtlS
  | .parking, .inl c => ∃ fingerprint error, c =
      .set name (.parked fingerprint error) false self.completedTtlS
  | .releasing, .inl c => c = .delete name
  | _, _ => False

/-- A call on the key `name`, seen from outside. -/
def claims : Monitor (redisI.sum callI) Exn Phase where
  next := Phase.next
  allowed := self.allows name
  expects _ _ := True

/-- The same, as a call and its consumer see it, before and after they are joined. -/
abbrev iterated : Monitor ((redisI.sum operationI).sum (handoff ChatStreamEvent)) Exn Phase :=
  (self.claims name).unassoc

abbrev wrapped : Monitor (redisI.sum operationI) Exn Phase := (self.iterated name).onLeft

/-! ### Every call follows the protocol -/

section Store
variable (apiKeyId : UUID) (key fingerprint : String)

/-- What a reservation leaves: the key acquired, or the record of somebody else. -/
def Reserved (outcome : ReservationOutcome) (s : Phase) : Prop :=
  s = bif outcome.acquired then .running else .refused

theorem tryReserve_obeys (n : Nat) :
    (self.tryReserve apiKeyId key fingerprint n).Obeys (self.wrapped (redisKey apiKeyId key)).onLeft
      (fun o s => ∀ outcome, o = .ok (some outcome) → Reserved outcome s) .claiming := by
  induction n with
  | zero => exact fun _ h => by cases h
  | succ n ih =>
    refine ⟨⟨fingerprint, rfl⟩, fun acquired _ => ?_⟩
    cases acquired with
    | error e => exact fun _ h => by cases h
    | ok acquired =>
      cases acquired with
      | true =>
        intro outcome h
        cases h
        rfl
      | false =>
        refine ⟨rfl, fun existing _ => ?_⟩
        cases existing with
        | error e => exact fun _ h => by cases h
        | ok existing =>
          cases existing with
          | none => exact ih
          | some existing =>
            intro outcome h
            cases h
            rfl

theorem reserve_obeys :
    (self.reserve apiKeyId key fingerprint).Obeys (self.wrapped (redisKey apiKeyId key)).onLeft
      (fun o s => ∀ outcome, o = .ok outcome → Reserved outcome s) .claiming := by
  have tried : ((self.tryReserve apiKeyId key fingerprint reserveAttempts).tryExcept fun e =>
      if e.isStoreFailure then .raise idempotencyStoreUnavailable else .raise e).Obeys
        (self.wrapped (redisKey apiKeyId key)).onLeft
        (fun o s => ∀ outcome, o = .ok (some outcome) → Reserved outcome s) .claiming := by
    refine (self.tryReserve_obeys apiKeyId key fingerprint _).tryExcept (fun _ _ hs => hs) ?_
    intro e s _
    split <;> exact fun _ h => by cases h
  refine tried.bind (fun outcome s hs => ?_) (fun _ _ _ _ h => by cases h)
  cases outcome with
  | none => exact fun _ h => by cases h
  | some outcome =>
    intro outcome' h
    cases h
    exact hs outcome rfl

variable {fingerprint}

/-- The write of a call that ends its claim with a record. -/
theorem keep_obeys {record : Record} {s : Phase} {Q : Except Exn Unit → Phase → Prop}
    (hs : (self.claims (redisKey apiKeyId key)).allowed s
      (.inl (.set (redisKey apiKeyId key) record false self.completedTtlS)))
    (hok : ∀ a, Q (.ok ()) (s.next (.inl (.set (redisKey apiKeyId key) record false
      self.completedTtlS)) (.ok a)))
    (herr : ∀ e, Q (.error e) (s.next (.inl (.set (redisKey apiKeyId key) record false
      self.completedTtlS)) (.error e))) :
    (self.keep apiKeyId key record).Obeys (self.wrapped (redisKey apiKeyId key)).onLeft Q s := by
  refine ⟨hs, fun a _ => ?_⟩
  cases a with
  | ok a => exact hok a
  | error e => exact herr e

theorem complete_answered (r : ChatResponse) :
    (self.complete apiKeyId key fingerprint (IdempotencyService.serialize r)).Obeys
      (self.wrapped (redisKey apiKeyId key)).onLeft (fun o s => o = .ok () → s = .served)
      .answered := by
  have kept : (self.keep apiKeyId key (.completed fingerprint (IdempotencyService.serialize r))).Obeys
      (self.wrapped (redisKey apiKeyId key)).onLeft (fun o s => o = .ok () → s = .served)
      .answered :=
    self.keep_obeys apiKeyId key ⟨fingerprint, r, rfl⟩ (fun _ _ => rfl) (fun _ h => by cases h)
  refine kept.tryExcept (fun _ _ hs => hs) fun e s _ => ?_
  split <;> exact fun h => by cases h

theorem complete_delivering (r : ChatResponse) :
    (self.complete apiKeyId key fingerprint (IdempotencyService.serialize r)).Obeys
      (self.wrapped (redisKey apiKeyId key)).onLeft
      (fun o s => s = match o with | .ok _ => .ended | .error _ => .parking) .delivering := by
  have kept : (self.keep apiKeyId key (.completed fingerprint (IdempotencyService.serialize r))).Obeys
      (self.wrapped (redisKey apiKeyId key)).onLeft
      (fun o s => s = match o with | .ok _ => .ended | .error _ => .parking) .delivering :=
    self.keep_obeys apiKeyId key ⟨fingerprint, r, rfl⟩ (fun _ => rfl) (fun _ => rfl)
  refine kept.tryExcept (fun _ _ hs => hs) fun e s hs => ?_
  split <;> exact hs

theorem markAmbiguous_obeys (error : String) :
    (self.markAmbiguous apiKeyId key fingerprint error).Obeys
      (self.wrapped (redisKey apiKeyId key)).onLeft (fun _ _ => True) .parking := by
  have kept : (self.keep apiKeyId key (.parked fingerprint error)).Obeys
      (self.wrapped (redisKey apiKeyId key)).onLeft (fun _ _ => True) .parking :=
    self.keep_obeys apiKeyId key ⟨fingerprint, error, rfl⟩ (fun _ => trivial) (fun _ => trivial)
  refine kept.tryExcept (fun _ _ _ => trivial) fun e s _ => ?_
  split <;> trivial

theorem release_obeys :
    (release apiKeyId key).Obeys (self.wrapped (redisKey apiKeyId key)).onLeft (fun _ _ => True)
      .releasing := by
  have deleted : (@Prog.perform redisI Exn (.delete (redisKey apiKeyId key))).Obeys
      (self.wrapped (redisKey apiKeyId key)).onLeft (fun _ _ => True) .releasing :=
    ⟨rfl, fun a _ => by cases a <;> trivial⟩
  have dropped : ((@Prog.perform redisI Exn (.delete (redisKey apiKeyId key))).bind
      fun _ => .ret ()).Obeys (self.wrapped (redisKey apiKeyId key)).onLeft (fun _ _ => True)
      .releasing :=
    deleted.bind (fun _ _ _ => trivial) (fun _ _ _ => trivial)
  refine dropped.tryExcept (fun _ _ _ => trivial) fun e s _ => ?_
  split <;> trivial

end Store
end RedisIdempotencyStore

namespace IdempotencyService
variable (self : IdempotencyService) (apiKeyId : UUID) (key : String)

/-- The protocol on the key of these calls. -/
abbrev protocol : Monitor (redisI.sum operationI) Exn Phase :=
  self.store.wrapped (redisKey apiKeyId key)

abbrev streamProtocol : Monitor ((redisI.sum operationI).sum (handoff ChatStreamEvent)) Exn Phase :=
  self.store.iterated (redisKey apiKeyId key)

/-- The operation failed: its handler parks or releases, and ends the call. -/
theorem unserved_obeys {α : Type} {fingerprint : String} {e : Exn} :
    (self.unserved apiKeyId key fingerprint e : Prog (redisI.sum operationI) Exn α).Obeys
      (self.protocol apiKeyId key) (fun o _ => ∃ e, o = .error e) (.failing e) := by
  unfold unserved Phase.failing
  split
  · exact (self.store.markAmbiguous_obeys apiKeyId key e.str).inl.bind (fun _ _ _ => ⟨e, rfl⟩)
      (fun e _ _ => ⟨e, rfl⟩)
  · exact (self.store.release_obeys apiKeyId key).inl.bind (fun _ _ _ => ⟨e, rfl⟩)
      (fun e _ _ => ⟨e, rfl⟩)

/-- The operation returned, or is failing with what it raised. -/
def Awaited {α : Type} (R : α → Phase → Prop) : Except Exn α → Phase → Prop
  | .ok a, s => R a s
  | .error e, s => s = .failing e

/-- The wrapped operation, one command: it answers, or its handler ends the call. -/
theorem operation_obeys {α : Type} {fingerprint : String} {c : OperationCmd}
    {k : Except Exn (operationI.Ans c) → Prog operationI Exn α} {f : operationI.Ans c → α}
    {R : α → Phase → Prop} (hc : c = .run ∨ c = .prime) (hret : ∀ a, k (.ok a) = .ret (f a))
    (hraise : ∀ e, k (.error e) = .raise e)
    (hok : ∀ a, R (f a) (Phase.running.next (.inr (.inl c)) (.ok a))) :
    ((Prog.await c k).inr.tryExcept (self.unserved apiKeyId key fingerprint)).Obeys
      (self.protocol apiKeyId key) (fun o s => ∀ a, o = .ok a → R a s) .running := by
  have herr : ∀ e, Phase.running.next (.inr (.inl c)) (.error e) = .failing e := by
    intro e
    rcases hc with rfl | rfl <;> rfl
  have asked : (Prog.await c k).inr.Obeys (self.protocol apiKeyId key)
      (Awaited R) .running := by
    refine Prog.Obeys.inr ⟨hc, fun a _ => ?_⟩
    cases a with
    | ok a =>
      rw [hret a]
      exact hok a
    | error e =>
      rw [hraise e]
      exact herr e
  refine asked.tryExcept (fun a s hs b hb => ?_) (fun e s hs => ?_)
  · cases hb
    exact hs
  · rw [hs]
    refine (self.unserved_obeys apiKeyId key).mono fun o s ho a ha => ?_
    obtain ⟨e, he⟩ := ho
    rw [he] at ha
    cases ha

/-- After a reservation, one of two continuations runs. -/
theorem reserve_bind_obeys {α : Type} {fingerprint : String} {f : ReservationOutcome → Prog (redisI.sum operationI) Exn α}
    {R : α → Phase → Prop}
    (hacquired : ∀ outcome, outcome.acquired = true →
      (f outcome).Obeys (self.protocol apiKeyId key) (fun o s => ∀ a, o = .ok a → R a s) .running)
    (hrefused : ∀ outcome, outcome.acquired = false →
      (f outcome).Obeys (self.protocol apiKeyId key) (fun o s => ∀ a, o = .ok a → R a s) .refused) :
    ((self.store.reserve apiKeyId key fingerprint).inl.bind f).Obeys (self.protocol apiKeyId key)
      (fun o s => ∀ a, o = .ok a → R a s) .claiming := by
  refine (self.store.reserve_obeys apiKeyId key _).inl.bind (fun outcome s hs => ?_) (fun _ _ _ _ h => by cases h)
  have hs := hs outcome rfl
  unfold RedisIdempotencyStore.Reserved at hs
  cases ha : outcome.acquired with
  | true =>
    rw [ha] at hs
    subst hs
    exact hacquired outcome ha
  | false =>
    rw [ha] at hs
    subst hs
    exact hrefused outcome ha

theorem execute_obeys (request : ChatRequest) :
    (self.execute apiKeyId key request (@Prog.perform operationI Exn .run)).Obeys
      (self.protocol apiKeyId key)
      (fun o s => ∀ r, o = .ok r → s = .served ∨ s = .refused) .claiming := by
  refine self.reserve_bind_obeys apiKeyId key (fun outcome ha => ?_) (fun outcome ha => ?_)
  · rw [if_pos ha]
    have asked : ((@Prog.perform operationI Exn .run).inr.tryExcept
        (self.unserved apiKeyId key (self.fingerprint request))).Obeys (self.protocol apiKeyId key)
          (fun o s => ∀ r, o = .ok r → s = .answered) .running :=
      self.operation_obeys apiKeyId key (.inl rfl) (fun _ => rfl) (fun _ => rfl) (fun _ => rfl)
    refine asked.bind (fun r s hs => ?_) (fun _ _ _ _ h => by cases h)
    rw [hs r rfl]
    refine (self.store.complete_answered apiKeyId key r).inl.bind (fun _ s hs => ?_)
      (fun _ _ _ _ h => by cases h)
    exact fun _ _ => .inl (hs rfl)
  · rw [if_neg (Bool.not_eq_true _ ▸ ha)]
    cases refuse (self.fingerprint request) outcome with
    | error e => exact fun _ h => by cases h
    | ok body =>
      show (Prog.ofExcept (deserialize body)).Obeys _ _ _
      cases deserialize body with
      | error e => exact fun _ h => by cases h
      | ok r => exact fun _ _ => .inr rfl

/-- An event goes to the consumer, who may stop the stream here. -/
theorem yield_obeys {event : ChatStreamEvent} {s : Phase} {Q : Except Exn Unit → Phase → Prop}
    (hs : (self.streamProtocol apiKeyId key).allowed s (.inr event))
    (hq : ∀ a, Q a (s.next (.inr (.inr event)) a)) :
    (Gen.yield event : Gen (redisI.sum operationI) Exn ChatStreamEvent Unit).Obeys
      (self.streamProtocol apiKeyId key) Q s :=
  Prog.Obeys.perform hs fun a _ => hq a

theorem broken_obeys {fingerprint : String} {e : Exn} :
    (self.broken apiKeyId key fingerprint e : Gen (redisI.sum operationI) Exn ChatStreamEvent
      Unit).Obeys (self.streamProtocol apiKeyId key) (fun _ _ => True) .parking :=
  (self.store.markAmbiguous_obeys apiKeyId key e.str).inl.inl.bind (fun _ _ _ => trivial)
    (fun _ _ _ => trivial)

/-- A broken stream: the source is closed, and says nothing. -/
theorem stopped_obeys {fingerprint : String} {e : Exn}
    {k : Except Exn Unit → Gen operationI Exn ChatStreamEvent Unit} (hk : Gen.aclose k = .ret ()) :
    ((self.broken apiKeyId key fingerprint e).tryFinally (Gen.aclose k).inr.inl : Gen
        (redisI.sum operationI) Exn ChatStreamEvent Unit).Obeys
      (self.streamProtocol apiKeyId key) (fun _ _ => True) .parking := by
  rw [hk]
  exact (self.broken_obeys apiKeyId key).tryFinally fun _ _ _ => trivial

theorem settle_obeys {fingerprint : String} (upcoming : Upcoming) :
    (self.settle apiKeyId key fingerprint (primed upcoming)).Obeys
      (self.streamProtocol apiKeyId key) (fun _ _ => True) (.streaming upcoming) := by
  induction upcoming with
  | stop =>
    refine ⟨.inr rfl, fun a _ => ?_⟩
    cases a with
    | ok _ => trivial
    | error e => exact self.broken_obeys apiKeyId key
  | interrupted e =>
    refine ⟨.inr rfl, fun a _ => ?_⟩
    cases a with
    | ok _ => exact self.broken_obeys apiKeyId key
    | error e => exact self.broken_obeys apiKeyId key
  | delta content rest ih =>
    refine ⟨.inr rfl, fun a _ => ?_⟩
    cases a with
    | error e => exact self.broken_obeys apiKeyId key
    | ok _ =>
      have given : (Gen.yield (.delta content) : Gen (redisI.sum operationI) Exn ChatStreamEvent
          Unit).Obeys (self.streamProtocol apiKeyId key)
          (fun o s => s = match o with | .ok _ => .streaming rest | .error _ => .parking)
          (.streaming rest) := by
        refine self.yield_obeys apiKeyId key trivial fun a => ?_
        cases a <;> rfl
      have passed : (self.pass apiKeyId key fingerprint (.delta content) : Gen
          (redisI.sum operationI) Exn ChatStreamEvent Unit).Obeys
          (self.streamProtocol apiKeyId key)
          (fun o s => s = match o with | .ok _ => .streaming rest | .error _ => .parking)
          (.streaming rest) :=
        given.bind (fun _ _ hs => hs) (fun _ _ hs => hs)
      refine passed.attempt_bind fun o s hs => ?_
      rw [hs]
      cases o with
      | ok _ => exact ih
      | error e => exact self.stopped_obeys apiKeyId key rfl
  | response r =>
    refine ⟨.inr rfl, fun a _ => ?_⟩
    cases a with
    | error e => exact self.broken_obeys apiKeyId key
    | ok _ =>
      have passed : (self.pass apiKeyId key fingerprint (.response r) : Gen
          (redisI.sum operationI) Exn ChatStreamEvent Unit).Obeys
          (self.streamProtocol apiKeyId key)
          (fun o s => s = match o with | .ok _ => .ended | .error _ => .parking) .delivering := by
        have given : (Gen.yield (.response r) : Gen (redisI.sum operationI) Exn ChatStreamEvent
            Unit).Obeys (self.streamProtocol apiKeyId key)
            (fun o s => s = match o with | .ok _ => .delivering | .error _ => .parking)
            .delivering := by
          refine self.yield_obeys apiKeyId key trivial fun a => ?_
          cases a <;> rfl
        refine given.bind (fun _ s hs => ?_) (fun _ _ hs => hs)
        rw [hs]
        exact (self.store.complete_delivering apiKeyId key r).inl.inl
      refine passed.attempt_bind fun o s hs => ?_
      rw [hs]
      cases o with
      | ok _ => trivial
      | error e => exact self.stopped_obeys apiKeyId key rfl

theorem replayStream_obeys (body : Option ResponseBody) :
    (replayStream body : Gen (redisI.sum operationI) Exn ChatStreamEvent Unit).Obeys
      (self.streamProtocol apiKeyId key) (fun _ _ => True) .refused := by
  unfold replayStream
  cases deserialize body with
  | error e => trivial
  | ok response =>
    have given : ∀ event, (Gen.yield event : Gen (redisI.sum operationI) Exn ChatStreamEvent
        Unit).Obeys (self.streamProtocol apiKeyId key) (fun o s => o = .ok () → s = .refused)
        .refused := by
      intro event
      refine self.yield_obeys apiKeyId key trivial fun a => ?_
      cases a with
      | ok _ => exact fun _ => rfl
      | error e => exact fun h => by cases h
    have before : (if response.content = "" then pure () else Gen.yield (.delta response.content) :
        Gen (redisI.sum operationI) Exn ChatStreamEvent Unit).Obeys
        (self.streamProtocol apiKeyId key) (fun o s => o = .ok () → s = .refused) .refused := by
      split
      · exact fun _ => rfl
      · exact given _
    refine before.bind (fun _ s hs => ?_) (fun _ _ _ => trivial)
    rw [hs rfl]
    exact (given _).mono fun _ _ _ => trivial

theorem executeStream_obeys (request : ChatRequest) :
    (self.executeStream apiKeyId key request
      ((@Prog.perform operationI Exn .prime).bind fun upcoming => .ret (primed upcoming))).Obeys
      (self.protocol apiKeyId key)
      (fun o s => ∀ events, o = .ok events → (s = .refused ∧ ∃ body, events = replayStream body) ∨
        ∃ upcoming, s = .streaming upcoming ∧
          events = self.settle apiKeyId key (self.fingerprint request) (primed upcoming))
      .claiming := by
  refine self.reserve_bind_obeys apiKeyId key (fun outcome ha => ?_) (fun outcome ha => ?_)
  · rw [if_pos ha]
    have asked : (((@Prog.perform operationI Exn .prime).bind fun upcoming =>
        .ret (primed upcoming)).inr.tryExcept
          (self.unserved apiKeyId key (self.fingerprint request))).Obeys (self.protocol apiKeyId key)
          (fun o s => ∀ events, o = .ok events → ∃ upcoming, s = .streaming upcoming ∧
            events = primed upcoming) .running :=
      self.operation_obeys apiKeyId key (.inr rfl) (fun _ => rfl) (fun _ => rfl)
        (fun upcoming => ⟨upcoming, rfl, rfl⟩)
    refine asked.bind (fun events s hs => ?_) (fun _ _ _ _ h => by cases h)
    obtain ⟨upcoming, hs, he⟩ := hs events rfl
    intro events' h
    cases h
    exact .inr ⟨upcoming, hs, by rw [he]⟩
  · rw [if_neg (Bool.not_eq_true _ ▸ ha)]
    cases refuse (self.fingerprint request) outcome with
    | error e => exact fun _ h => by cases h
    | ok body =>
      intro events h
      cases h
      exact .inl ⟨rfl, body, rfl⟩

theorem buffered_obeys (request : ChatRequest) :
    (self.buffered apiKeyId key request).Obeys (self.streamProtocol apiKeyId key)
      (fun _ _ => True) .claiming := by
  refine (self.execute_obeys apiKeyId key request).inl.bind (fun r s hs => ?_) (fun _ _ _ => trivial)
  rcases hs r rfl with rfl | rfl <;> exact self.yield_obeys apiKeyId key trivial fun _ => trivial

theorem streamed_obeys (request : ChatRequest) :
    (self.streamed apiKeyId key request).Obeys (self.streamProtocol apiKeyId key)
      (fun _ _ => True) .claiming := by
  refine (self.executeStream_obeys apiKeyId key request).inl.bind (fun events s hs => ?_)
    (fun _ _ _ => trivial)
  rcases hs events rfl with ⟨rfl, body, rfl⟩ | ⟨upcoming, rfl, rfl⟩
  · refine ⟨rfl, fun a _ => ?_⟩
    cases a with
    | ok _ => exact self.replayStream_obeys apiKeyId key body
    | error e => trivial
  · refine ⟨.inl rfl, fun a _ => ?_⟩
    cases a with
    | ok _ => exact self.settle_obeys apiKeyId key upcoming
    | error e => trivial

/-- Every call follows the protocol on its key. -/
theorem call_obeys (c : KeyedCall) :
    (self.call apiKeyId key c).Obeys (self.store.claims (redisKey apiKeyId key))
      (fun _ _ => True) .claiming := by
  unfold call
  split
  · exact (self.streamed_obeys apiKeyId key c.request).assoc
  · exact (self.buffered_obeys apiKeyId key c.request).assoc

/-- And so it asks the store about that key only. -/
theorem call_named (c : KeyedCall) : (self.call apiKeyId key c).Asks (Named callI (redisKey apiKeyId key)) := by
  refine Prog.Asks.of_obeys (self.call_obeys apiKeyId key c) (fun _ _ => trivial) fun q c hc => ?_
  obtain c | c := c
  · cases q with
    | claiming =>
      obtain ⟨_, rfl⟩ := hc
      rfl
    | reading =>
      obtain rfl := hc
      rfl
    | answered | delivering | parking =>
      obtain ⟨_, _, rfl⟩ := hc
      rfl
    | releasing =>
      obtain rfl := hc
      rfl
    | _ => exact hc.elim
  · trivial

end IdempotencyService
end Relayix
