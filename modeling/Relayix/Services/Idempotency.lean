import Relayix.Infra.Idempotency.RedisStore

/-! The idempotency service (`services/idempotency_service.py`).

The operation is a program over any interface, so the service is written once for
every operation: `execute` wraps one that answers, `executeStream` one that returns a
primed generator. `_settle` iterates that generator, so it is a recursion on it. The
hash of a request body is a parameter: what it is applied to is the `Payload`. -/
namespace Relayix
open Library

/-- What a request body contributes to its fingerprint. -/
structure Payload where
  model : String
  messages : List Message
  maxTokens : Option Int
  deriving DecidableEq

structure IdempotencyService where
  store : RedisIdempotencyStore
  /-- `sha256` of the canonical JSON text, in hexadecimal -/
  digest : Payload → String

def idempotencyKeyConflict : Exn :=
  .idempotencyKeyConflict "Idempotency-Key was already used for a different request"

def idempotencyInProgress : Exn :=
  .idempotencyInProgress "A request with this Idempotency-Key is still being processed"

/-- The recorded failure is appended where there is one. -/
def idempotencyOutcomeUnknown (detail : Option String) : Exn :=
  let message :=
    "A previous request with this Idempotency-Key may already have been " ++
      "executed by the provider, so it will not be retried automatically. " ++
      "Use a new Idempotency-Key to issue a new request."
  match detail with
  | none | some "" => .idempotencyOutcomeUnknown message
  | some detail => .idempotencyOutcomeUnknown (message ++ " Original failure: " ++ detail)

namespace IdempotencyService

/-- `_serialize` -/
def serialize (response : ChatResponse) : ResponseBody where
  provider := response.provider.value
  model := response.model
  content := response.content
  tokensIn := response.tokensIn
  tokensOut := response.tokensOut
  finishReason := response.finishReason
  requestId := response.requestId

/-- `_deserialize(body or {})`: without a body the first field is already missing. -/
def deserialize : Option ResponseBody → Except Exn ChatResponse
  | none => .error (.keyError "'provider'")
  | some body =>
    match ProviderEnum.ofValue? body.provider with
    | none => .error (.valueError ("'" ++ body.provider ++ "' is not a valid ProviderEnum"))
    | some provider =>
      .ok
        { provider
          model := body.model
          content := body.content
          tokensIn := body.tokensIn
          tokensOut := body.tokensOut
          finishReason := body.finishReason
          requestId := body.requestId }

/-- What was stored comes back. -/
@[simp] theorem deserialize_serialize (response : ChatResponse) :
    deserialize (some (serialize response)) = .ok response := by
  simp [deserialize, serialize]

/-- A key that was already claimed: the stored body, or the refusal. -/
def refuse (fingerprint : String) (outcome : ReservationOutcome) :
    Except Exn (Option ResponseBody) :=
  if outcome.requestFingerprint ≠ some fingerprint then .error idempotencyKeyConflict
  else if outcome.status = some IdempotencyStatus.completed.value then .ok outcome.responseBody
  else if outcome.status = some IdempotencyStatus.ambiguous.value then
    .error (idempotencyOutcomeUnknown outcome.error)
  else .error idempotencyInProgress

variable {J : Interface} (self : IdempotencyService) (apiKeyId : UUID) (key : String)

/-- `_fingerprint` -/
def fingerprint (request : ChatRequest) : String :=
  self.digest ⟨request.model, request.messages, request.maxTokens⟩

/-- The handlers around the operation: an ambiguity is parked, and anything else releases
the key. -/
def unserved {α : Type} (fingerprint : String) (e : Exn) : Prog (redisI.sum J) Exn α :=
  if e.isUpstreamAmbiguous then do
    (self.store.markAmbiguous apiKeyId key fingerprint e.str).inl
    .raise e
  else do
    (RedisIdempotencyStore.release apiKeyId key).inl
    .raise e

def execute (request : ChatRequest) (operation : Prog J Exn ChatResponse) :
    Prog (redisI.sum J) Exn ChatResponse := do
  let fingerprint := self.fingerprint request
  let outcome ← (self.store.reserve apiKeyId key fingerprint).inl
  if outcome.acquired then
    let response ← operation.inr.tryExcept (self.unserved apiKeyId key fingerprint)
    (self.store.complete apiKeyId key fingerprint (serialize response)).inl
    pure response
  else
    let body ← .ofExcept (refuse fingerprint outcome)
    .ofExcept (deserialize body)

/-! ### Streams -/

/-- The event goes to the consumer; a terminal response is then stored. -/
def pass (fingerprint : String) (event : ChatStreamEvent) :
    Gen (redisI.sum J) Exn ChatStreamEvent Unit := do
  Gen.yield event
  match event with
  | .delta _ => pure ()
  | .response r => (self.store.complete apiKeyId key fingerprint (serialize r)).inl.inl

/-- `_settle`'s handler: a break in the stream is never safe to release for retry. -/
def broken (fingerprint : String) (e : Exn) : Gen (redisI.sum J) Exn ChatStreamEvent Unit := do
  (self.store.markAmbiguous apiKeyId key fingerprint e.str).inl.inl
  .raise e

/-- `_settle`: `aclose()` in its `finally` does nothing to a generator that has ended. -/
def settle (fingerprint : String) :
    Gen J Exn ChatStreamEvent Unit → Gen (redisI.sum J) Exn ChatStreamEvent Unit
  | .ret _ => .ret ()
  | .raise e => self.broken apiKeyId key fingerprint e
  | .await (.inl c) k => .await (.inl (.inr c)) (fun a => settle fingerprint (k a))
  | .await (.inr event) k => do
    match ← (self.pass apiKeyId key fingerprint event).attempt with
    | .ok () => settle fingerprint (k (.ok ()))
    | .error e => (self.broken apiKeyId key fingerprint e).tryFinally (Gen.aclose k).inr.inl

/-- `_replay_stream` -/
def replayStream (body : Option ResponseBody) : Gen (redisI.sum J) Exn ChatStreamEvent Unit := do
  let response ← .ofExcept (deserialize body)
  (if response.content = "" then pure () else Gen.yield (.delta response.content))
  Gen.yield (.response response)

def executeStream (request : ChatRequest)
    (operation : Prog J Exn (Gen J Exn ChatStreamEvent Unit)) :
    Prog (redisI.sum J) Exn (Gen (redisI.sum J) Exn ChatStreamEvent Unit) := do
  let fingerprint := self.fingerprint request
  let outcome ← (self.store.reserve apiKeyId key fingerprint).inl
  if outcome.acquired then
    let primed ← operation.inr.tryExcept (self.unserved apiKeyId key fingerprint)
    pure (self.settle apiKeyId key fingerprint primed)
  else
    let body ← .ofExcept (refuse fingerprint outcome)
    pure (replayStream body)

end IdempotencyService
end Relayix
