import Relayix.Infra.GlobalExceptions
import Relayix.Services.Gateway
import Relayix.Services.Idempotency

/-! The endpoint `POST /v1/chat/completions` (`api/v1/chat.py`, `api/v1/schemas/chat.py`).

A streamed request is answered by the frames of `_encode_sse`, whose text is not modelled here:
a frame is its event name, one constructor for each, with the data it carries. The schema of a
request holds what its validation has already checked. -/
namespace Relayix
open Library

/-! ### Schemas -/

structure MessageSchema where
  role : String
  content : String
  knownRole : role ∈ ["system", "user", "assistant"]
  nonempty : content ≠ ""

def MessageSchema.toDomain (m : MessageSchema) : Message := ⟨m.role, m.content⟩

structure ChatRequestSchema where
  model : String
  messages : List MessageSchema
  maxTokens : Option Int := none
  failoverPolicy : FailoverPolicy := .atMostOnce
  stream : Bool := false
  named : model ≠ ""
  nonempty : messages ≠ []
  positive : ∀ n, maxTokens = some n → 0 < n

def ChatRequestSchema.toDomain (payload : ChatRequestSchema) : ChatRequest where
  model := payload.model
  messages := payload.messages.map MessageSchema.toDomain
  maxTokens := payload.maxTokens
  failoverPolicy := payload.failoverPolicy

structure ChatResponseSchema where
  provider : ProviderEnum
  model : String
  content : String
  tokensIn : Int
  tokensOut : Int
  finishReason : String
  requestId : String
  deriving DecidableEq

def ChatResponseSchema.fromDomain (response : ChatResponse) : ChatResponseSchema where
  provider := response.provider
  model := response.model
  content := response.content
  tokensIn := response.tokensIn
  tokensOut := response.tokensOut
  finishReason := response.finishReason
  requestId := response.requestId

/-! ### Frames -/

/-- One frame of the body. -/
inductive Frame where
  | delta (content : String)
  | done (body : ChatResponseSchema)
  | error (body : ErrorBody)
  deriving DecidableEq

namespace Chat

/-- The frame of an event. -/
def frame : ChatStreamEvent → Frame
  | .delta c => .delta c
  | .response r => .done (.fromDomain r)

def fallback : ErrorBody := ⟨"INTERNAL_ERROR", "Internal server error", none⟩

/-- The frame that tells of an exception; one that is no `Exception` has none. -/
def errorFrame (e : Exn) : Option Frame :=
  match e.toDict with
  | some body => some (.error body)
  | none => if e.isException then some (.error fallback) else none

variable {I : Interface}

/-- The handlers of `_encode_sse`. -/
def handled (e : Exn) : Gen I Exn Frame Unit :=
  match errorFrame e with
  | some f => Gen.yield f
  | none => .raise e

/-- `_encode_sse`. Where an exception is thrown in at a frame, the events are dropped. -/
def encodeSse : Gen I Exn ChatStreamEvent Unit → Gen I Exn Frame Unit
  | .ret _ => .ret ()
  | .raise e => handled e
  | .await (.inl c) k => .await (.inl c) (fun a => encodeSse (k a))
  | .await (.inr event) k => do
    match ← (Gen.yield (frame event)).attempt with
    | .ok () => encodeSse (k (.ok ()))
    | .error e => (handled e).tryFinally (Gen.finalise k).inl

/-! ### The endpoint -/

/-- The body of a response: a stream of frames, or one JSON object. -/
inductive Completion (I : Interface) where
  | streaming (body : Gen I Exn Frame Unit)
  | json (body : ChatResponseSchema)

section Endpoint
variable {A : Interface} (payload : ChatRequestSchema) (service : GatewayService A) (apiKeyId : UUID)
  (idempotency : IdempotencyService) (idempotencyKey : Option String)

/-- The commands of a request: those of the store, and those of the gateway. -/
abbrev requestI (A : Interface) : Interface := redisI.sum (A.sum recorderI)

/-- The events of a streamed request; without a key the store is not asked. -/
def events : Prog (requestI A) Exn (Gen (requestI A) Exn ChatStreamEvent Unit) :=
  match idempotencyKey with
  | none => do
    let served ← (service.stream payload.toDomain apiKeyId).inr
    pure served.among
  | some key => idempotency.executeStream apiKeyId key payload.toDomain (service.stream payload.toDomain apiKeyId)

/-- The result of a buffered request. -/
def result : Prog (requestI A) Exn ChatResponse :=
  match idempotencyKey with
  | none => (service.complete payload.toDomain apiKeyId).inr
  | some key => idempotency.execute apiKeyId key payload.toDomain (service.complete payload.toDomain apiKeyId)

def createCompletion : Prog (requestI A) Exn (Completion (requestI A)) :=
  if payload.stream then do
    let events ← events payload service apiKeyId idempotency idempotencyKey
    pure (.streaming (encodeSse events))
  else do
    let result ← result payload service apiKeyId idempotency idempotencyKey
    pure (.json (.fromDomain result))

end Endpoint
end Chat
end Relayix
