import Relayix.Core.Exceptions

/-! The gateway (`services/gateway_service.py`).

Routing, the adapters and the usage recorder are parameters: a router that may
refuse the tier, a registry in which a provider may be missing, adapters that are
programs over any interface. A request is tried candidate by candidate, so each loop
is a recursion on the ranked list; its state is the last ambiguity, all that the
code keeps for the end (`last_error` only chains exceptions and is logged). -/
namespace Relayix
open Library

/-- `ProviderAdapter` -/
structure ProviderAdapter (A : Interface) where
  complete : ChatRequest → Prog A Exn ChatResponse
  stream : ChatRequest → Gen A Exn ChatStreamEvent Unit

inductive RecorderCmd where
  | record (apiKeyId : UUID) (response : ChatResponse)
  deriving DecidableEq

@[reducible] def recorderI : Interface := ⟨RecorderCmd, fun _ => Unit⟩

structure GatewayService (A : Interface) where
  /-- `none` where `get` raises `AdapterNotRegistered` -/
  registry : ProviderEnum → Option (ProviderAdapter A)
  candidatesFor : String → Except Exn (List Candidate)

namespace GatewayService
variable {A : Interface} (self : GatewayService A) (request : ChatRequest) (apiKeyId : UUID)

/-- `await self._recorder.record(api_key_id, response)` -/
def record (response : ChatResponse) : Prog (A.sum recorderI) Exn Unit :=
  @Prog.perform (A.sum recorderI) Exn (.inr (.record apiKeyId response))

/-- The provider gets its own model name, not the tier alias. -/
def upstream (candidate : Candidate) : ChatRequest := { request with model := candidate.model }

def providerNotAvailable : Exn := .providerNotAvailable "Provider not available"

/-- Whether a candidate's exception lets the next candidate be tried. -/
def failsOver (e : Exn) : Bool :=
  e.isUpstreamUnavailable || (e.isUpstreamAmbiguous && request.failoverPolicy = .atLeastOnce)

/-- `ambiguous_error` after a candidate's exception. -/
def remember (ambiguousError : Option Exn) (e : Exn) : Option Exn :=
  if e.isUpstreamUnavailable then ambiguousError
  else if e.isUpstreamAmbiguous then some e else ambiguousError

/-- The loop of `complete`. -/
def tryComplete (ambiguousError : Option Exn) :
    List Candidate → Prog (A.sum recorderI) Exn ChatResponse
  | [] => .raise (ambiguousError.getD providerNotAvailable)
  | candidate :: rest =>
    match self.registry candidate.provider with
    | none => tryComplete ambiguousError rest
    | some adapter => do
      match ← (adapter.complete (upstream request candidate)).inl.attempt with
      | .error e =>
        if failsOver request e then tryComplete (remember ambiguousError e) rest else .raise e
      | .ok response =>
        record apiKeyId response
        pure response

def complete : Prog (A.sum recorderI) Exn ChatResponse := do
  let candidates ← .ofExcept (self.candidatesFor request.model)
  self.tryComplete request apiKeyId none candidates

/-! ### Streams -/

/-- `_drain`'s handler: a partial response is billed before the exception goes on. -/
def interrupted : Exn → Gen (A.sum recorderI) Exn ChatStreamEvent Unit
  | .upstreamStreamInterrupted message (some r) => do
    (record apiKeyId r).inl
    .raise (.upstreamStreamInterrupted message (some r))
  | e => .raise e

/-- One turn of `_drain`, with the adapter's generator suspended at `streamIter` and
`rest` to be run when the consumer asks for more. Wherever `_drain` ends here, it
drops the suspended generator, which Python then finalises. -/
def emit (event : ChatStreamEvent)
    (streamIter : Except Exn Unit → Gen A Exn ChatStreamEvent Unit)
    (rest : Gen (A.sum recorderI) Exn ChatStreamEvent Unit) :
    Gen (A.sum recorderI) Exn ChatStreamEvent Unit :=
  match event with
  | .response r =>
    Prog.tryFinally
      (Prog.tryExcept
        (do
          (record apiKeyId r).inl
          Gen.yield (.response r))
        (interrupted apiKeyId))
      (Gen.finalise streamIter).inl.inl
  | .delta c => do
    match ← (Gen.yield (.delta c)).attempt with
    | .ok () => rest
    | .error e => (interrupted apiKeyId e).tryFinally (Gen.finalise streamIter).inl.inl

/-- `_drain` from its next `anext(stream_iter)` on. -/
def forward : Gen A Exn ChatStreamEvent Unit → Gen (A.sum recorderI) Exn ChatStreamEvent Unit
  -- `StopAsyncIteration` escapes from the generator's body
  | .ret _ => .raise AsyncError.raisedStop
  | .raise e => interrupted apiKeyId e
  | .await (.inl c) k => .await (.inl (.inl c)) (fun a => forward (k a))
  | .await (.inr event) k => emit apiKeyId event k (forward (k (.ok ())))

/-- `_drain` -/
def drain (streamIter : Except Exn Unit → Gen A Exn ChatStreamEvent Unit)
    (firstEvent : ChatStreamEvent) : Gen (A.sum recorderI) Exn ChatStreamEvent Unit :=
  emit apiKeyId firstEvent streamIter (forward apiKeyId (streamIter (.ok ())))

/-- The loop of `stream`, which returns the generator of a committed candidate. -/
def tryStream (ambiguousError : Option Exn) :
    List Candidate → Prog (A.sum recorderI) Exn (Gen (A.sum recorderI) Exn ChatStreamEvent Unit)
  | [] => .raise (ambiguousError.getD providerNotAvailable)
  | candidate :: rest =>
    match self.registry candidate.provider with
    | none => tryStream ambiguousError rest
    | some adapter => do
      match ← (adapter.stream (upstream request candidate)).anext.inl.attempt with
      -- a stream without events, treated as if it produced nothing
      | .ok none => tryStream ambiguousError rest
      | .ok (some (firstEvent, streamIter)) => pure (drain apiKeyId streamIter firstEvent)
      | .error e =>
        if failsOver request e then tryStream (remember ambiguousError e) rest else .raise e

def stream : Prog (A.sum recorderI) Exn (Gen (A.sum recorderI) Exn ChatStreamEvent Unit) := do
  let candidates ← .ofExcept (self.candidatesFor request.model)
  self.tryStream request apiKeyId none candidates

end GatewayService
end Relayix
