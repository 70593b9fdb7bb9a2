import Relayix.Core.Exceptions
import Relayix.Core.Resilience.Callers

/-! A provider behind its breaker (`core/resilience/resilient_adapter.py`).

The inner adapter is outside: what it answers is arbitrary. A stall longer than
`timeout_s` and a cancellation while it is awaited arrive as the exception Python
raises there, `TimeoutError` or `CancelledError`. Opening a stream runs nothing by
itself, so an inner adapter that fails at once does so in the first `__anext__`. -/
namespace Relayix
open Library

inductive ProviderCmd where
  | complete (request : ChatRequest)
  | stream (request : ChatRequest)
  | aclose
  deriving DecidableEq

@[reducible] def providerI : Interface where
  Cmd := ProviderCmd
  Ans
    | .complete _ => ChatResponse
    | .stream _ => Source Exn ChatStreamEvent
    | .aclose => Unit

/-- Its breaker, and the provider. -/
@[reducible] def adapterI : Interface := breakerI.sum providerI

def provider (c : ProviderCmd) : Prog adapterI Exn (providerI.Ans c) :=
  @Prog.perform adapterI Exn (.inr c)

structure ResilientAdapter where
  provider : ProviderEnum
  /-- `timeout_s`, as messages show it -/
  timeoutS : String

namespace ResilientAdapter
variable (self : ResilientAdapter)

def circuitOpen : Exn := .circuitOpen s!"circuit open for provider {self.provider.value}"

def timedOut : Exn := .upstreamAmbiguous s!"{self.provider.value} timed out after {self.timeoutS}s"

def stalled : Exn :=
  .upstreamStreamInterrupted s!"{self.provider.value} stalled mid-stream after {self.timeoutS}s" none

/-- The handlers of `complete`: a timeout is ambiguous, not safe to retry blindly. -/
def completeFailed (generation : Nat) (e : Exn) : Prog adapterI Exn ChatResponse :=
  if e.isTimeout then do
    report .failure generation
    .raise self.timedOut
  else if e.isException then do
    report .failure generation
    .raise e
  else do
    report .abort generation
    .raise e

def complete (request : ChatRequest) : Prog adapterI Exn ChatResponse := do
  let (allowed, generation) ← allow
  if allowed then
    let response ← (Relayix.provider (.complete request)).tryExcept (self.completeFailed generation)
    report .success generation
    pure response
  else .raise self.circuitOpen

/-- The `while True` of `stream`. -/
def relay (generation : Nat) : Bool → Source Exn ChatStreamEvent → Gen adapterI Exn ChatStreamEvent Unit
  | _, .item (.response r) _ => do
    Gen.yield (.response r)
    (report .success generation).inl
  | _, .item (.delta c) rest => do
    Gen.yield (.delta c)
    relay generation true rest
  | emittedAny, .raise e =>
    if e.isTimeout then .raise (if emittedAny then self.stalled else self.timedOut) else .raise e
  | _, .stop => pure ()

/-- The handlers around it: an `Exception` counts as a failure, anything else as an abort. -/
def failed (generation : Nat) (e : Exn) : Gen adapterI Exn ChatStreamEvent Unit := do
  (if e.isException then report .failure generation else report .abort generation).inl
  .raise e

def stream (request : ChatRequest) : Gen adapterI Exn ChatStreamEvent Unit := do
  let (allowed, generation) ← allow.inl
  if allowed then
    let source ← (Relayix.provider (.stream request)).inl.attempt
    ((self.relay generation false (opened source)).tryExcept (failed generation)).tryFinally
      (Relayix.provider .aclose).inl
  else .raise self.circuitOpen

end ResilientAdapter
end Relayix
