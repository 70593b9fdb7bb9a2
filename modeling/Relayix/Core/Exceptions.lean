import Mathlib.Algebra.Order.Ring.Rat
import Relayix.Domain.Chat
import Relayix.Library.Generator

/-! The exceptions that cross the modelled code (`core/exceptions.py`,
`services/exceptions.py`, `infra/global_exceptions.py`) and those of Python and
redis that its `except` clauses name.

An `except` clause is a predicate here, so a subclass is matched by the clauses of
its bases: an open circuit is unavailable, an interrupted stream is ambiguous, a
timeout is an `OSError`, and only cancellation, `GeneratorExit` and the like are
not an `Exception`. -/
namespace Relayix
open Library

inductive Exn where
  | upstreamUnavailable (message : String)
  | circuitOpen (message : String)
  | upstreamAmbiguous (message : String)
  | upstreamStreamInterrupted (message : String) (partialResponse : Option ChatResponse)
  | adapterNotRegistered (message : String)
  | providerNotAvailable (message : String)
  | pricingRateNotFound (message : String)
  | rateLimitExceeded (retryAfterS : ℚ) (message : String)
  | rateLimiterUnavailable (message : String)
  | idempotencyKeyConflict (message : String)
  | idempotencyInProgress (message : String)
  | idempotencyOutcomeUnknown (message : String)
  | idempotencyStoreUnavailable (message : String)
  | redisError (message : String)
  | osError (message : String)
  | timeoutError (message : String)
  | keyError (message : String)
  | valueError (message : String)
  | runtimeError (message : String)
  /-- any other `Exception` -/
  | exception (name message : String)
  | cancelledError
  | generatorExit
  /-- any other `BaseException` -/
  | baseException (name : String)
  deriving DecidableEq

namespace Exn

/-- `except Exception` -/
def isException : Exn → Bool
  | .cancelledError | .generatorExit | .baseException _ => false
  | _ => true

/-- `except UpstreamUnavailable` -/
def isUpstreamUnavailable : Exn → Bool
  | .upstreamUnavailable _ | .circuitOpen _ => true
  | _ => false

/-- `except UpstreamAmbiguous` -/
def isUpstreamAmbiguous : Exn → Bool
  | .upstreamAmbiguous _ | .upstreamStreamInterrupted _ _ => true
  | _ => false

/-- `except UpstreamError` -/
def isUpstreamError (e : Exn) : Bool := e.isUpstreamUnavailable || e.isUpstreamAmbiguous

/-- `except (IndexError, AttributeError, TypeError)` -/
def isMalformed : Exn → Bool
  | .exception name _ => name = "IndexError" || name = "AttributeError" || name = "TypeError"
  | _ => false

/-- `except RateLimitExceeded` -/
def isRateLimitExceeded : Exn → Bool
  | .rateLimitExceeded _ _ => true
  | _ => false

/-- `except RateLimiterUnavailable` -/
def isRateLimiterUnavailable : Exn → Bool
  | .rateLimiterUnavailable _ => true
  | _ => false

/-- `except TimeoutError` -/
def isTimeout : Exn → Bool
  | .timeoutError _ => true
  | _ => false

/-- `except (RedisError, OSError)` -/
def isStoreFailure : Exn → Bool
  | .redisError _ | .osError _ | .timeoutError _ => true
  | _ => false

/-- `str(exc)` -/
def str : Exn → String
  | .upstreamUnavailable m | .circuitOpen m | .upstreamAmbiguous m
  | .upstreamStreamInterrupted m _ | .adapterNotRegistered m | .providerNotAvailable m
  | .pricingRateNotFound m | .rateLimitExceeded _ m | .rateLimiterUnavailable m
  | .idempotencyKeyConflict m | .idempotencyInProgress m | .idempotencyOutcomeUnknown m
  | .idempotencyStoreUnavailable m | .redisError m | .osError m | .timeoutError m | .keyError m
  | .valueError m | .runtimeError m | .exception _ m => m
  | .cancelledError | .generatorExit | .baseException _ => ""

instance : AsyncError Exn where
  generatorExit := .generatorExit
  isGeneratorExit e := e = .generatorExit
  raisedStop := .runtimeError "async generator raised StopAsyncIteration"
  ignoredExit := .runtimeError "async generator ignored GeneratorExit"
  exit_eq e := by simp

/-- No exception is both: what provably never ran is not in doubt. -/
theorem not_ambiguous_of_unavailable {e : Exn} (h : e.isUpstreamUnavailable = true) :
    e.isUpstreamAmbiguous = false := by
  cases e with
  | upstreamUnavailable _ => rfl
  | circuitOpen _ => rfl
  | _ => exact absurd h Bool.false_ne_true

end Exn

/-- The steps of what went through. -/
theorem ok_of_bind {α β : Type} {x : Except Exn α} {f : α → Except Exn β} {b : β} (h : x.bind f = .ok b) :
    ∃ a, x = .ok a ∧ f a = .ok b := by
  cases x with
  | error e => cases h
  | ok a => exact ⟨a, rfl, h⟩

end Relayix
