import Relayix.Core.Exceptions
import Relayix.Library.Decimal

/-! How an exception is shown to a client (`infra/global_exceptions.py`, the handlers of `main.py`).

Only an `AppError` has a body of its own; `errorCode` is `none` for everything else. -/
namespace Relayix
open Library

/-- `round(x, 3)` -/
def round3 (x : ℚ) : ℚ := roundHalfEven (x * 1000) / 1000

/-- The `AppError` classes that are `Exn.exception`s by name here, with their codes. -/
def otherAppErrors : List (String × String) :=
  [("CounterNotRegistered", "COUNTER_NOT_REGISTERED"),
    ("Unauthorized", "UNAUTHORIZED"),
    ("InvalidModelName", "INVALID_MODEL_NAME"),
    ("InvalidToken", "INVALID_TOKEN"),
    ("InvalidTokenPrice", "INVALID_TOKEN_PRICE"),
    ("InvalidTokenQuantity", "INVALID_TOKEN_QUANTITY"),
    ("InvalidFinishReason", "INVALID_FINISH_REASON"),
    ("InvalidUsageCost", "INVALID_USAGE_COST"),
    ("InvalidApiKeyName", "INVALID_API_KEY_NAME"),
    ("InvalidRateLimit", "INVALID_RATE_LIMIT"),
    ("InvalidTokenQuota", "INVALID_TOKEN_QUOTA"),
    ("ApiKeyNotFound", "API_KEY_NOT_FOUND")]

structure ErrorBody where
  errorCode : String
  message : String
  retryAfterS : Option ℚ := none
  deriving DecidableEq

namespace Exn

/-- `error_code`, of an `AppError` -/
def errorCode : Exn → Option String
  | .upstreamUnavailable _ => some "UPSTREAM_UNAVAILABLE"
  | .circuitOpen _ => some "CIRCUIT_OPEN"
  | .upstreamAmbiguous _ | .upstreamStreamInterrupted _ _ => some "UPSTREAM_AMBIGUOUS"
  | .adapterNotRegistered _ => some "ADAPTER_NOT_REGISTERED"
  | .providerNotAvailable _ => some "PROVIDER_NOT_AVAILABLE"
  | .pricingRateNotFound _ => some "PRICING_RATE_NOT_FOUND"
  | .rateLimitExceeded _ _ => some "RATE_LIMITED"
  | .rateLimiterUnavailable _ => some "RATE_LIMITER_UNAVAILABLE"
  | .idempotencyKeyConflict _ => some "IDEMPOTENCY_KEY_CONFLICT"
  | .idempotencyInProgress _ => some "IDEMPOTENCY_IN_PROGRESS"
  | .idempotencyOutcomeUnknown _ => some "IDEMPOTENCY_OUTCOME_UNKNOWN"
  | .idempotencyStoreUnavailable _ => some "IDEMPOTENCY_STORE_UNAVAILABLE"
  | .exception name _ => otherAppErrors.lookup name
  | .redisError _ | .osError _ | .timeoutError _ | .keyError _ | .valueError _ | .runtimeError _ => none
  | .cancelledError | .generatorExit | .baseException _ => none

/-- The field that `RateLimitExceeded` adds to its body. -/
def retryAfterS : Exn → Option ℚ
  | .rateLimitExceeded s _ => some (round3 s)
  | _ => none

/-- `exc.to_dict()`, of an `AppError` -/
def toDict (e : Exn) : Option ErrorBody :=
  e.errorCode.map fun code => ⟨code, e.str, e.retryAfterS⟩

end Exn

structure JSONResponse where
  statusCode : Nat
  content : ErrorBody
  headers : List (String × String)
  deriving DecidableEq

/-- `handle_rate_limited(request, exc)`, which is called for a `RateLimitExceeded` only. -/
def handleRateLimited (exc : Exn) : Option JSONResponse :=
  match exc with
  | .rateLimitExceeded retryAfterS _ =>
    exc.toDict.map fun content => ⟨429, content, [("Retry-After", toString ⌈retryAfterS⌉)]⟩
  | _ => none

end Relayix
