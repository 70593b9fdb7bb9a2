import Mathlib.Algebra.Group.Nat.Defs

/-! The values that travel through the gateway (`models/domain/chat.py`,
`models/domain/enums.py`, and the candidates of `core/routing/strategies.py`). -/
namespace Relayix

inductive ProviderEnum where
  | anthropic
  | openai
  deriving DecidableEq, Repr

def ProviderEnum.value : ProviderEnum → String
  | .anthropic => "anthropic"
  | .openai => "openai"

/-- `ProviderEnum(value)`, where the value is one of the two. -/
def ProviderEnum.ofValue? (value : String) : Option ProviderEnum :=
  if value = ProviderEnum.anthropic.value then some .anthropic
  else if value = ProviderEnum.openai.value then some .openai
  else none

@[simp] theorem ProviderEnum.ofValue?_value (p : ProviderEnum) : ofValue? p.value = some p := by
  cases p <;> decide

/-- How to treat an ambiguous upstream failure. -/
inductive FailoverPolicy where
  | atMostOnce
  | atLeastOnce
  deriving DecidableEq, Repr

/-- Lifecycle of an idempotency record in the store. -/
inductive IdempotencyStatus where
  | inProgress
  | completed
  | ambiguous
  deriving DecidableEq, Repr

def IdempotencyStatus.value : IdempotencyStatus → String
  | .inProgress => "in_progress"
  | .completed => "completed"
  | .ambiguous => "ambiguous"

structure Message where
  role : String
  content : String
  deriving DecidableEq, Repr

structure ChatRequest where
  model : String
  messages : List Message
  maxTokens : Option Int := none
  failoverPolicy : FailoverPolicy := .atMostOnce
  deriving DecidableEq, Repr

structure ChatResponse where
  provider : ProviderEnum
  model : String
  content : String
  tokensIn : Int
  tokensOut : Int
  finishReason : String
  requestId : String
  deriving DecidableEq, Repr

/-- A delta, or the terminal response. -/
inductive ChatStreamEvent where
  | delta (content : String)
  | response (r : ChatResponse)
  deriving DecidableEq, Repr

structure Candidate where
  provider : ProviderEnum
  model : String
  deriving DecidableEq, Repr

structure UUID where
  bits : BitVec 128
  deriving DecidableEq, Repr

namespace UUID

/-- The 32 hexadecimal digits, most significant first. -/
def hex (u : UUID) : List Char :=
  (List.range 32).map fun i => Nat.digitChar (u.bits.toNat / 16 ^ (31 - i) % 16)

/-- `str(uuid)`: digits in groups of 8, 4, 4, 4 and 12. -/
def str (u : UUID) : String :=
  let d := u.hex
  String.ofList (d.take 8 ++ '-' :: (d.drop 8).take 4 ++ '-' :: (d.drop 12).take 4 ++
    '-' :: (d.drop 16).take 4 ++ '-' :: d.drop 20)

end UUID
end Relayix
