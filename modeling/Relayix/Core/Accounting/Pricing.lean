import Relayix.Core.Exceptions
import Relayix.Library.Decimal

/-! Pricing (`core/accounting/pricing.py`, `models/domain/pricing_rate.py`).

A rate can only be made by `create`, so a `PricingRate` holds what was checked there. Amounts
are decimals, in Python's default context. -/
namespace Relayix
open Library

/-- An aware `datetime`, in microseconds. -/
abbrev DateTime := Int

/-- The digits of Python's default decimal context. -/
def contextPrecision : Nat := 28

/-- The code points that `str.strip` removes. -/
def isSpace (c : Char) : Bool :=
  c.toNat ∈ [0x20, 0x85, 0xa0, 0x1680, 0x2028, 0x2029, 0x202f, 0x205f, 0x3000] ||
    (0x9 ≤ c.toNat && c.toNat ≤ 0xd) || (0x1c ≤ c.toNat && c.toNat ≤ 0x1f) ||
    (0x2000 ≤ c.toNat && c.toNat ≤ 0x200a)

/-- `not s.strip()` -/
def isBlank (s : String) : Bool := s.toList.all isSpace

theorem isBlank_gpt4o : isBlank "gpt-4o" = false := by decide

def invalidModelName : Exn := .exception "InvalidModelName" "Invalid model name"
def invalidTokenPrice : Exn := .exception "InvalidTokenPrice" "Invalid token price"
def invalidTokenQuantity : Exn := .exception "InvalidTokenQuantity" "Invalid token quantity"

structure PricingRate where
  provider : ProviderEnum
  model : String
  pricePer1kInput : ℚ
  pricePer1kOutput : ℚ
  effectiveFrom : DateTime
  named : isBlank model = false
  input_nonneg : 0 ≤ pricePer1kInput
  output_nonneg : 0 ≤ pricePer1kOutput

namespace PricingRate

def create (provider : ProviderEnum) (model : String) (pricePer1kInput pricePer1kOutput : ℚ)
    (effectiveFrom : DateTime) : Except Exn PricingRate :=
  if named : isBlank model = true then .error invalidModelName
  else if priced : pricePer1kInput < 0 ∨ pricePer1kOutput < 0 then .error invalidTokenPrice
  else .ok
    { provider, model, pricePer1kInput, pricePer1kOutput, effectiveFrom
      named := Bool.eq_false_iff.mpr named
      input_nonneg := not_lt.mp fun h => priced (.inl h)
      output_nonneg := not_lt.mp fun h => priced (.inr h) }

/-- The cost of some thousands of tokens. -/
def cost (tokens : Int) (pricePer1k : ℚ) : ℚ :=
  Decimal.mul contextPrecision (Decimal.div contextPrecision tokens 1000) pricePer1k

def calculateCost (self : PricingRate) (tokensIn tokensOut : Int) : Except Exn ℚ :=
  if tokensIn < 0 ∨ tokensOut < 0 then .error invalidTokenQuantity
  else .ok (Decimal.add contextPrecision (cost tokensIn self.pricePer1kInput) (cost tokensOut self.pricePer1kOutput))

theorem cost_nonneg {tokens : Int} {pricePer1k : ℚ} (ht : 0 ≤ tokens) (hp : 0 ≤ pricePer1k) :
    0 ≤ cost tokens pricePer1k :=
  Decimal.nonneg_mul (Decimal.nonneg_div (Int.cast_nonneg ht) (by norm_num)) hp

theorem calculateCost_ok (self : PricingRate) {tokensIn tokensOut : Int} (hin : 0 ≤ tokensIn) (hout : 0 ≤ tokensOut) :
    ∃ amount, self.calculateCost tokensIn tokensOut = .ok amount := by
  have hcounts : ¬ (tokensIn < 0 ∨ tokensOut < 0) := by omega
  exact ⟨_, if_neg hcounts⟩

/-- No request costs less than nothing. -/
theorem calculateCost_nonneg {self : PricingRate} {tokensIn tokensOut : Int} {amount : ℚ}
    (h : self.calculateCost tokensIn tokensOut = .ok amount) : 0 ≤ amount := by
  unfold calculateCost at h
  by_cases hcounts : tokensIn < 0 ∨ tokensOut < 0
  · rw [if_pos hcounts] at h
    cases h
  · rw [if_neg hcounts] at h
    cases h
    have hin : 0 ≤ tokensIn := by omega
    have hout : 0 ≤ tokensOut := by omega
    exact Decimal.nonneg_add (cost_nonneg hin self.input_nonneg) (cost_nonneg hout self.output_nonneg)

end PricingRate

structure PricingTable where
  /-- `_rates`, with no history where there is no key -/
  rates : ProviderEnum × String → List PricingRate
  /-- the message of `PricingRateNotFound`, made of `repr`s and `isoformat` -/
  notFound : ProviderEnum → String → DateTime → String

namespace PricingTable

def register (self : PricingTable) (rate : PricingRate) : PricingTable :=
  { self with
    rates := fun pair =>
      if pair = (rate.provider, rate.model) then self.rates pair ++ [rate] else self.rates pair }

/-- The rates in effect, in the order they were registered. -/
def effective (self : PricingTable) (provider : ProviderEnum) (model : String) (asOf : DateTime) : List PricingRate :=
  (self.rates (provider, model)).filter fun rate => rate.effectiveFrom ≤ asOf

/-- `max` by `effective_from`, which keeps the first of equals. -/
def latest (rate : PricingRate) (rest : List PricingRate) : PricingRate :=
  rest.foldl (fun best rate => if best.effectiveFrom < rate.effectiveFrom then rate else best) rate

def get (self : PricingTable) (provider : ProviderEnum) (model : String) (asOf : DateTime) : Except Exn PricingRate :=
  match self.effective provider model asOf with
  | [] => .error (.pricingRateNotFound (self.notFound provider model asOf))
  | rate :: rest => .ok (latest rate rest)

def costFor (self : PricingTable) (provider : ProviderEnum) (model : String) (tokensIn tokensOut : Int)
    (asOf : DateTime) : Except Exn ℚ := do
  let rate ← self.get provider model asOf
  rate.calculateCost tokensIn tokensOut

/-- `build_pricing_table` -/
def build (notFound : ProviderEnum → String → DateTime → String) (rates : List PricingRate) : PricingTable :=
  rates.foldl register ⟨fun _ => [], notFound⟩

end PricingTable
end Relayix
