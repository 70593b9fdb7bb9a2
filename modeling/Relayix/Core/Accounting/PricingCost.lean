import Mathlib.Tactic.Ring
import Relayix.Core.Accounting.Pricing

/-! Costs are exact.

The `pricing` table keeps prices as `NUMERIC(12, 6)` and the `usage_record` table keeps counts as
`Integer`. So a count has ten digits, a product with a price 22 and their sum 23, and the context
keeps 28. -/
namespace Relayix
open Library Decimal

/-- The rate was read from the `pricing` table. -/
structure PricingRate.Stored (rate : PricingRate) : Prop where
  input : Numeric 12 6 rate.pricePer1kInput
  output : Numeric 12 6 rate.pricePer1kOutput

/-- A count that the `usage_record` table can hold. -/
def TokenCount (tokens : Int) : Prop := 0 ≤ tokens ∧ tokens < 2 ^ 31

namespace PricingRate

theorem numeric_thousands {tokens : Int} (h : TokenCount tokens) : Numeric 10 3 ((tokens : ℚ) / 1000) := by
  have hdigits : |tokens| < 10 ^ 10 := by
    rw [abs_of_nonneg h.1]
    have hcount := h.2
    omega
  have hdiv : Numeric 10 3 ((tokens : ℚ) / 10 ^ 3) := numeric_div hdigits
  norm_num at hdiv
  exact hdiv

theorem numeric_cost {tokens : Int} {price : ℚ} (h : TokenCount tokens) (hprice : Numeric 12 6 price) :
    Numeric 22 9 ((tokens : ℚ) / 1000 * price) := (numeric_thousands h).mul hprice

/-- Neither the division nor the product is rounded. -/
theorem cost_exact {tokens : Int} {price : ℚ} (h : TokenCount tokens) (hprice : Numeric 12 6 price) :
    cost tokens price = (tokens : ℚ) / 1000 * price := by
  have hthousands : Decimal.div contextPrecision tokens 1000 = (tokens : ℚ) / 1000 :=
    (numeric_thousands h).exact (by decide)
  rw [cost, hthousands]
  exact (numeric_cost h hprice).exact (by decide)

variable {rate : PricingRate} {tokensIn tokensOut : Int}

theorem numeric_total (hstored : rate.Stored) (hin : TokenCount tokensIn) (hout : TokenCount tokensOut) :
    Numeric 23 9 ((tokensIn : ℚ) / 1000 * rate.pricePer1kInput + (tokensOut : ℚ) / 1000 * rate.pricePer1kOutput) :=
  (numeric_cost hin hstored.input).add (numeric_cost hout hstored.output)

theorem calculateCost_eq (hstored : rate.Stored) (hin : TokenCount tokensIn) (hout : TokenCount tokensOut) :
    rate.calculateCost tokensIn tokensOut =
      .ok ((tokensIn * rate.pricePer1kInput + tokensOut * rate.pricePer1kOutput) / 1000) := by
  have hcounts : ¬ (tokensIn < 0 ∨ tokensOut < 0) := by
    have hin := hin.1
    have hout := hout.1
    omega
  have hsum : Decimal.add contextPrecision ((tokensIn : ℚ) / 1000 * rate.pricePer1kInput)
      ((tokensOut : ℚ) / 1000 * rate.pricePer1kOutput) = _ := (numeric_total hstored hin hout).exact (by decide)
  rw [calculateCost, if_neg hcounts, cost_exact hin hstored.input, cost_exact hout hstored.output, hsum]
  congr 1
  ring

/-- **No step of `calculate_cost` rounds**, for counts and prices that the tables can hold: the cost is
what the tokens cost, and that of all of them is that of some and of the rest. -/
theorem calculateCost_exact (hstored : rate.Stored) (hin : TokenCount tokensIn) (hout : TokenCount tokensOut) :
    Exact contextPrecision ((tokensIn : ℚ) / 1000) ∧ Exact contextPrecision ((tokensOut : ℚ) / 1000) ∧
    Exact contextPrecision ((tokensIn : ℚ) / 1000 * rate.pricePer1kInput) ∧
    Exact contextPrecision ((tokensOut : ℚ) / 1000 * rate.pricePer1kOutput) ∧
    Exact contextPrecision ((tokensIn : ℚ) / 1000 * rate.pricePer1kInput + (tokensOut : ℚ) / 1000 * rate.pricePer1kOutput) ∧
    rate.calculateCost tokensIn tokensOut =
      .ok ((tokensIn * rate.pricePer1kInput + tokensOut * rate.pricePer1kOutput) / 1000) ∧
    ∀ restIn restOut, TokenCount restIn → TokenCount restOut → TokenCount (tokensIn + restIn) → TokenCount (tokensOut + restOut) →
      ∃ some rest, rate.calculateCost tokensIn tokensOut = .ok some ∧ rate.calculateCost restIn restOut = .ok rest ∧
        rate.calculateCost (tokensIn + restIn) (tokensOut + restOut) = .ok (some + rest) := by
  refine ⟨(numeric_thousands hin).exact (by decide), (numeric_thousands hout).exact (by decide),
    (numeric_cost hin hstored.input).exact (by decide), (numeric_cost hout hstored.output).exact (by decide),
    (numeric_total hstored hin hout).exact (by decide), calculateCost_eq hstored hin hout,
    fun restIn restOut hrestIn hrestOut hallIn hallOut => ?_⟩
  refine ⟨_, _, calculateCost_eq hstored hin hout, calculateCost_eq hstored hrestIn hrestOut, ?_⟩
  rw [calculateCost_eq hstored hallIn hallOut, Int.cast_add, Int.cast_add]
  congr 1
  ring

/-- The most tokens, at the highest prices. -/
theorem calculateCost_exact_most :
    ∃ rate : PricingRate, Exact contextPrecision (((2 ^ 31 - 1 : Int) : ℚ) / 1000 * rate.pricePer1kInput) ∧
      rate.calculateCost (2 ^ 31 - 1) (2 ^ 31 - 1) =
        .ok ((((2 ^ 31 - 1 : Int) : ℚ) * rate.pricePer1kInput + ((2 ^ 31 - 1 : Int) : ℚ) * rate.pricePer1kOutput) / 1000) := by
  let rate : PricingRate := ⟨.openai, "gpt-4o", 999999999999 / 10 ^ 6, 999999999999 / 10 ^ 6, 0, by decide, by norm_num, by norm_num⟩
  have hprice : Numeric 12 6 (999999999999 / 10 ^ 6) := ⟨999999999999, by decide, by norm_num⟩
  have hcount : TokenCount (2 ^ 31 - 1) := by constructor <;> decide
  have hstored : rate.Stored := ⟨hprice, hprice⟩
  obtain ⟨_, _, hexact, _, _, hcost, _⟩ := calculateCost_exact hstored hcount hcount
  exact ⟨rate, hexact, hcost⟩

end PricingRate
end Relayix
