import Mathlib.Data.Int.Log
import Mathlib.Data.Rat.Floor
import Mathlib.Tactic.Linarith
import Mathlib.Tactic.NormNum
import Mathlib.Tactic.Positivity

/-! Decimal arithmetic: rationals, rounded to a number of significant digits.

A result is rounded to the nearest number with `precision` digits, a tie to the even one. What has
no more digits is kept as it is, so digits can be counted: those of a product are those of its
factors together, and a sum has one more. -/
namespace Relayix.Library

/-- To the nearest integer, a tie to the even one. -/
def roundHalfEven (x : ℚ) : ℤ :=
  if x - ⌊x⌋ < 1 / 2 then ⌊x⌋
  else if 1 / 2 < x - ⌊x⌋ then ⌊x⌋ + 1
  else if ⌊x⌋ % 2 = 0 then ⌊x⌋ else ⌊x⌋ + 1

theorem roundHalfEven_nonneg {x : ℚ} (h : 0 ≤ x) : 0 ≤ roundHalfEven x := by
  have hfloor : 0 ≤ ⌊x⌋ := Int.floor_nonneg.mpr h
  unfold roundHalfEven
  split_ifs <;> omega

@[simp] theorem roundHalfEven_intCast (n : ℤ) : roundHalfEven n = n := by
  have hwhole : (n : ℚ) - (⌊(n : ℚ)⌋ : ℚ) = 0 := by rw [Int.floor_intCast, sub_self]
  rw [roundHalfEven, if_pos (by rw [hwhole]; norm_num), Int.floor_intCast]

/-- To the nearest integer, a tie away from zero. -/
def roundHalfAway (x : ℚ) : ℤ := if 0 ≤ x then ⌊x + 1 / 2⌋ else ⌈x - 1 / 2⌉

theorem roundHalfAway_intCast (n : ℤ) : roundHalfAway n = n := by
  unfold roundHalfAway
  split_ifs
  · rw [Int.floor_eq_iff]
    constructor <;> linarith
  · rw [Int.ceil_eq_iff]
    constructor <;> linarith

/-- Rounding does not take any of it away: it is whole, or nearer to the next one, or halfway to an
even one. -/
def RoundsUp (x : ℚ) : Prop := Int.fract x = 0 ∨ 1 / 2 < Int.fract x ∨ Int.fract x = 1 / 2 ∧ Odd ⌊x⌋

theorem le_roundHalfEven_iff {x : ℚ} : x ≤ roundHalfEven x ↔ RoundsUp x := by
  have hdown : x ≤ (⌊x⌋ : ℚ) ↔ Int.fract x = 0 := by
    rw [← sub_nonpos]
    exact (Int.fract_nonneg x).ge_iff_eq'
  have hup : x ≤ ((⌊x⌋ + 1 : ℤ) : ℚ) := by
    rw [Int.cast_add, Int.cast_one]
    exact (Int.lt_floor_add_one x).le
  rw [roundHalfEven, show x - (⌊x⌋ : ℚ) = Int.fract x from rfl]
  rcases lt_trichotomy (Int.fract x) (1 / 2) with hlow | hhalf | hhigh
  · rw [if_pos hlow, hdown]
    refine ⟨Or.inl, fun h => ?_⟩
    rcases h with h | h | h
    · exact h
    · exact absurd h hlow.not_gt
    · exact absurd h.1 hlow.ne
  · have hzero : Int.fract x ≠ 0 := by
      rw [hhalf]
      norm_num
    rw [if_neg hhalf.not_lt, if_neg hhalf.symm.not_lt]
    by_cases heven : ⌊x⌋ % 2 = 0
    · rw [if_pos heven, hdown]
      refine ⟨Or.inl, fun h => ?_⟩
      rcases h with h | h | h
      · exact h
      · exact absurd h hhalf.not_gt
      · exact absurd (Int.odd_iff.mp h.2) (by omega)
    · rw [if_neg heven]
      exact ⟨fun _ => Or.inr (Or.inr ⟨hhalf, Int.odd_iff.mpr (by omega)⟩), fun _ => hup⟩
  · rw [if_neg hhigh.not_gt, if_pos hhigh]
    exact ⟨fun _ => Or.inr (Or.inl hhigh), fun _ => hup⟩

namespace Decimal
variable (precision : ℕ)

/-- The place value of the last digit that is kept. -/
def unit (x : ℚ) : ℚ := 10 ^ (Int.log 10 |x| + 1 - precision)

def round (x : ℚ) : ℚ := roundHalfEven (x / unit precision x) * unit precision x

def add (x y : ℚ) : ℚ := round precision (x + y)

def mul (x y : ℚ) : ℚ := round precision (x * y)

def div (x y : ℚ) : ℚ := round precision (x / y)

/-- Rounding it changes nothing. -/
def Exact (x : ℚ) : Prop := round precision x = x

/-- A number that a `NUMERIC(digits, scale)` column can hold. -/
def Numeric (digits scale : ℕ) (x : ℚ) : Prop := ∃ n : ℤ, |n| < 10 ^ digits ∧ x = n / 10 ^ scale

/-- What a column of so many decimals stores. -/
def toScale (scale : ℕ) (x : ℚ) : ℚ := roundHalfAway (x * 10 ^ scale) / 10 ^ scale

theorem toScale_eq_iff {scale : ℕ} {x : ℚ} : toScale scale x = x ↔ ∃ n : ℤ, x = n / 10 ^ scale := by
  constructor
  · exact fun h => ⟨_, h.symm⟩
  · rintro ⟨n, rfl⟩
    rw [toScale, div_mul_cancel₀ _ (by positivity), roundHalfAway_intCast]

section Nonneg
variable {precision} {x y : ℚ}

theorem nonneg_round (h : 0 ≤ x) : 0 ≤ round precision x := by
  have hunit : 0 ≤ unit precision x := zpow_nonneg (by norm_num) _
  have hdigits : (0 : ℚ) ≤ roundHalfEven (x / unit precision x) :=
    Int.cast_nonneg (roundHalfEven_nonneg (div_nonneg h hunit))
  exact mul_nonneg hdigits hunit

theorem nonneg_add (hx : 0 ≤ x) (hy : 0 ≤ y) : 0 ≤ add precision x y := nonneg_round (add_nonneg hx hy)

theorem nonneg_mul (hx : 0 ≤ x) (hy : 0 ≤ y) : 0 ≤ mul precision x y := nonneg_round (mul_nonneg hx hy)

theorem nonneg_div (hx : 0 ≤ x) (hy : 0 ≤ y) : 0 ≤ div precision x y := nonneg_round (div_nonneg hx hy)

end Nonneg

section Numeric
variable {precision} {digits digits' scale scale' : ℕ} {x y : ℚ}

/-- The last kept digit of such a number is no greater than its own last digit. -/
theorem Numeric.log_lt {n : ℤ} (hn : |n| < 10 ^ digits) (hne : n ≠ 0) :
    Int.log 10 |(n : ℚ) / 10 ^ scale| + scale < digits := by
  have hpos : 0 < |(n : ℚ) / 10 ^ scale| := abs_pos.mpr (div_ne_zero (Int.cast_ne_zero.mpr hne) (by positivity))
  have hlt : |(n : ℚ) / 10 ^ scale| < ((10 : ℕ) : ℚ) ^ ((digits : ℤ) - scale) := by
    have hcast : |(n : ℚ)| < 10 ^ digits := by exact_mod_cast hn
    rw [abs_div, abs_of_pos (by positivity : (0 : ℚ) < 10 ^ scale), Nat.cast_ofNat, zpow_sub₀ (by norm_num), zpow_natCast,
      zpow_natCast]
    exact div_lt_div_of_pos_right hcast (by positivity)
  have hlog := (Int.lt_zpow_iff_log_lt (by norm_num) hpos).mp hlt
  omega

/-- A number with no more digits than are kept is not rounded. -/
theorem Numeric.exact (h : Numeric digits scale x) (hdigits : digits ≤ precision) : Exact precision x := by
  obtain ⟨n, hn, rfl⟩ := h
  by_cases hne : n = 0
  · subst hne
    rw [Exact, round, Int.cast_zero, zero_div, zero_div, ← Int.cast_zero, roundHalfEven_intCast, Int.cast_zero, zero_mul]
  · have hlog : Int.log 10 |(n : ℚ) / 10 ^ scale| + scale < digits := Numeric.log_lt hn hne
    obtain ⟨k, hk⟩ : ∃ k : ℕ, -(scale : ℤ) = k + (Int.log 10 |(n : ℚ) / 10 ^ scale| + 1 - precision) :=
      ⟨(-(scale : ℤ) - (Int.log 10 |(n : ℚ) / 10 ^ scale| + 1 - precision)).toNat, by omega⟩
    have hunit : unit precision ((n : ℚ) / 10 ^ scale) ≠ 0 := zpow_ne_zero _ (by norm_num)
    have hwhole : (n : ℚ) / 10 ^ scale = ((n * 10 ^ k : ℤ) : ℚ) * unit precision ((n : ℚ) / 10 ^ scale) := by
      conv_lhs => rw [div_eq_mul_inv, ← zpow_natCast, ← zpow_neg, hk, zpow_add₀ (by norm_num), zpow_natCast, ← mul_assoc]
      rw [Int.cast_mul, Int.cast_pow, Int.cast_ofNat, unit]
    have hdigits : (n : ℚ) / 10 ^ scale / unit precision ((n : ℚ) / 10 ^ scale) = ((n * 10 ^ k : ℤ) : ℚ) := by
      rw [div_eq_iff hunit]
      exact hwhole
    rw [Exact, round, hdigits, roundHalfEven_intCast]
    exact hwhole.symm

theorem Numeric.mul (hx : Numeric digits scale x) (hy : Numeric digits' scale' y) :
    Numeric (digits + digits') (scale + scale') (x * y) := by
  obtain ⟨m, hm, rfl⟩ := hx
  obtain ⟨n, hn, rfl⟩ := hy
  refine ⟨m * n, ?_, ?_⟩
  · rw [abs_mul, pow_add]
    exact mul_lt_mul'' hm hn (abs_nonneg m) (abs_nonneg n)
  · rw [Int.cast_mul, pow_add, div_mul_div_comm]

theorem Numeric.add (hx : Numeric digits scale x) (hy : Numeric digits scale y) : Numeric (digits + 1) scale (x + y) := by
  obtain ⟨m, hm, rfl⟩ := hx
  obtain ⟨n, hn, rfl⟩ := hy
  refine ⟨m + n, ?_, ?_⟩
  · have hsum : |m + n| ≤ |m| + |n| := abs_add_le m n
    have hnonneg : 0 ≤ |m| := abs_nonneg m
    rw [pow_succ]
    omega
  · rw [Int.cast_add, add_div]

/-- A whole number of so many digits, divided by a power of ten. -/
theorem numeric_div {n : ℤ} (h : |n| < 10 ^ digits) : Numeric digits scale (n / 10 ^ scale) := ⟨n, h, rfl⟩

end Numeric
end Decimal
end Relayix.Library
