import Mathlib.Algebra.Order.Field.Basic
import Mathlib.Tactic.FieldSimp
import Mathlib.Tactic.Linarith
import Mathlib.Tactic.Ring

/-! Token buckets.

A bucket keeps one number, and refills it lazily: by the time that has passed, at a rate, up to a
capacity. A request takes a token where there is one. `Tracks` is what that number knows of the
past: the tokens at any later time are the least of what each request so far that was admitted
leaves, counting it and those after it against what has been refilled since. `Spent` is what it
says of the requests from some time on, and `ready` of the time to come. -/
namespace Relayix.Library

structure Bucket (K : Type) where
  tokens : K
  lastRefill : K
  deriving DecidableEq

namespace Bucket
variable {K : Type} [Field K] [LinearOrder K]

section Steps
variable (capacity rate : K)

/-- A new bucket is full. -/
def fresh (now : K) : Bucket K := ⟨capacity, now⟩

/-- The tokens at a later time. -/
def level (b : Bucket K) (now : K) : K := min capacity (b.tokens + (now - b.lastRefill) * rate)

/-- The bucket that a request at this time leaves. -/
def next (b : Bucket K) (now : K) : Bucket K :=
  ⟨if 1 ≤ level capacity rate b now then level capacity rate b now - 1 else level capacity rate b now, now⟩

end Steps

variable {capacity rate : K} {b : Bucket K} {now : K}

theorem level_le_capacity : level capacity rate b now ≤ capacity := min_le_left _ _

theorem le_level {x : K} : x ≤ level capacity rate b now ↔ x ≤ capacity ∧ x ≤ b.tokens + (now - b.lastRefill) * rate := le_min_iff

/-- A bucket that has had the time to fill is full. -/
theorem level_full (h : capacity ≤ b.tokens + (now - b.lastRefill) * rate) : level capacity rate b now = capacity := min_eq_left h

theorem next_admitted (h : 1 ≤ level capacity rate b now) :
    next capacity rate b now = ⟨level capacity rate b now - 1, now⟩ := by
  rw [next, if_pos h]

theorem next_refused (h : ¬ 1 ≤ level capacity rate b now) :
    next capacity rate b now = ⟨level capacity rate b now, now⟩ := by
  rw [next, if_neg h]

theorem level_of_refused (hcapacity : 1 ≤ capacity) (hno : ¬ 1 ≤ level capacity rate b now) :
    level capacity rate b now = b.tokens + (now - b.lastRefill) * rate := by
  refine min_eq_right (le_of_lt ?_)
  by_contra hfull
  exact hno (hcapacity.trans_eq (min_eq_left (not_lt.mp hfull)).symm)

theorem next_lastRefill : (next capacity rate b now).lastRefill = now := rfl

/-- A request takes its token from what there was and what has been refilled. -/
theorem next_spends : (next capacity rate b now).tokens + (if 1 ≤ level capacity rate b now then 1 else 0) ≤
    b.tokens + (now - b.lastRefill) * rate := by
  have hlevel : level capacity rate b now ≤ b.tokens + (now - b.lastRefill) * rate := min_le_right _ _
  by_cases hok : 1 ≤ level capacity rate b now
  · rw [if_pos hok, next_admitted hok]
    exact (sub_add_cancel _ _).trans_le hlevel
  · rw [if_neg hok, next_refused hok, add_zero]
    exact hlevel

/-! ### When the next token is there -/

/-- The time at which the bucket has a token. -/
def ready (rate : K) (b : Bucket K) : K := b.lastRefill + (1 - b.tokens) / rate

/-- What a refused request has to wait for. -/
theorem wait_eq (hcapacity : 1 ≤ capacity) (hrate : rate ≠ 0) (hno : ¬ 1 ≤ level capacity rate b now) :
    (1 - level capacity rate b now) / rate = b.ready rate - now := by
  rw [level_of_refused hcapacity hno, ready]
  field_simp
  ring

/-- A refused request does not move it. -/
theorem ready_refused (hcapacity : 1 ≤ capacity) (hrate : rate ≠ 0) (hno : ¬ 1 ≤ level capacity rate b now) :
    (next capacity rate b now).ready rate = b.ready rate := by
  rw [next_refused hno]
  show now + (1 - level capacity rate b now) / rate = _
  rw [wait_eq hcapacity hrate hno]
  ring

/-! ### What the level knows of the past -/

/-- The times of the admitted requests, the last one first, leave `x` tokens at the time `t`: for
each of them, it and those after it and `x` more are at most the capacity and what was refilled
since. -/
def Leaves (capacity rate t x : K) (admitted : List K) : Prop :=
  ∀ recent a older, admitted = recent ++ a :: older → x + (recent.length + 1) ≤ capacity + rate * (t - a)

/-- From its last refill on, the bucket has the tokens that these admitted requests leave. -/
def Tracks (capacity rate : K) (b : Bucket K) (admitted : List K) : Prop :=
  ∀ t, b.lastRefill ≤ t → ∀ x, x ≤ level capacity rate b t ↔ x ≤ capacity ∧ Leaves capacity rate t x admitted

theorem leaves_nil {t x : K} : Leaves capacity rate t x [] := fun recent a older h => by
  cases recent <;> cases h

/-- Two buckets with one past have the same tokens. -/
theorem Tracks.level_eq {b' : Bucket K} {admitted : List K} (h : Tracks capacity rate b admitted)
    (h' : Tracks capacity rate b' admitted) {t : K} (ht : b.lastRefill ≤ t) (ht' : b'.lastRefill ≤ t) :
    level capacity rate b t = level capacity rate b' t := by
  refine le_antisymm ?_ ?_
  · exact (h' t ht' _).mpr ((h t ht _).mp (le_refl _))
  · exact (h t ht _).mpr ((h' t ht' _).mp (le_refl _))

variable [IsStrictOrderedRing K]

theorem one_le_level_iff (hcapacity : 1 ≤ capacity) (hrate : 0 < rate) :
    1 ≤ level capacity rate b now ↔ b.ready rate ≤ now := by
  rw [le_level, and_iff_right hcapacity, ready, add_comm b.lastRefill, ← le_sub_iff_add_le, div_le_iff₀ hrate,
    sub_le_iff_le_add']

theorem level_fresh (hrate : 0 ≤ rate) {t : K} (ht : now ≤ t) : level capacity rate (fresh capacity now) t = capacity := by
  refine level_full ?_
  have hrefilled : 0 ≤ (t - now) * rate := mul_nonneg (sub_nonneg.mpr ht) hrate
  show capacity ≤ capacity + (t - now) * rate
  linarith

theorem leaves_cons {t x a : K} {older : List K} :
    Leaves capacity rate t x (a :: older) ↔ x + 1 ≤ capacity + rate * (t - a) ∧ Leaves capacity rate t (x + 1) older := by
  constructor
  · intro h
    refine ⟨?_, fun recent a' older' ho => ?_⟩
    · have hfirst := h [] a older rfl
      simpa using hfirst
    · have hlater := h (a :: recent) a' older' (by rw [ho, List.cons_append])
      rw [List.length_cons, Nat.cast_add, Nat.cast_one] at hlater
      linarith
  · rintro ⟨hfirst, hlater⟩ recent a' older' ho
    cases recent with
    | nil =>
      obtain ⟨rfl, rfl⟩ := List.cons.inj ho
      simpa using hfirst
    | cons r recent =>
      obtain ⟨rfl, rfl⟩ := List.cons.inj ho
      have hrest := hlater recent a' older' rfl
      rw [List.length_cons, Nat.cast_add, Nat.cast_one]
      linarith

/-- What is left grows at the rate. -/
theorem leaves_shift {s t x : K} {admitted : List K} :
    Leaves capacity rate t x admitted ↔ Leaves capacity rate s (x - (t - s) * rate) admitted := by
  have hshift : ∀ a : K, rate * (t - a) = rate * (s - a) + (t - s) * rate := fun a => by ring
  constructor
  · intro h recent a older ho
    have := h recent a older ho
    rw [hshift] at this
    linarith
  · intro h recent a older ho
    have := h recent a older ho
    rw [hshift]
    linarith

theorem tracks_fresh (hrate : 0 ≤ rate) : Tracks capacity rate (fresh capacity now) [] := by
  intro t ht x
  have ht : now ≤ t := ht
  rw [level_fresh hrate ht]
  exact ⟨fun h => ⟨h, leaves_nil⟩, fun h => h.1⟩

theorem Tracks.admitted {admitted : List K} (h : Tracks capacity rate b admitted) (hnow : b.lastRefill ≤ now)
    (hok : 1 ≤ level capacity rate b now) : Tracks capacity rate (next capacity rate b now) (now :: admitted) := by
  intro t ht x
  rw [next_admitted hok, le_level, leaves_cons]
  refine and_congr_right fun hx => ?_
  show x ≤ level capacity rate b now - 1 + (t - now) * rate ↔ _
  have hlevel := h now hnow (x + 1 - (t - now) * rate)
  rw [← leaves_shift] at hlevel
  have hrearrange : x ≤ level capacity rate b now - 1 + (t - now) * rate ↔
      x + 1 - (t - now) * rate ≤ level capacity rate b now := by
    constructor <;> intro h <;> linarith
  rw [hrearrange, hlevel, mul_comm (t - now) rate]
  refine and_congr_left fun _ => ?_
  exact sub_le_iff_le_add

theorem Tracks.refused {admitted : List K} (h : Tracks capacity rate b admitted) (hrate : 0 ≤ rate) (hnow : b.lastRefill ≤ now)
    (hno : ¬ 1 ≤ level capacity rate b now) : Tracks capacity rate (next capacity rate b now) admitted := by
  intro t ht x
  rw [next_refused hno, le_level]
  refine and_congr_right fun hx => ?_
  show x ≤ level capacity rate b now + (t - now) * rate ↔ _
  have hlevel := h now hnow (x - (t - now) * rate)
  rw [← leaves_shift] at hlevel
  rw [← sub_le_iff_le_add, hlevel]
  have hrefilled : 0 ≤ (t - now) * rate := mul_nonneg (sub_nonneg.mpr ht) hrate
  exact and_iff_right (by linarith)

/-! ### How many are admitted -/

theorem next_tokens_le : (next capacity rate b now).tokens ≤ level capacity rate b now := by
  unfold next
  split
  · exact sub_le_self _ zero_le_one
  · exact le_refl _

theorem next_tokens_le_capacity : (next capacity rate b now).tokens ≤ capacity :=
  next_tokens_le.trans level_le_capacity

/-- A bucket never owes a token. -/
theorem next_tokens_nonneg (hcapacity : 0 ≤ capacity) (hrate : 0 ≤ rate) (hb : 0 ≤ b.tokens) (hnow : b.lastRefill ≤ now) :
    0 ≤ (next capacity rate b now).tokens := by
  have hrefilled : 0 ≤ (now - b.lastRefill) * rate := mul_nonneg (sub_nonneg.mpr hnow) hrate
  have hlevel : 0 ≤ level capacity rate b now := le_min hcapacity (add_nonneg hb hrefilled)
  unfold next
  split
  · rename_i h
    exact sub_nonneg.mpr h
  · exact hlevel

/-- Of the requests from `s` on, `n` were admitted: none while the bucket was last asked before `s`,
and from then on no more than it has paid out. -/
structure Spent (capacity rate : K) (b : Bucket K) (s : K) (n : Nat) : Prop where
  capped : b.tokens ≤ capacity
  before : b.lastRefill < s → n = 0
  since : s ≤ b.lastRefill → n + b.tokens ≤ capacity + rate * (b.lastRefill - s)

theorem spent_fresh (hrate : 0 ≤ rate) (s : K) : Spent capacity rate (fresh capacity now) s 0 where
  capped := le_refl _
  before _ := rfl
  since hs := by
    have hrefilled : 0 ≤ rate * (now - s) := mul_nonneg hrate (sub_nonneg.mpr hs)
    show ((0 : Nat) : K) + capacity ≤ capacity + rate * (now - s)
    rw [Nat.cast_zero]
    linarith

/-- A request adds what it takes. -/
theorem Spent.next {s : K} {n : Nat} (h : Spent capacity rate b s n) (hrate : 0 ≤ rate) (hnow : b.lastRefill ≤ now) :
    Spent capacity rate (next capacity rate b now) s
      (if 1 ≤ level capacity rate b now ∧ s ≤ now then n + 1 else n) where
  capped := next_tokens_le_capacity
  before hlt := by
    have hnot : ¬ s ≤ now := not_le.mpr hlt
    rw [if_neg fun hboth => hnot hboth.2]
    exact h.before (lt_of_le_of_lt hnow hlt)
  since hs := by
    have hs : s ≤ now := hs
    -- up to this request, the same holds of the level
    have hlevel : n + level capacity rate b now ≤ capacity + rate * (now - s) := by
      rcases lt_or_ge b.lastRefill s with hbefore | hsince
      · have hrefilled : 0 ≤ rate * (now - s) := mul_nonneg hrate (sub_nonneg.mpr hs)
        have hcapped : level capacity rate b now ≤ capacity := level_le_capacity
        rw [h.before hbefore, Nat.cast_zero]
        linarith
      · have hspent := h.since hsince
        have hrefilled : level capacity rate b now ≤ b.tokens + (now - b.lastRefill) * rate := min_le_right _ _
        linarith
    by_cases hok : 1 ≤ level capacity rate b now
    · rw [if_pos ⟨hok, hs⟩, next_admitted hok, Nat.cast_add, Nat.cast_one]
      show (n : K) + 1 + (level capacity rate b now - 1) ≤ capacity + rate * (now - s)
      linarith
    · rw [if_neg fun hboth => hok hboth.1, next_refused hok]
      exact hlevel

/-! ### A bucket and its past -/

/-- The bucket is what these admitted requests have left, the last one first. -/
structure Accounts (capacity rate : K) (b : Bucket K) (admitted : List K) : Prop where
  tracks : Tracks capacity rate b admitted
  nonneg : 0 ≤ b.tokens
  spent : ∀ s, Spent capacity rate b s (admitted.countP fun a => s ≤ a)

theorem accounts_fresh (hcapacity : 0 ≤ capacity) (hrate : 0 ≤ rate) : Accounts capacity rate (fresh capacity now) [] where
  tracks := tracks_fresh hrate
  nonneg := hcapacity
  spent := spent_fresh hrate

theorem Accounts.next {admitted : List K} (h : Accounts capacity rate b admitted) (hcapacity : 0 ≤ capacity)
    (hrate : 0 ≤ rate) (hnow : b.lastRefill ≤ now) :
    Accounts capacity rate (next capacity rate b now)
      (if 1 ≤ level capacity rate b now then now :: admitted else admitted) where
  tracks := by
    split
    · rename_i hok
      exact h.tracks.admitted hnow hok
    · rename_i hno
      exact h.tracks.refused hrate hnow hno
  nonneg := next_tokens_nonneg hcapacity hrate h.nonneg hnow
  spent s := by
    have hspent := (h.spent s).next hrate hnow
    by_cases hok : 1 ≤ level capacity rate b now
    · simp only [hok, true_and, if_true] at hspent ⊢
      rw [List.countP_cons]
      by_cases hs : s ≤ now
      · simpa [hs] using hspent
      · simpa [hs] using hspent
    · simp only [hok, false_and, if_false] at hspent ⊢
      exact hspent

/-- In any time up to now, no more is admitted than the capacity and what is refilled in it. -/
theorem Accounts.count_le {admitted : List K} (h : Accounts capacity rate b admitted) (hcapacity : 0 ≤ capacity)
    (hrate : 0 ≤ rate) {s e : K} (hs : s ≤ e) (he : b.lastRefill ≤ e) :
    ((admitted.countP fun a => s ≤ a : Nat) : K) ≤ capacity + rate * (e - s) := by
  rcases lt_or_ge b.lastRefill s with hbefore | hsince
  · have hrefilled : 0 ≤ rate * (e - s) := mul_nonneg hrate (sub_nonneg.mpr hs)
    rw [(h.spent s).before hbefore, Nat.cast_zero]
    linarith
  · have hspent := (h.spent s).since hsince
    have hnonneg := h.nonneg
    have hlater : rate * (b.lastRefill - s) ≤ rate * (e - s) := mul_le_mul_of_nonneg_left (sub_le_sub_right he s) hrate
    linarith

/-- No window of time holds more than the capacity and what is refilled in it. -/
def Windowed (capacity rate : K) (admitted : List K) : Prop :=
  ∀ s e, s ≤ e → ((admitted.countP fun a => s ≤ a ∧ a ≤ e : Nat) : K) ≤ capacity + rate * (e - s)

theorem windowed_nil (hcapacity : 0 ≤ capacity) (hrate : 0 ≤ rate) : Windowed capacity rate [] := by
  intro s e hse
  rw [List.countP_nil, Nat.cast_zero]
  exact add_nonneg hcapacity (mul_nonneg hrate (sub_nonneg.mpr hse))

/-- What a bucket has just admitted keeps every window. -/
theorem Accounts.windowed {older admitted : List K} (h : Accounts capacity rate b admitted) (hcapacity : 0 ≤ capacity)
    (hrate : 0 ≤ rate) (hnew : admitted = older ∨ admitted = b.lastRefill :: older) (hw : Windowed capacity rate older) :
    Windowed capacity rate admitted := by
  intro s e hse
  by_cases he : b.lastRefill ≤ e
  · -- the window is still open: it is all that was admitted since it began
    have hmono : admitted.countP (fun a => s ≤ a ∧ a ≤ e) ≤ admitted.countP fun a => s ≤ a :=
      List.countP_mono_left fun a _ hboth => decide_eq_true (of_decide_eq_true hboth).1
    exact (Nat.cast_le.mpr hmono).trans (h.count_le hcapacity hrate hse he)
  · have hcount : admitted.countP (fun a => s ≤ a ∧ a ≤ e) = older.countP fun a => s ≤ a ∧ a ≤ e := by
      cases hnew with
      | inl hsame => rw [hsame]
      | inr hcons =>
        have hout : ¬ (s ≤ b.lastRefill ∧ b.lastRefill ≤ e) := fun hboth => he hboth.2
        rw [hcons, List.countP_cons_of_neg (by simpa using hout)]
    rw [hcount]
    exact hw s e hse

end Bucket
end Relayix.Library
