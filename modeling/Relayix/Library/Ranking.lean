import Mathlib.Data.List.Sort

/-! Stable sorts.

`Ranked` says all that a stable sort by a key owes: nothing is added or dropped, the keys are in
order, and what has one key keeps its order. A reversed sort is one too, by the same keys the other
way round. -/
namespace Relayix.Library

variable {α K L : Type} [LinearOrder K] [LinearOrder L]

/-- `sorted(items, key=key, reverse=reverse)` -/
def sortedBy (key : α → K) (reverse : Bool) (items : List α) : List α :=
  if reverse then items.insertionSort fun a b => key b ≤ key a
  else items.insertionSort fun a b => key a ≤ key b

/-- `order` has the items sorted by a key, those with one key in the order they had. -/
structure Ranked (key : α → K) (items order : List α) : Prop where
  perm : order.Perm items
  sorted : order.Pairwise fun a b => key a ≤ key b
  stable : ∀ k, order.filter (fun a => key a = k) = items.filter fun a => key a = k

theorem ranked_insertionSort (key : α → K) (items : List α) :
    Ranked key items (items.insertionSort fun a b => key a ≤ key b) := by
  have : Std.Total fun a b : α => key a ≤ key b := ⟨fun a b => le_total (key a) (key b)⟩
  have : IsTrans α fun a b => key a ≤ key b := ⟨fun _ _ _ hab hbc => hab.trans hbc⟩
  have hperm := List.perm_insertionSort (fun a b => key a ≤ key b) items
  refine ⟨hperm, List.pairwise_insertionSort _ items, fun k => ?_⟩
  have hequal : (items.filter fun a => key a = k).Pairwise fun a b => key a ≤ key b := by
    refine List.pairwise_of_forall_mem_list fun a ha b hb => le_of_eq ?_
    rw [of_decide_eq_true (List.mem_filter.mp ha).2, of_decide_eq_true (List.mem_filter.mp hb).2]
  have hsub := (List.sublist_insertionSort hequal List.filter_sublist).filter fun a => decide (key a = k)
  simp only [List.filter_filter, Bool.and_self] at hsub
  exact (hsub.eq_of_length (hperm.filter _).length_eq.symm).symm

theorem ranked_sortedBy (key : α → K) (items : List α) : Ranked key items (sortedBy key false items) :=
  ranked_insertionSort key items

/-- Reversed, the greatest key is first, and what has one key is still in its order. -/
theorem ranked_reverse (key : α → K) (items : List α) :
    Ranked (fun a => OrderDual.toDual (key a)) items (sortedBy key true items) :=
  ranked_insertionSort (fun a => OrderDual.toDual (key a)) items

section Ranked
variable {key : α → K} {items order : List α}

/-- Items that all have one key keep their order. -/
theorem Ranked.filter_eq (h : Ranked key items order) {p : α → Bool} {k : K} (hp : ∀ a, p a = true → key a = k) :
    order.filter p = items.filter p := by
  have hboth : ∀ l : List α, (l.filter fun a => key a = k).filter p = l.filter p := by
    intro l
    rw [List.filter_filter]
    refine List.filter_congr fun a _ => ?_
    cases ha : p a with
    | false => rfl
    | true => simp [hp a ha]
  rw [← hboth order, ← hboth items, h.stable k]

/-- What comes first has the lower key, or came first. -/
theorem Ranked.before (h : Ranked key items order) {a b : α} (hab : [a, b].Sublist order) :
    key a < key b ∨ (key a = key b ∧ [a, b].Sublist items) := by
  have hle : key a ≤ key b := List.pairwise_iff_forall_sublist.mp h.sorted hab
  rcases hle.lt_or_eq with hlt | heq
  · exact .inl hlt
  · have hkept := hab.filter fun x => decide (key x = key b)
    rw [h.stable] at hkept
    simp only [heq, List.filter_cons, decide_true, if_true, List.filter_nil] at hkept
    exact .inr ⟨heq, hkept.trans List.filter_sublist⟩

/-- Of two items with one key, the one that came first comes first. -/
theorem Ranked.kept (h : Ranked key items order) {a b : α} (hab : [a, b].Sublist items) (heq : key a = key b) :
    [a, b].Sublist order := by
  have hkept := hab.filter fun x => decide (key x = key b)
  rw [← h.stable] at hkept
  simp only [heq, List.filter_cons, decide_true, if_true, List.filter_nil] at hkept
  exact hkept.trans List.filter_sublist

/-- Two keys that put the items in the same order rank them alike. -/
theorem Ranked.congr (h : Ranked key items order) {key' : α → L}
    (hkeys : ∀ a ∈ items, ∀ b ∈ items, key a ≤ key b ↔ key' a ≤ key' b) : Ranked key' items order := by
  refine ⟨h.perm, h.sorted.imp_of_mem fun ha hb hab => ?_, fun k => ?_⟩
  · exact (hkeys _ (h.perm.mem_iff.mp ha) _ (h.perm.mem_iff.mp hb)).mp hab
  · by_cases hany : ∃ a ∈ items, key' a = k
    · obtain ⟨a, ha, rfl⟩ := hany
      have hequal : ∀ x ∈ items, decide (key' x = key' a) = decide (key x = key a) := by
        intro x hx
        refine decide_eq_decide.mpr ?_
        rw [le_antisymm_iff, le_antisymm_iff, hkeys x hx a ha, hkeys a ha x hx]
      rw [List.filter_congr fun x hx => hequal x (h.perm.mem_iff.mp hx), List.filter_congr hequal, h.stable]
    · have hnone : ∀ x ∈ items, decide (key' x = k) = false := fun x hx => decide_eq_false fun hk => hany ⟨x, hx, hk⟩
      rw [List.filter_eq_nil_iff.mpr fun x hx => by simp [hnone x (h.perm.mem_iff.mp hx)],
        List.filter_eq_nil_iff.mpr fun x hx => by simp [hnone x hx]]

end Ranked

/-- Of two different items one comes first. -/
theorem sublist_or_sublist {l : List α} {a b : α} (ha : a ∈ l) (hb : b ∈ l) (hne : a ≠ b) :
    [a, b].Sublist l ∨ [b, a].Sublist l := by
  induction l with
  | nil => cases ha
  | cons x rest ih =>
    rcases List.mem_cons.mp ha with rfl | ha'
    · have hrest : b ∈ rest := (List.mem_cons.mp hb).resolve_left (Ne.symm hne)
      exact .inl (.cons_cons a (List.singleton_sublist.mpr hrest))
    · rcases List.mem_cons.mp hb with rfl | hb'
      · exact .inr (.cons_cons b (List.singleton_sublist.mpr ha'))
      · rcases ih ha' hb' with h | h
        · exact .inl (h.cons x)
        · exact .inr (h.cons x)

end Relayix.Library
