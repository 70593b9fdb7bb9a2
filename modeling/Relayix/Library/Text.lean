import Mathlib.Data.List.DropRight

/-! Trimming and prefixes of texts.

What is left of a trimmed text is the same whatever of the trimmed kind surrounds it. -/
namespace Relayix.Library.Text

/-- `s.strip()`: without the characters of a kind at either end. -/
def strip (p : Char → Bool) (t : List Char) : List Char := (t.dropWhile p).rdropWhile p

/-- `t.removeprefix(s)` -/
def removePrefix (s t : List Char) : List Char := if s.isPrefixOf t then t.drop s.length else t

section Strip
variable {p : Char → Bool} {s before after : List Char}

theorem dropWhile_before (hb : ∀ c ∈ before, p c = true) : (before ++ s).dropWhile p = s.dropWhile p :=
  List.dropWhile_append_of_pos hb

theorem rdropWhile_after (ha : ∀ c ∈ after, p c = true) : (s ++ after).rdropWhile p = s.rdropWhile p := by
  rw [List.rdropWhile, List.reverse_append, List.dropWhile_append_of_pos fun c hc => ha c (List.mem_reverse.mp hc)]
  rfl

/-- What surrounds a text is trimmed with it. -/
theorem strip_surrounded (hb : ∀ c ∈ before, p c = true) (ha : ∀ c ∈ after, p c = true) :
    strip p (before ++ s ++ after) = strip p s := by
  rw [strip, List.append_assoc, dropWhile_before hb]
  by_cases hs : s.dropWhile p = []
  · have hall : ∀ c ∈ s, p c = true := List.dropWhile_eq_nil_iff.mp hs
    rw [dropWhile_before hall, strip, hs, List.dropWhile_eq_nil_iff.mpr ha]
  · rw [List.dropWhile_append, if_neg (by simpa using hs), rdropWhile_after ha, strip]

/-- A text is what is left of it, surrounded. -/
theorem exists_surrounded (p : Char → Bool) (t : List Char) :
    ∃ before after, (∀ c ∈ before, p c = true) ∧ (∀ c ∈ after, p c = true) ∧ t = before ++ strip p t ++ after := by
  refine ⟨t.takeWhile p, (t.dropWhile p).rtakeWhile p, fun c hc => List.mem_takeWhile_imp hc,
    fun c hc => List.mem_rtakeWhile_imp hc, ?_⟩
  rw [strip, List.append_assoc, List.rdropWhile_append_rtakeWhile, List.takeWhile_append_dropWhile]

/-- A text is left of another one when it surrounds it, and has nothing to trim itself. -/
theorem strip_eq_iff (hs : strip p s = s) (t : List Char) : strip p t = s ↔
    ∃ before after, (∀ c ∈ before, p c = true) ∧ (∀ c ∈ after, p c = true) ∧ t = before ++ s ++ after := by
  constructor
  · rintro rfl
    exact exists_surrounded p t
  · rintro ⟨before, after, hb, ha, rfl⟩
    rw [strip_surrounded hb ha, hs]

/-- Nothing is trimmed of a text that neither begins nor ends with the trimmed kind. -/
theorem strip_of_ends (hfirst : ∀ c ∈ s.head?, p c = false) (hlast : ∀ c ∈ s.getLast?, p c = false) : strip p s = s := by
  have hdrop : ∀ l : List Char, (∀ c ∈ l.head?, p c = false) → l.dropWhile p = l := by
    intro l hl
    cases l with
    | nil => rfl
    | cons c rest => rw [List.dropWhile_cons_of_neg (by simp [hl c rfl])]
  rw [strip, hdrop s hfirst, List.rdropWhile, hdrop _ (by rwa [List.head?_reverse]), List.reverse_reverse]

theorem strip_eq_self (hs : ∀ c ∈ s, p c = false) : strip p s = s :=
  strip_of_ends (fun c hc => hs c (List.mem_of_mem_head? hc)) fun c hc => hs c (List.mem_of_mem_getLast? hc)

end Strip

theorem removePrefix_append (s t : List Char) : removePrefix s (s ++ t) = t := by
  have hbegins : s.isPrefixOf (s ++ t) = true := List.isPrefixOf_iff_prefix.mpr (List.prefix_append s t)
  rw [removePrefix, if_pos hbegins, List.drop_left]

end Relayix.Library.Text
