import Relayix.Library.Json

/-! JSON texts on one line.

`Writes` has the texts that a value may have where nothing but spaces, and those only behind a comma
or a colon, is put between its tokens: each character of a string as itself or escaped, but a
control character always escaped. No such text holds a control character, a line break among them. -/
namespace Relayix.Library
namespace Json

/-- The rest of a string, its closing quote included. -/
inductive Unquotes : List Char → List Char → Prop where
  | nil : Unquotes [] ['"']
  | cons {c : Char} {cs t ts : List Char} : Spells c t → Unquotes cs ts → Unquotes (c :: cs) (t ++ ts)

def spaces (n : Nat) : List Char := List.replicate n ' '

mutual

inductive Writes : Json → List Char → Prop where
  | null : Writes .null ['n', 'u', 'l', 'l']
  | int (n : Int) : Writes (.int n) (digits n)
  | str {s : String} {t : List Char} : Unquotes s.toList t → Writes (.str s) ('"' :: t)
  | emptyArr : Writes (.arr []) ['[', ']']
  | arr {x : Json} {xs : List Json} {t ts : List Char} : Writes x t → WritesItems xs ts →
      Writes (.arr (x :: xs)) ('[' :: (t ++ ts))
  | emptyObj : Writes (.obj []) ['\x7b', '\x7d']
  | obj {k : String} {x : Json} {fields : List (String × Json)} {kt t ts : List Char} (n : Nat) :
      Unquotes k.toList kt → Writes x t → WritesMembers fields ts →
      Writes (.obj ((k, x) :: fields)) ('\x7b' :: '"' :: (kt ++ ':' :: (spaces n ++ (t ++ ts))))

/-- The items behind the first one. -/
inductive WritesItems : List Json → List Char → Prop where
  | nil : WritesItems [] [']']
  | cons {x : Json} {xs : List Json} {t ts : List Char} (n : Nat) : Writes x t → WritesItems xs ts →
      WritesItems (x :: xs) (',' :: (spaces n ++ (t ++ ts)))

/-- The fields behind the first one. -/
inductive WritesMembers : List (String × Json) → List Char → Prop where
  | nil : WritesMembers [] ['\x7d']
  | cons {k : String} {x : Json} {fields : List (String × Json)} {kt t ts : List Char} (m n : Nat) :
      Unquotes k.toList kt → Writes x t → WritesMembers fields ts →
      WritesMembers ((k, x) :: fields) (',' :: (spaces m ++ '"' :: (kt ++ ':' :: (spaces n ++ (t ++ ts)))))

end

theorem unquoted_unquotes (cs : List Char) : Unquotes cs (unquoted cs) := by
  induction cs with
  | nil => exact .nil
  | cons c cs ih => exact .cons (escape_spells c) ih

mutual

/-- The text with compact separators. -/
theorem text_writes (x : Json) : Writes x (text x) := by
  match x with
  | .null => exact .null
  | .int n => exact .int n
  | .str s => exact .str (unquoted_unquotes s.toList)
  | .arr [] => exact .emptyArr
  | .arr (x :: xs) => exact .arr (text_writes x) (items_writes xs)
  | .obj [] => exact .emptyObj
  | .obj ((k, x) :: fields) => exact .obj 0 (unquoted_unquotes k.toList) (text_writes x) (members_writes fields)

theorem items_writes (xs : List Json) : WritesItems xs (items xs) := by
  match xs with
  | [] => exact .nil
  | x :: xs => exact .cons 0 (text_writes x) (items_writes xs)

theorem members_writes (fields : List (String × Json)) : WritesMembers fields (members fields) := by
  match fields with
  | [] => exact .nil
  | (k, x) :: fields => exact .cons 0 0 (unquoted_unquotes k.toList) (text_writes x) (members_writes fields)

end

/-! ### No control characters -/

/-- Without control characters. -/
def OneLine (t : List Char) : Prop := ∀ c ∈ t, ' ' ≤ c

instance : DecidablePred OneLine := fun t => List.decidableBAll (fun c => ' ' ≤ c) t

theorem oneLine_cons {c : Char} {t : List Char} (hc : ' ' ≤ c) (ht : OneLine t) : OneLine (c :: t) :=
  List.forall_mem_cons.mpr ⟨hc, ht⟩

theorem oneLine_append {s t : List Char} (hs : OneLine s) (ht : OneLine t) : OneLine (s ++ t) :=
  List.forall_mem_append.mpr ⟨hs, ht⟩

theorem oneLine_spaces (n : Nat) : OneLine (spaces n) := by
  intro c hc
  exact List.eq_of_mem_replicate hc ▸ Char.le_refl ' '

theorem oneLine_toDigits (n : Nat) : OneLine (Nat.toDigits 10 n) := by
  intro c hc
  have hdigit := Nat.isDigit_of_mem_toDigits (by decide) (by decide) hc
  simp only [Char.isDigit, Bool.and_eq_true, decide_eq_true_eq] at hdigit
  exact Char.le_trans (by decide) hdigit.1

theorem oneLine_digits (n : Int) : OneLine (digits n) := by
  cases n with
  | ofNat n => exact oneLine_toDigits n
  | negSucc n => exact oneLine_cons (by decide) (oneLine_toDigits (n + 1))

theorem oneLine_hexDigits (n : Nat) : OneLine (hexDigits n) := by
  have hall : ∀ d < 16, ' ' ≤ Nat.digitChar d := by decide
  intro c hc
  simp only [hexDigits, List.mem_cons, List.not_mem_nil, or_false] at hc
  rcases hc with rfl | rfl | rfl | rfl <;> exact hall _ (Nat.mod_lt _ (by decide))

theorem oneLine_unicode (n : Nat) : OneLine (unicode n) :=
  oneLine_cons (by decide) (oneLine_cons (by decide) (oneLine_hexDigits n))

theorem Spells.oneLine {c : Char} {t : List Char} (h : Spells c t) : OneLine t := by
  cases h with
  | itself hc _ _ => exact oneLine_cons hc fun _ hx => absurd hx List.not_mem_nil
  | letter hl =>
    have hall : letters.all (fun p => OneLine ['\\', p.2]) = true := by decide
    exact of_decide_eq_true (List.all_eq_true.mp hall _ hl)
  | unit _ => exact oneLine_unicode _
  | pair _ => exact oneLine_append (oneLine_unicode _) (oneLine_unicode _)

theorem Unquotes.oneLine {cs t : List Char} (h : Unquotes cs t) : OneLine t := by
  induction h with
  | nil => decide
  | cons hc _ ih => exact oneLine_append hc.oneLine ih

mutual

/-- A text on one line has no control character. -/
theorem Writes.oneLine {x : Json} {t : List Char} (h : Writes x t) : OneLine t := by
  cases h with
  | null => decide
  | int n => exact oneLine_digits n
  | str hs => exact oneLine_cons (by decide) hs.oneLine
  | emptyArr => decide
  | arr hx hxs => exact oneLine_cons (by decide) (oneLine_append hx.oneLine hxs.oneLine)
  | emptyObj => decide
  | obj n hk hx hfields =>
    refine oneLine_cons (by decide) (oneLine_cons (by decide) (oneLine_append hk.oneLine ?_))
    exact oneLine_cons (by decide) (oneLine_append (oneLine_spaces n) (oneLine_append hx.oneLine hfields.oneLine))

theorem WritesItems.oneLine {xs : List Json} {t : List Char} (h : WritesItems xs t) : OneLine t := by
  cases h with
  | nil => decide
  | cons n hx hxs =>
    exact oneLine_cons (by decide) (oneLine_append (oneLine_spaces n) (oneLine_append hx.oneLine hxs.oneLine))

theorem WritesMembers.oneLine {fields : List (String × Json)} {t : List Char} (h : WritesMembers fields t) : OneLine t := by
  cases h with
  | nil => decide
  | cons m n hk hx hfields =>
    refine oneLine_cons (by decide) (oneLine_append (oneLine_spaces m) (oneLine_cons (by decide) (oneLine_append hk.oneLine ?_)))
    exact oneLine_cons (by decide) (oneLine_append (oneLine_spaces n) (oneLine_append hx.oneLine hfields.oneLine))

end

end Json
end Relayix.Library
