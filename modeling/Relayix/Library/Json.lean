import Mathlib.Data.List.Sort

/-! JSON texts.

`text` writes a value with compact separators and nothing but ASCII: in a string, the seven
characters with a letter of their own, any other control or non-ASCII character by its four
hexadecimal digits, and a character beyond the first plane by its two surrogates. A text tells the
value that it is the text of, and where it ends, whatever follows it. -/
namespace Relayix.Library

inductive Json where
  | null
  | int (n : Int)
  | str (s : String)
  | arr (items : List Json)
  | obj (fields : List (String × Json))

namespace Json

/-! ### Characters -/

def hexDigits (n : Nat) : List Char :=
  [Nat.digitChar (n / 4096 % 16), Nat.digitChar (n / 256 % 16), Nat.digitChar (n / 16 % 16), Nat.digitChar (n % 16)]

def unicode (n : Nat) : List Char := '\\' :: 'u' :: hexDigits n

/-- The characters that are written as a letter behind a backslash. -/
def letters : List (Char × Char) :=
  [('"', '"'), ('\\', '\\'), ('\n', 'n'), ('\r', 'r'), ('\t', 't'), (Char.ofNat 0x0c, 'f'), (Char.ofNat 0x08, 'b')]

def escape (c : Char) : List Char :=
  match letters.lookup c with
  | some letter => ['\\', letter]
  | none =>
    if ' ' ≤ c ∧ c ≤ '~' then [c]
    else if c.toNat < 0x10000 then unicode c.toNat
    else unicode (0xd800 + (c.toNat - 0x10000) / 0x400) ++ unicode (0xdc00 + (c.toNat - 0x10000) % 0x400)

/-! Read back: a code unit, and a character. -/

def hexValue (c : Char) : Nat := if c.toNat < 97 then c.toNat - 48 else c.toNat - 87

def codeUnit : List Char → Option (Nat × List Char)
  | '\\' :: 'u' :: a :: b :: c :: d :: rest =>
    some (((hexValue a * 16 + hexValue b) * 16 + hexValue c) * 16 + hexValue d, rest)
  | _ => none

/-- A character without a code unit: one with a letter of its own, or itself. -/
def plain : List Char → Option (Char × List Char)
  | '\\' :: letter :: rest => (letters.find? fun p => p.2 = letter).map fun p => (p.1, rest)
  | c :: rest => some (c, rest)
  | [] => none

def unescape (text : List Char) : Option (Char × List Char) :=
  match codeUnit text with
  | none => plain text
  | some (n, rest) =>
    if 0xd800 ≤ n ∧ n < 0xdc00 then
      (codeUnit rest).map fun (m, rest) => (Char.ofNat (0x10000 + (n - 0xd800) * 0x400 + (m - 0xdc00)), rest)
    else some (Char.ofNat n, rest)

theorem hexValue_digitChar {n : Nat} (h : n < 16) : hexValue (Nat.digitChar n) = n := by
  have all : ∀ n < 16, hexValue (Nat.digitChar n) = n := by decide
  exact all n h

theorem codeUnit_unicode {n : Nat} (h : n < 0x10000) (rest : List Char) : codeUnit (unicode n ++ rest) = some (n, rest) := by
  have hdigit : ∀ m, hexValue (Nat.digitChar (m % 16)) = m % 16 := fun m => hexValue_digitChar (Nat.mod_lt m (by decide))
  simp only [unicode, hexDigits, List.cons_append, List.nil_append, codeUnit, hdigit, Option.some.injEq, Prod.mk.injEq, and_true]
  omega

theorem letters_read : ∀ p ∈ letters, ∀ rest, unescape ('\\' :: p.2 :: rest) = some (p.1, rest) := by
  intro p hp rest
  simp only [letters, List.mem_cons, List.not_mem_nil, or_false] at hp
  rcases hp with rfl | rfl | rfl | rfl | rfl | rfl | rfl <;> rfl

theorem plain_self {c : Char} (h : c ≠ '\\') (rest : List Char) : unescape (c :: rest) = some (c, rest) := by
  have hunit : codeUnit (c :: rest) = none := by
    unfold codeUnit
    split
    · rename_i heq
      exact absurd (List.cons.inj heq).1 h
    · rfl
  unfold unescape
  rw [hunit]
  show plain (c :: rest) = some (c, rest)
  unfold plain
  split
  · rename_i heq
    exact absurd (List.cons.inj heq).1 h
  · rename_i heq
    rw [(List.cons.inj heq).1, (List.cons.inj heq).2]
  · rename_i heq
    cases heq

/-- A character of the first plane is no surrogate. -/
theorem not_surrogate (c : Char) : ¬ (0xd800 ≤ c.toNat ∧ c.toNat < 0xdc00) := by
  have hvalid : c.toNat < 0xd800 ∨ (0xdfff < c.toNat ∧ c.toNat < 0x110000) := c.valid
  omega

/-- A text that a string may have for a character: itself, a letter of its own, or its code units. -/
inductive Spells (c : Char) : List Char → Prop where
  | itself : ' ' ≤ c → c ≠ '"' → c ≠ '\\' → Spells c [c]
  | letter {l : Char} : (c, l) ∈ letters → Spells c ['\\', l]
  | unit : c.toNat < 0x10000 → Spells c (unicode c.toNat)
  | pair : 0x10000 ≤ c.toNat →
      Spells c (unicode (0xd800 + (c.toNat - 0x10000) / 0x400) ++ unicode (0xdc00 + (c.toNat - 0x10000) % 0x400))

/-- A character is read back, whatever follows it. -/
theorem Spells.unescape {c : Char} {t : List Char} (h : Spells c t) (rest : List Char) :
    Json.unescape (t ++ rest) = some (c, rest) := by
  cases h with
  | itself _ _ hc => exact plain_self hc rest
  | letter hl => exact letters_read _ hl rest
  | unit hplane =>
    unfold Json.unescape
    rw [codeUnit_unicode hplane]
    dsimp only
    rw [if_neg (not_surrogate c), Char.ofNat_toNat]
  | pair hplane =>
    have hlast : c.toNat < 0x110000 := by
      have hvalid : c.toNat < 0xd800 ∨ (0xdfff < c.toNat ∧ c.toNat < 0x110000) := c.valid
      omega
    unfold Json.unescape
    rw [List.append_assoc, codeUnit_unicode (by omega)]
    dsimp only
    rw [if_pos (by omega), codeUnit_unicode (by omega), Option.map_some]
    have hvalue : 0x10000 + (0xd800 + (c.toNat - 0x10000) / 0x400 - 0xd800) * 0x400 +
        (0xdc00 + (c.toNat - 0x10000) % 0x400 - 0xdc00) = c.toNat := by omega
    dsimp only
    rw [hvalue, Char.ofNat_toNat]

/-- What is written of a character does not begin with a quote. -/
theorem Spells.head {c : Char} {t : List Char} (h : Spells c t) : ∃ x rest, t = x :: rest ∧ x ≠ '"' := by
  cases h with
  | itself _ hc _ => exact ⟨c, [], rfl, hc⟩
  | letter _ => exact ⟨'\\', _, rfl, by decide⟩
  | unit _ => exact ⟨'\\', _, rfl, by decide⟩
  | pair _ => exact ⟨'\\', _, rfl, by decide⟩

theorem escape_spells (c : Char) : Spells c (escape c) := by
  unfold escape
  cases hletter : letters.lookup c with
  | some letter =>
    obtain ⟨l₁, l₂, heq, _⟩ := List.lookup_eq_some_iff.mp hletter
    refine .letter ?_
    rw [heq]
    exact List.mem_append_right _ List.mem_cons_self
  | none =>
    dsimp only
    split
    · rename_i hprintable
      refine .itself hprintable.1 ?_ ?_
      · rintro rfl
        cases hletter
      · rintro rfl
        cases hletter
    · split
      · rename_i hplane
        exact .unit hplane
      · rename_i hplane
        exact .pair (not_lt.mp hplane)

theorem unescape_escape (c : Char) (rest : List Char) : unescape (escape c ++ rest) = some (c, rest) :=
  (escape_spells c).unescape rest

theorem escape_injective {c d : Char} {r s : List Char} (h : escape c ++ r = escape d ++ s) : c = d ∧ r = s := by
  have hread := (unescape_escape c r).symm.trans ((congrArg unescape h).trans (unescape_escape d s))
  exact Prod.mk.inj (Option.some.inj hread)

/-! ### Strings -/

/-- The rest of a string, its closing quote included. -/
def unquoted : List Char → List Char
  | [] => ['"']
  | c :: cs => escape c ++ unquoted cs

def quote (s : String) : List Char := '"' :: unquoted s.toList

theorem unquoted_injective {xs ys r s : List Char} (h : unquoted xs ++ r = unquoted ys ++ s) : xs = ys ∧ r = s := by
  induction xs generalizing ys with
  | nil =>
    cases ys with
    | nil => exact ⟨rfl, (List.cons.inj h).2⟩
    | cons y ys =>
      obtain ⟨x, rest, hescape, hx⟩ := (escape_spells y).head
      rw [unquoted, unquoted, hescape] at h
      exact absurd (List.cons.inj h).1.symm hx
  | cons x xs ih =>
    cases ys with
    | nil =>
      obtain ⟨y, rest, hescape, hy⟩ := (escape_spells x).head
      rw [unquoted, unquoted, hescape] at h
      exact absurd (List.cons.inj h).1 hy
    | cons y ys =>
      rw [unquoted, unquoted, List.append_assoc, List.append_assoc] at h
      obtain ⟨rfl, hrest⟩ := escape_injective h
      obtain ⟨rfl, rfl⟩ := ih hrest
      exact ⟨rfl, rfl⟩

theorem quote_injective {x y : String} {r s : List Char} (h : quote x ++ r = quote y ++ s) : x = y ∧ r = s := by
  obtain ⟨hlist, hrest⟩ := unquoted_injective (List.cons.inj h).2
  exact ⟨String.toList_inj.mp hlist, hrest⟩

/-! ### Numbers -/

/-- What follows a number does not begin with a digit. -/
def Delimited (rest : List Char) : Prop := ∀ c ∈ rest.head?, c.isDigit = false

def digits : Int → List Char
  | .ofNat n => Nat.toDigits 10 n
  | .negSucc n => '-' :: Nat.toDigits 10 (n + 1)

theorem toDigits_injective {m n : Nat} {r s : List Char} (hr : Delimited r) (hs : Delimited s)
    (h : Nat.toDigits 10 m ++ r = Nat.toDigits 10 n ++ s) : m = n ∧ r = s := by
  have hread : ∀ (k : Nat) (rest : List Char), Delimited rest →
      (Nat.toDigits 10 k ++ rest).takeWhile Char.isDigit = Nat.toDigits 10 k := by
    intro k rest hrest
    rw [List.takeWhile_append_of_pos fun c hc => Nat.isDigit_of_mem_toDigits (by decide) (by decide) hc]
    cases rest with
    | nil => simp
    | cons c rest => simp [hrest c rfl]
  have hdigits : Nat.toDigits 10 m = Nat.toDigits 10 n := by
    rw [← hread m r hr, ← hread n s hs, h]
  have hvalue := congrArg (fun cs => Nat.ofDigitChars 10 cs 0) hdigits
  simp only [Nat.ofDigitChars_ten_toDigits] at hvalue
  rw [hdigits] at h
  exact ⟨hvalue, List.append_cancel_left h⟩

theorem toDigits_head (n : Nat) : ∃ x rest, Nat.toDigits 10 n = x :: rest ∧ x.isDigit = true := by
  obtain ⟨x, rest, h⟩ := List.exists_cons_of_ne_nil (Nat.toDigits_ne_nil (b := 10) (n := n))
  exact ⟨x, rest, h, Nat.isDigit_of_mem_toDigits (by decide) (by decide) (h ▸ List.mem_cons_self)⟩

theorem digits_injective {m n : Int} {r s : List Char} (hr : Delimited r) (hs : Delimited s)
    (h : digits m ++ r = digits n ++ s) : m = n ∧ r = s := by
  have hsign : ∀ (k : Nat) (t u : List Char), Nat.toDigits 10 k ++ t ≠ '-' :: u := by
    intro k t u heq
    obtain ⟨x, rest, hx, hdigit⟩ := toDigits_head k
    rw [hx] at heq
    rw [(List.cons.inj heq).1] at hdigit
    exact absurd hdigit (by decide)
  cases m with
  | ofNat m =>
    cases n with
    | ofNat n =>
      obtain ⟨rfl, rfl⟩ := toDigits_injective hr hs h
      exact ⟨rfl, rfl⟩
    | negSucc n => exact absurd h (hsign m r _)
  | negSucc m =>
    cases n with
    | ofNat n => exact absurd h.symm (hsign n s _)
    | negSucc n =>
      obtain ⟨heq, rfl⟩ := toDigits_injective hr hs (List.cons.inj h).2
      obtain rfl := Nat.succ.inj heq
      exact ⟨rfl, rfl⟩

/-! ### Values -/

mutual

def text : Json → List Char
  | .null => ['n', 'u', 'l', 'l']
  | .int n => digits n
  | .str s => quote s
  | .arr [] => ['[', ']']
  | .arr (x :: xs) => '[' :: (text x ++ items xs)
  | .obj [] => ['\x7b', '\x7d']
  | .obj ((k, x) :: fields) => '\x7b' :: (quote k ++ ':' :: (text x ++ members fields))

/-- The items behind the first one. -/
def items : List Json → List Char
  | [] => [']']
  | x :: xs => ',' :: (text x ++ items xs)

/-- The fields behind the first one. -/
def members : List (String × Json) → List Char
  | [] => ['\x7d']
  | (k, x) :: fields => ',' :: (quote k ++ ':' :: (text x ++ members fields))

end

theorem items_delimited (xs : List Json) (r : List Char) : Delimited (items xs ++ r) := by
  intro c hc
  cases xs with
  | nil => cases hc; rfl
  | cons x xs => cases hc; rfl

theorem members_delimited (fields : List (String × Json)) (r : List Char) : Delimited (members fields ++ r) := by
  intro c hc
  cases fields with
  | nil => cases hc; rfl
  | cons x xs => cases hc; rfl

/-- The kind of a value. -/
def kind : Json → Nat
  | .null => 0
  | .int _ => 1
  | .str _ => 2
  | .arr _ => 3
  | .obj _ => 4

/-- The kind of the value that a character begins, 5 where it begins none. -/
def begins (c : Char) : Nat :=
  if c = '-' ∨ c.isDigit then 1
  else if c = 'n' then 0 else if c = '"' then 2 else if c = '[' then 3 else if c = '\x7b' then 4 else 5

theorem begins_digits (n : Int) : ∃ c rest, digits n = c :: rest ∧ begins c = 1 := by
  cases n with
  | ofNat n =>
    obtain ⟨c, rest, h, hdigit⟩ := toDigits_head n
    exact ⟨c, rest, h, if_pos (.inr hdigit)⟩
  | negSucc n => exact ⟨'-', _, rfl, if_pos (.inl rfl)⟩

theorem text_begins (x : Json) : ∃ c rest, text x = c :: rest ∧ begins c = kind x := by
  match x with
  | .null => exact ⟨'n', _, rfl, rfl⟩
  | .int n => exact begins_digits n
  | .str s => exact ⟨'"', _, rfl, rfl⟩
  | .arr [] => exact ⟨'[', _, rfl, rfl⟩
  | .arr (_ :: _) => exact ⟨'[', _, rfl, rfl⟩
  | .obj [] => exact ⟨'\x7b', _, rfl, rfl⟩
  | .obj ((_, _) :: _) => exact ⟨'\x7b', _, rfl, rfl⟩

/-- No value begins with a bracket that closes one. -/
theorem text_ne {d : Char} (hd : begins d = 5) (x : Json) (t u : List Char) : d :: t ≠ text x ++ u := by
  obtain ⟨c, rest, h, hc⟩ := text_begins x
  intro heq
  rw [h] at heq
  rw [← (List.cons.inj heq).1, hd] at hc
  cases x <;> cases hc

theorem kind_eq {x y : Json} {r s : List Char} (h : text x ++ r = text y ++ s) : kind x = kind y := by
  obtain ⟨c, rest, hx, hc⟩ := text_begins x
  obtain ⟨d, rest', hy, hd⟩ := text_begins y
  rw [hx, hy] at h
  rw [← hc, ← hd, (List.cons.inj h).1]

mutual

/-- The text of a value tells the value, and where it ends. -/
theorem text_injective (x y : Json) {r s : List Char} (hr : Delimited r) (hs : Delimited s)
    (h : text x ++ r = text y ++ s) : x = y ∧ r = s := by
  have hkind := kind_eq h
  match x, y with
  | .null, .null => exact ⟨rfl, by simpa [text] using h⟩
  | .int m, .int n =>
    obtain ⟨rfl, rfl⟩ := digits_injective hr hs h
    exact ⟨rfl, rfl⟩
  | .str x, .str y =>
    obtain ⟨rfl, rfl⟩ := quote_injective h
    exact ⟨rfl, rfl⟩
  | .arr [], .arr [] => exact ⟨rfl, by simpa [text] using h⟩
  | .arr [], .arr (y :: ys) =>
    simp only [text, List.cons_append, List.append_assoc] at h
    exact absurd (List.cons.inj h).2 (text_ne rfl y r _)
  | .arr (x :: xs), .arr [] =>
    simp only [text, List.cons_append, List.append_assoc] at h
    exact absurd (List.cons.inj h).2.symm (text_ne rfl x s _)
  | .arr (x :: xs), .arr (y :: ys) =>
    simp only [text, List.cons_append, List.append_assoc] at h
    obtain ⟨hx, hrest⟩ := text_injective x y (items_delimited xs r) (items_delimited ys s) (List.cons.inj h).2
    obtain ⟨hxs, hr⟩ := items_injective xs ys hrest
    exact ⟨by rw [hx, hxs], hr⟩
  | .obj [], .obj [] => exact ⟨rfl, by simpa [text] using h⟩
  | .obj [], .obj ((l, y) :: ys) => cases (List.cons.inj (List.cons.inj h).2).1
  | .obj ((k, x) :: xs), .obj [] => cases (List.cons.inj (List.cons.inj h).2).1
  | .obj ((k, x) :: xs), .obj ((l, y) :: ys) =>
    simp only [text, List.cons_append, List.append_assoc] at h
    obtain ⟨hk, hvalue⟩ := quote_injective (List.cons.inj h).2
    obtain ⟨hx, hrest⟩ := text_injective x y (members_delimited xs r) (members_delimited ys s) (List.cons.inj hvalue).2
    obtain ⟨hxs, hr⟩ := members_injective xs ys hrest
    exact ⟨by rw [hk, hx, hxs], hr⟩

theorem items_injective (xs ys : List Json) {r s : List Char} (h : items xs ++ r = items ys ++ s) : xs = ys ∧ r = s := by
  match xs, ys with
  | [], [] => exact ⟨rfl, (List.cons.inj h).2⟩
  | [], y :: ys => cases (List.cons.inj h).1
  | x :: xs, [] => cases (List.cons.inj h).1
  | x :: xs, y :: ys =>
    simp only [items, List.cons_append, List.append_assoc] at h
    obtain ⟨hx, hrest⟩ := text_injective x y (items_delimited xs r) (items_delimited ys s) (List.cons.inj h).2
    obtain ⟨hxs, hr⟩ := items_injective xs ys hrest
    exact ⟨by rw [hx, hxs], hr⟩

theorem members_injective (xs ys : List (String × Json)) {r s : List Char} (h : members xs ++ r = members ys ++ s) :
    xs = ys ∧ r = s := by
  match xs, ys with
  | [], [] => exact ⟨rfl, (List.cons.inj h).2⟩
  | [], (l, y) :: ys => cases (List.cons.inj h).1
  | (k, x) :: xs, [] => cases (List.cons.inj h).1
  | (k, x) :: xs, (l, y) :: ys =>
    simp only [members, List.cons_append, List.append_assoc] at h
    obtain ⟨hk, hvalue⟩ := quote_injective (List.cons.inj h).2
    obtain ⟨hx, hrest⟩ := text_injective x y (members_delimited xs r) (members_delimited ys s) (List.cons.inj hvalue).2
    obtain ⟨hxs, hr⟩ := members_injective xs ys hrest
    exact ⟨by rw [hk, hx, hxs], hr⟩

end

/-! ### Sorted keys -/

mutual

/-- `sort_keys=True` -/
def sortKeys : Json → Json
  | .arr items => .arr (sortItems items)
  | .obj fields => .obj ((sortMembers fields).insertionSort fun a b => a.1 ≤ b.1)
  | .null => .null
  | .int n => .int n
  | .str s => .str s

def sortItems : List Json → List Json
  | [] => []
  | x :: xs => sortKeys x :: sortItems xs

def sortMembers : List (String × Json) → List (String × Json)
  | [] => []
  | (k, x) :: fields => (k, sortKeys x) :: sortMembers fields

end

theorem sortItems_eq_map (xs : List Json) : sortItems xs = xs.map sortKeys := by
  induction xs with
  | nil => rfl
  | cons x xs ih => rw [sortItems, ih, List.map_cons]

/-- `json.dumps(x, sort_keys=True, separators=(",", ":"))` -/
def dumps (x : Json) : String := String.ofList (text (sortKeys x))

theorem dumps_injective {x y : Json} (h : dumps x = dumps y) : sortKeys x = sortKeys y := by
  have htext : text (sortKeys x) ++ [] = text (sortKeys y) ++ [] := by
    rw [List.append_nil, List.append_nil]
    exact String.ofList_injective h
  exact (text_injective _ _ (fun c hc => by cases hc) (fun c hc => by cases hc) htext).1

end Json
end Relayix.Library
