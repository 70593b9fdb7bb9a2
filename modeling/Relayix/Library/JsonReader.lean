import Relayix.Library.JsonText

/-! Reading JSON texts.

`spaced` writes a value with a space behind every comma and colon; `loads` reads a text, blanks
between its tokens included. The reader takes fuel, and the length of a text is enough of it: what
was written is read back, whatever follows it. -/
namespace Relayix.Library
namespace Json

mutual

def spaced : Json → List Char
  | .null => ['n', 'u', 'l', 'l']
  | .int n => digits n
  | .str s => quote s
  | .arr [] => ['[', ']']
  | .arr (x :: xs) => '[' :: (spaced x ++ spacedItems xs)
  | .obj [] => ['\x7b', '\x7d']
  | .obj ((k, x) :: fields) => '\x7b' :: (quote k ++ ':' :: ' ' :: (spaced x ++ spacedMembers fields))

def spacedItems : List Json → List Char
  | [] => [']']
  | x :: xs => ',' :: ' ' :: (spaced x ++ spacedItems xs)

def spacedMembers : List (String × Json) → List Char
  | [] => ['\x7d']
  | (k, x) :: fields => ',' :: ' ' :: (quote k ++ ':' :: ' ' :: (spaced x ++ spacedMembers fields))

end

mutual

theorem spaced_writes (x : Json) : Writes x (spaced x) := by
  match x with
  | .null => exact .null
  | .int n => exact .int n
  | .str s => exact .str (unquoted_unquotes s.toList)
  | .arr [] => exact .emptyArr
  | .arr (x :: xs) => exact .arr (spaced_writes x) (spacedItems_writes xs)
  | .obj [] => exact .emptyObj
  | .obj ((k, x) :: fields) =>
    exact .obj 1 (unquoted_unquotes k.toList) (spaced_writes x) (spacedMembers_writes fields)

theorem spacedItems_writes (xs : List Json) : WritesItems xs (spacedItems xs) := by
  match xs with
  | [] => exact .nil
  | x :: xs => exact .cons 1 (spaced_writes x) (spacedItems_writes xs)

theorem spacedMembers_writes (fields : List (String × Json)) : WritesMembers fields (spacedMembers fields) := by
  match fields with
  | [] => exact .nil
  | (k, x) :: fields =>
    exact .cons 1 1 (unquoted_unquotes k.toList) (spaced_writes x) (spacedMembers_writes fields)

end

/-! ### Tokens -/

def blank (c : Char) : Bool := c == ' ' || c == '\n' || c == '\r' || c == '\t'

def skip (text : List Char) : List Char := text.dropWhile blank

/-- A string, behind its opening quote. -/
def unquote : Nat → List Char → Option (List Char × List Char)
  | 0, _ => none
  | fuel + 1, text =>
    if text.head? = some '"' then some ([], text.tail)
    else do
      let (c, rest) ← unescape text
      let (cs, rest) ← unquote fuel rest
      some (c :: cs, rest)

def readString (text : List Char) : Option (String × List Char) :=
  (unquote text.length text).map fun (cs, rest) => (String.ofList cs, rest)

def readNat (text : List Char) : Nat × List Char :=
  (Nat.ofDigitChars 10 (text.takeWhile Char.isDigit) 0, text.dropWhile Char.isDigit)

def readInt : List Char → Int × List Char
  | '-' :: text => (-((readNat text).1 : Int), (readNat text).2)
  | text => ((readNat text).1, (readNat text).2)

/-- A key, and the colon behind it. -/
def readKey (text : List Char) : Option (String × List Char) := do
  guard ((skip text).head? = some '"')
  let (k, rest) ← readString (skip text).tail
  guard ((skip rest).head? = some ':')
  some (k, (skip rest).tail)

/-! ### Values -/

mutual

def readValue : Nat → List Char → Option (Json × List Char)
  | 0, _ => none
  | fuel + 1, text =>
    match skip text with
    | [] => none
    | c :: rest =>
      match begins c with
      | 0 => if rest.take 3 = ['u', 'l', 'l'] then some (.null, rest.drop 3) else none
      | 1 => some (.int (readInt (c :: rest)).1, (readInt (c :: rest)).2)
      | 2 => (readString rest).map fun (s, rest) => (.str s, rest)
      | 3 =>
        if (skip rest).head? = some ']' then some (.arr [], (skip rest).tail)
        else do
          let (x, rest) ← readValue fuel rest
          let (xs, rest) ← readItems fuel rest
          some (.arr (x :: xs), rest)
      | 4 =>
        if (skip rest).head? = some '\x7d' then some (.obj [], (skip rest).tail)
        else do
          let (k, rest) ← readKey rest
          let (x, rest) ← readValue fuel rest
          let (fields, rest) ← readMembers fuel rest
          some (.obj ((k, x) :: fields), rest)
      | _ => none

def readItems : Nat → List Char → Option (List Json × List Char)
  | 0, _ => none
  | fuel + 1, text =>
    if (skip text).head? = some ']' then some ([], (skip text).tail)
    else do
      guard ((skip text).head? = some ',')
      let (x, rest) ← readValue fuel (skip text).tail
      let (xs, rest) ← readItems fuel rest
      some (x :: xs, rest)

def readMembers : Nat → List Char → Option (List (String × Json) × List Char)
  | 0, _ => none
  | fuel + 1, text =>
    if (skip text).head? = some '\x7d' then some ([], (skip text).tail)
    else do
      guard ((skip text).head? = some ',')
      let (k, rest) ← readKey (skip text).tail
      let (x, rest) ← readValue fuel rest
      let (fields, rest) ← readMembers fuel rest
      some ((k, x) :: fields, rest)

end

/-- `json.loads` -/
def loads (text : String) : Option Json := do
  let (x, rest) ← readValue text.toList.length text.toList
  guard (skip rest = [])
  some x

/-! ### Tokens are read back -/

theorem skip_cons {c : Char} (h : blank c = false) (rest : List Char) : skip (c :: rest) = c :: rest := by
  simp [skip, h]

theorem unquote_unquotes {cs t : List Char} (h : Unquotes cs t) {fuel : Nat} (hfuel : cs.length < fuel)
    (rest : List Char) : unquote fuel (t ++ rest) = some (cs, rest) := by
  induction h generalizing fuel with
  | nil =>
    cases fuel with
    | zero => cases hfuel
    | succ fuel => rfl
  | @cons c cs t ts hc _ ih =>
    cases fuel with
    | zero => cases hfuel
    | succ fuel =>
      have hhead : (t ++ ts ++ rest).head? ≠ some '"' := by
        obtain ⟨y, more, rfl, hy⟩ := hc.head
        simpa using hy
      rw [unquote, if_neg hhead, List.append_assoc, hc.unescape]
      simp [ih (Nat.lt_of_succ_lt_succ hfuel)]

theorem Unquotes.length_lt {cs t : List Char} (h : Unquotes cs t) : cs.length < t.length := by
  induction h with
  | nil => decide
  | cons hc _ ih =>
    obtain ⟨y, more, rfl, _⟩ := hc.head
    simp only [List.length_append, List.length_cons]
    omega

/-- A string is read back from behind its opening quote. -/
theorem readString_unquotes {s : String} {t : List Char} (h : Unquotes s.toList t) (rest : List Char) :
    readString (t ++ rest) = some (s, rest) := by
  have hfuel : s.toList.length < (t ++ rest).length := by
    have hlt := h.length_lt
    rw [List.length_append]
    omega
  rw [readString, unquote_unquotes h hfuel, Option.map_some]
  exact congrArg (fun k => some (k, rest)) String.ofList_toList

theorem readKey_unquotes {k : String} {t : List Char} (h : Unquotes k.toList t) (rest : List Char) :
    readKey ('"' :: (t ++ ':' :: rest)) = some (k, rest) := by
  have hquote : skip ('"' :: (t ++ ':' :: rest)) = '"' :: (t ++ ':' :: rest) := skip_cons rfl _
  have hcolon : skip (':' :: rest) = ':' :: rest := skip_cons rfl _
  simp [readKey, hquote, readString_unquotes h, hcolon]

theorem readNat_toDigits (n : Nat) {rest : List Char} (h : Delimited rest) :
    readNat (Nat.toDigits 10 n ++ rest) = (n, rest) := by
  have hall : ∀ c ∈ Nat.toDigits 10 n, c.isDigit = true :=
    fun c hc => Nat.isDigit_of_mem_toDigits (by decide) (by decide) hc
  have htake : rest.takeWhile Char.isDigit = [] := by
    cases rest with
    | nil => rfl
    | cons c rest => simp [h c rfl]
  have hdrop : rest.dropWhile Char.isDigit = rest := by
    cases rest with
    | nil => rfl
    | cons c rest => simp [h c rfl]
  rw [readNat, List.takeWhile_append_of_pos hall, List.dropWhile_append_of_pos hall, htake, hdrop, List.append_nil,
    Nat.ofDigitChars_ten_toDigits]

theorem readInt_digits (n : Int) {rest : List Char} (h : Delimited rest) : readInt (digits n ++ rest) = (n, rest) := by
  cases n with
  | ofNat n =>
    obtain ⟨c, more, hdigits, hdigit⟩ := toDigits_head n
    have hsign : c ≠ '-' := by
      rintro rfl
      cases hdigit
    have hread := readNat_toDigits n h
    show readInt (Nat.toDigits 10 n ++ rest) = (Int.ofNat n, rest)
    rw [hdigits, List.cons_append] at hread ⊢
    unfold readInt
    split
    · rename_i heq
      exact absurd (List.cons.inj heq).1 hsign
    · rw [hread]
      rfl
  | negSucc n =>
    show (-((readNat (Nat.toDigits 10 (n + 1) ++ rest)).1 : Int), (readNat (Nat.toDigits 10 (n + 1) ++ rest)).2) = _
    rw [readNat_toDigits (n + 1) h]
    rfl

/-! ### Values are read back -/

theorem Writes.begins_kind {x : Json} {t : List Char} (h : Writes x t) : ∃ c rest, t = c :: rest ∧ begins c = kind x := by
  cases h with
  | null => exact ⟨'n', _, rfl, rfl⟩
  | int n => exact begins_digits n
  | str _ => exact ⟨'"', _, rfl, rfl⟩
  | emptyArr => exact ⟨'[', _, rfl, rfl⟩
  | arr _ _ => exact ⟨'[', _, rfl, rfl⟩
  | emptyObj => exact ⟨'\x7b', _, rfl, rfl⟩
  | obj _ _ _ _ => exact ⟨'\x7b', _, rfl, rfl⟩

theorem kind_lt (x : Json) : kind x < 5 := by
  cases x <;> simp [kind]

/-- No value begins with a blank. -/
theorem Writes.skip_eq {x : Json} {t : List Char} (h : Writes x t) (rest : List Char) : skip (t ++ rest) = t ++ rest := by
  obtain ⟨c, more, rfl, hc⟩ := h.begins_kind
  have hblank : blank c = false := by
    by_contra hb
    have hlt := kind_lt x
    simp only [Bool.not_eq_false, blank, Bool.or_eq_true, beq_iff_eq] at hb
    rw [← hc] at hlt
    rcases hb with ((rfl | rfl) | rfl) | rfl <;> exact absurd hlt (by decide)
  exact skip_cons hblank _

/-- Nor with a bracket that closes one. -/
theorem Writes.skip_head {x : Json} {t : List Char} (h : Writes x t) {d : Char} (hd : begins d = 5) (rest : List Char) :
    (skip (t ++ rest)).head? ≠ some d := by
  have hskip := h.skip_eq rest
  obtain ⟨c, more, rfl, hc⟩ := h.begins_kind
  have hlt := kind_lt x
  rw [hskip]
  intro heq
  obtain rfl : c = d := by simpa using heq
  omega

theorem WritesItems.delimited {xs : List Json} {t : List Char} (h : WritesItems xs t) (rest : List Char) :
    Delimited (t ++ rest) := by
  intro c hc
  cases h with
  | nil => cases hc; rfl
  | cons _ _ _ => cases hc; rfl

theorem WritesMembers.delimited {fields : List (String × Json)} {t : List Char} (h : WritesMembers fields t)
    (rest : List Char) : Delimited (t ++ rest) := by
  intro c hc
  cases h with
  | nil => cases hc; rfl
  | cons _ _ _ _ _ => cases hc; rfl

theorem skip_spaces (n : Nat) (text : List Char) : skip (spaces n ++ text) = skip text := by
  induction n with
  | zero => rfl
  | succ n ih => exact ih

theorem readValue_spaces (fuel n : Nat) (text : List Char) : readValue fuel (spaces n ++ text) = readValue fuel text := by
  cases fuel with
  | zero => rfl
  | succ fuel => rw [readValue, readValue, skip_spaces]

theorem readKey_spaces (n : Nat) (text : List Char) : readKey (spaces n ++ text) = readKey text := by
  rw [readKey, readKey, skip_spaces]

mutual

/-- **A value is read back from any text of it**, whatever follows the text. -/
theorem readValue_writes (x : Json) {t : List Char} (h : Writes x t) {fuel : Nat} (hfuel : t.length ≤ fuel)
    {rest : List Char} (hrest : Delimited rest) : readValue fuel (t ++ rest) = some (x, rest) := by
  cases fuel with
  | zero =>
    obtain ⟨c, more, rfl, _⟩ := h.begins_kind
    cases hfuel
  | succ fuel =>
    match x, h with
    | .null, .null => rfl
    | .int n, .int _ =>
      obtain ⟨c, more, hdigits, hc⟩ := begins_digits n
      have hskip := (Writes.int n).skip_eq rest
      have hread := readInt_digits n hrest
      simp only [hdigits, List.cons_append] at hskip hread ⊢
      rw [readValue, hskip]
      simp [hc, hread]
    | .str s, @Writes.str _ t hs =>
      show (readString (t ++ rest)).map _ = _
      rw [readString_unquotes hs]
      rfl
    | .arr [], .emptyArr => rfl
    | .arr (x :: xs), @Writes.arr _ _ t ts hx hxs =>
      simp only [List.length_cons, List.length_append] at hfuel
      have hvalue : readValue fuel (t ++ (ts ++ rest)) = some (x, ts ++ rest) :=
        readValue_writes x hx (by omega) (hxs.delimited rest)
      have hitems : readItems fuel (ts ++ rest) = some (xs, rest) := readItems_writes xs hxs (by omega) rest
      have hopen : skip ('[' :: (t ++ (ts ++ rest))) = '[' :: (t ++ (ts ++ rest)) := skip_cons rfl _
      have hne := hx.skip_head (d := ']') rfl (ts ++ rest)
      simp only [List.cons_append, List.append_assoc]
      rw [readValue, hopen]
      simp [show begins '[' = 3 from rfl, hne, hvalue, hitems]
    | .obj [], .emptyObj => rfl
    | .obj ((k, x) :: fields), @Writes.obj _ _ _ kt t ts n hk hx hfields =>
      simp only [List.length_cons, List.length_append] at hfuel
      have hvalue : readValue fuel (t ++ (ts ++ rest)) = some (x, ts ++ rest) :=
        readValue_writes x hx (by omega) (hfields.delimited rest)
      have hmembers : readMembers fuel (ts ++ rest) = some (fields, rest) :=
        readMembers_writes fields hfields (by omega) rest
      have hkey := readKey_unquotes hk (spaces n ++ (t ++ (ts ++ rest)))
      have hquote : skip ('"' :: (kt ++ ':' :: (spaces n ++ (t ++ (ts ++ rest))))) =
          '"' :: (kt ++ ':' :: (spaces n ++ (t ++ (ts ++ rest)))) :=
        skip_cons rfl _
      have hopen : skip ('\x7b' :: '"' :: (kt ++ ':' :: (spaces n ++ (t ++ (ts ++ rest))))) =
          '\x7b' :: '"' :: (kt ++ ':' :: (spaces n ++ (t ++ (ts ++ rest)))) :=
        skip_cons rfl _
      simp only [List.cons_append, List.append_assoc]
      rw [readValue, hopen]
      simp [show begins '\x7b' = 4 from rfl, hquote, hkey, readValue_spaces, hvalue, hmembers]

theorem readItems_writes (xs : List Json) {t : List Char} (h : WritesItems xs t) {fuel : Nat} (hfuel : t.length ≤ fuel)
    (rest : List Char) : readItems fuel (t ++ rest) = some (xs, rest) := by
  match fuel, xs, h with
  | 0, _, .nil => cases hfuel
  | 0, _, .cons _ _ _ => cases hfuel
  | fuel + 1, _, .nil => rfl
  | fuel + 1, x :: xs, @WritesItems.cons _ _ t ts n hx hxs =>
    simp only [List.length_cons, List.length_append] at hfuel
    have hvalue : readValue fuel (t ++ (ts ++ rest)) = some (x, ts ++ rest) :=
      readValue_writes x hx (by omega) (hxs.delimited rest)
    have hitems : readItems fuel (ts ++ rest) = some (xs, rest) := readItems_writes xs hxs (by omega) rest
    have hcomma : skip (',' :: (spaces n ++ (t ++ (ts ++ rest)))) = ',' :: (spaces n ++ (t ++ (ts ++ rest))) :=
      skip_cons rfl _
    simp only [List.cons_append, List.append_assoc]
    rw [readItems, hcomma]
    simp [readValue_spaces, hvalue, hitems]

theorem readMembers_writes (fields : List (String × Json)) {t : List Char} (h : WritesMembers fields t) {fuel : Nat}
    (hfuel : t.length ≤ fuel) (rest : List Char) : readMembers fuel (t ++ rest) = some (fields, rest) := by
  match fuel, fields, h with
  | 0, _, .nil => cases hfuel
  | 0, _, .cons _ _ _ _ _ => cases hfuel
  | fuel + 1, _, .nil => rfl
  | fuel + 1, (k, x) :: fields, @WritesMembers.cons _ _ _ kt t ts m n hk hx hfields =>
    simp only [List.length_cons, List.length_append] at hfuel
    have hvalue : readValue fuel (t ++ (ts ++ rest)) = some (x, ts ++ rest) :=
      readValue_writes x hx (by omega) (hfields.delimited rest)
    have hmembers : readMembers fuel (ts ++ rest) = some (fields, rest) :=
      readMembers_writes fields hfields (by omega) rest
    have hkey := readKey_unquotes hk (spaces n ++ (t ++ (ts ++ rest)))
    have hcomma : skip (',' :: (spaces m ++ '"' :: (kt ++ ':' :: (spaces n ++ (t ++ (ts ++ rest)))))) =
        ',' :: (spaces m ++ '"' :: (kt ++ ':' :: (spaces n ++ (t ++ (ts ++ rest))))) :=
      skip_cons rfl _
    simp only [List.cons_append, List.append_assoc]
    rw [readMembers, hcomma]
    simp [readKey_spaces, hkey, readValue_spaces, hvalue, hmembers]

end

/-- Any text of a value is loaded as the value. -/
theorem loads_writes {x : Json} {t : List Char} (h : Writes x t) : loads (String.ofList t) = some x := by
  have hread := readValue_writes x h (le_refl _) (show Delimited [] from fun _ hc => by cases hc)
  rw [List.append_nil] at hread
  have htext : (String.ofList t).toList = t := String.toList_ofList
  unfold loads
  rw [htext, hread]
  rfl

/-- `json.loads(json.dumps(x))` -/
theorem loads_spaced (x : Json) : loads (String.ofList (spaced x)) = some x := loads_writes (spaced_writes x)

/-! ### Fields -/

/-- `d[key]` and `d.get(key)`: the last field with that key counts. -/
def field? (key : String) : Json → Option Json
  | .obj fields => fields.reverse.lookup key
  | _ => none

def str? : Json → Option String
  | .str s => some s
  | _ => none

def int? : Json → Option Int
  | .int n => some n
  | _ => none

end Json
end Relayix.Library
