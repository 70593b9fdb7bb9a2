import Relayix.Core.Accounting.Pricing
import Relayix.Library.Text

/-! Secrets (`infra/security/crypto.py`, and what is used of `secrets`).

`sha256` is the hexadecimal digest of some bytes, and a parameter wherever it is taken. -/
namespace Relayix
open Library

/-- The characters of `secrets.token_urlsafe`. -/
def isUrlSafe (c : Char) : Bool := c.isAlphanum || c = '-' || c = '_'

/-- What `secrets.token_urlsafe` draws. -/
structure UrlSafe where
  str : String
  alphabet : str.toList.all isUrlSafe = true
  deriving DecidableEq

def generateApiKey (drawn : UrlSafe) : String := "rlx_" ++ drawn.str

def hashApiKey (sha256 : ByteArray → String) (token : String) : String := sha256 token.toUTF8

/-- `str.isascii`, of a character -/
def isAscii (c : Char) : Bool := c.toNat < 128

def notAscii : Exn := .exception "TypeError" "comparing strings with non-ASCII characters is not supported"

/-- `secrets.compare_digest`, of two strings -/
def compareDigest (a b : String) : Except Exn Bool :=
  if a.toList.all isAscii && b.toList.all isAscii then .ok (a = b) else .error notAscii

theorem isUpper_range {c : Char} (h : c.isUpper = true) : 65 ≤ c.toNat ∧ c.toNat ≤ 90 := of_decide_eq_true h

theorem isLower_range {c : Char} (h : c.isLower = true) : 97 ≤ c.toNat ∧ c.toNat ≤ 122 := by
  obtain ⟨hlow, hhigh⟩ := (Bool.and_eq_true _ _).mp h
  exact ⟨of_decide_eq_true hlow, of_decide_eq_true hhigh⟩

/-- They are all visible. -/
theorem isUrlSafe_range {c : Char} (h : isUrlSafe c = true) : 45 ≤ c.toNat ∧ c.toNat ≤ 122 := by
  rcases (Bool.or_eq_true _ _).mp h with h | hline
  · rcases (Bool.or_eq_true _ _).mp h with h | hdash
    · rcases (Bool.or_eq_true _ _).mp h with halpha | hdigit
      · rcases (Bool.or_eq_true _ _).mp halpha with hupper | hlower
        · have hrange := isUpper_range hupper
          omega
        · have hrange := isLower_range hlower
          omega
      · have hrange := Char.isDigit_iff_toNat.mp hdigit
        exact ⟨Nat.le_trans (by decide) hrange.1, Nat.le_trans hrange.2 (by decide)⟩
    · rw [of_decide_eq_true hdash]
      decide
  · rw [of_decide_eq_true hline]
    decide

theorem isSpace_of_isUrlSafe {c : Char} (h : isUrlSafe c = true) : isSpace c = false := by
  obtain ⟨hlow, hhigh⟩ := isUrlSafe_range h
  simp only [isSpace, Bool.or_eq_false_iff, decide_eq_false_iff_not, List.mem_cons, List.not_mem_nil, or_false,
    Bool.and_eq_false_iff]
  omega

theorem generateApiKey_ne_empty (drawn : UrlSafe) : generateApiKey drawn ≠ "" := by
  simp [generateApiKey]

/-- A token has nothing to trim. -/
theorem strip_generateApiKey (drawn : UrlSafe) :
    Text.strip isSpace (generateApiKey drawn).toList = (generateApiKey drawn).toList := by
  refine Text.strip_eq_self fun c hc => ?_
  rw [generateApiKey, String.toList_append, List.mem_append] at hc
  rcases hc with hbegins | hdrawn
  · have hall : "rlx_".toList.all isUrlSafe = true := by decide
    exact isSpace_of_isUrlSafe (List.all_eq_true.mp hall c hbegins)
  · exact isSpace_of_isUrlSafe (List.all_eq_true.mp drawn.alphabet c hdrawn)

end Relayix
