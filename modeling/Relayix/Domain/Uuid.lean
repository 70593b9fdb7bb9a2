import Mathlib.Data.Nat.Digits.Defs
import Relayix.Domain.Chat

/-! The text of a UUID.

Its 36 characters are fixed in number and tell the UUID, so a name that puts it before anything
else belongs to one UUID only. -/
namespace Relayix
namespace UUID

theorem digitChar_injective {m n : Nat} (hm : m < 16) (hn : n < 16) (h : Nat.digitChar m = Nat.digitChar n) : m = n := by
  have all : ∀ m < 16, ∀ n < 16, Nat.digitChar m = Nat.digitChar n → m = n := by decide
  exact all m hm n hn h

/-- The lowest `k` digits of two numbers agree. -/
theorem mod_eq_of_digits {m n : Nat} (h : ∀ i, i < 32 → m / 16 ^ i % 16 = n / 16 ^ i % 16) {k : Nat} (hk : k ≤ 32) :
    m % 16 ^ k = n % 16 ^ k := by
  induction k with
  | zero => rw [Nat.pow_zero, Nat.mod_one, Nat.mod_one]
  | succ k ih => rw [Nat.mod_pow_succ, Nat.mod_pow_succ, ih (Nat.le_of_succ_le hk), h k hk]

theorem hex_length (u : UUID) : u.hex.length = 32 := by
  rw [hex, List.length_map, List.length_range]

theorem hex_injective {u v : UUID} (h : u.hex = v.hex) : u = v := by
  have hdigits : ∀ i, i < 32 → u.bits.toNat / 16 ^ i % 16 = v.bits.toNat / 16 ^ i % 16 := by
    intro i hi
    have hchar : Nat.digitChar (u.bits.toNat / 16 ^ (31 - (31 - i)) % 16) =
        Nat.digitChar (v.bits.toNat / 16 ^ (31 - (31 - i)) % 16) :=
      List.map_inj_left.mp h (31 - i) (List.mem_range.mpr (by omega))
    rw [Nat.sub_sub_self (Nat.le_of_lt_succ hi)] at hchar
    exact digitChar_injective (Nat.mod_lt _ (by decide)) (Nat.mod_lt _ (by decide)) hchar
  have hbits := mod_eq_of_digits hdigits (le_refl 32)
  have hlt : ∀ w : UUID, w.bits.toNat < 16 ^ 32 := fun w => w.bits.isLt
  rw [Nat.mod_eq_of_lt (hlt u), Nat.mod_eq_of_lt (hlt v)] at hbits
  obtain ⟨ubits⟩ := u
  obtain ⟨vbits⟩ := v
  exact congrArg UUID.mk (BitVec.eq_of_toNat_eq hbits)

/-- The characters of the text. -/
theorem toList_str (u : UUID) :
    u.str.toList = u.hex.take 8 ++ '-' :: ((u.hex.drop 8).take 4 ++ '-' :: ((u.hex.drop 12).take 4 ++
      '-' :: ((u.hex.drop 16).take 4 ++ '-' :: u.hex.drop 20))) := by
  simp [str, List.append_assoc]

theorem str_length (u : UUID) : u.str.toList.length = 36 := by
  simp [toList_str, hex_length]

theorem take_append_drop_drop {α : Type} (l : List α) (n m : Nat) : (l.drop n).take m ++ l.drop (n + m) = l.drop n := by
  rw [← List.drop_drop, List.take_append_drop]

/-- The digits, in the groups that the text puts them in. -/
theorem split_hex (d : List Char) :
    d = d.take 8 ++ ((d.drop 8).take 4 ++ ((d.drop 12).take 4 ++ ((d.drop 16).take 4 ++ d.drop 20))) := by
  rw [take_append_drop_drop d 16 4, take_append_drop_drop d 12 4, take_append_drop_drop d 8 4, List.take_append_drop]

theorem str_injective {u v : UUID} (h : u.str = v.str) : u = v := by
  have h := congrArg String.toList h
  rw [toList_str, toList_str] at h
  obtain ⟨h₁, h⟩ := List.append_inj h (by simp [hex_length])
  obtain ⟨h₂, h⟩ := List.append_inj (List.cons.inj h).2 (by simp [hex_length])
  obtain ⟨h₃, h⟩ := List.append_inj (List.cons.inj h).2 (by simp [hex_length])
  obtain ⟨h₄, h⟩ := List.append_inj (List.cons.inj h).2 (by simp [hex_length])
  have h₅ := (List.cons.inj h).2
  apply hex_injective
  rw [split_hex u.hex, split_hex v.hex, h₁, h₂, h₃, h₄, h₅]

end UUID
end Relayix
