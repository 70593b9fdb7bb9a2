import Mathlib.Algebra.Order.Ring.Rat
import Mathlib.Logic.Function.Basic

/-! A key-value store whose entries expire.

An entry keeps the moment it expires; from then on no command sees it, whether or
not the store still holds its bytes. `find` is what a command sees, so every
operation is described by what it does to `find`, at its own key and elsewhere. -/
namespace Relayix.Library

structure Expires (V : Type) where
  value : V
  deadline : ℚ
  deriving DecidableEq

structure Expiring (κ V : Type) where
  now : ℚ
  entries : κ → Option (Expires V)

variable {κ V : Type}

namespace Expiring
variable (s : Expiring κ V) (k : κ)

/-- The entry that commands see. At its deadline it is gone already, where a server that counts in
milliseconds still shows it until the next one. -/
def find : Option (Expires V) := (s.entries k).filter fun e => s.now < e.deadline

def read : Option V := (s.find k).map Expires.value

def write [DecidableEq κ] (v : V) (ttl : ℚ) : Expiring κ V :=
  { s with entries := Function.update s.entries k (some ⟨v, s.now + ttl⟩) }

def erase [DecidableEq κ] : Expiring κ V :=
  { s with entries := Function.update s.entries k none }

/-- Nothing but time has passed. -/
structure Waits (s s' : Expiring κ V) : Prop where
  later : s.now ≤ s'.now
  entries : s'.entries = s.entries

variable {s k}

theorem find_eq_some {e : Expires V} : s.find k = some e ↔ s.entries k = some e ∧ s.now < e.deadline := by
  simp [find, Option.filter_eq_some_iff]

/-- What is not seen is absent or expired. -/
theorem find_eq_none : s.find k = none ↔ ∀ e, s.entries k = some e → e.deadline ≤ s.now := by
  simp [find, Option.filter_eq_none_iff]

theorem read_eq_some {v : V} : s.read k = some v ↔ ∃ e, s.find k = some e ∧ e.value = v := by
  simp [read]

theorem read_eq_none : s.read k = none ↔ s.find k = none := by
  simp [read]

section Updates
variable [DecidableEq κ] {k' : κ} {v : V} {ttl : ℚ}

@[simp] theorem write_now : (s.write k v ttl).now = s.now := rfl
@[simp] theorem erase_now : (s.erase k).now = s.now := rfl

@[simp] theorem write_entries_self : (s.write k v ttl).entries k = some ⟨v, s.now + ttl⟩ := by
  simp [write]

@[simp] theorem erase_entries_self : (s.erase k).entries k = none := by
  simp [erase]

/-- The last write counts. -/
theorem write_write {v' : V} {ttl' : ℚ} : (s.write k v' ttl').write k v ttl = s.write k v ttl := by
  simp [write]

/-- What was just written has not expired. -/
theorem write_fresh (h : 0 < ttl) {e : Expires V} (he : (s.write k v ttl).entries k = some e) :
    (s.write k v ttl).now < e.deadline := by
  rw [write_entries_self] at he
  cases he
  exact lt_add_of_pos_right _ h

theorem write_entries_ne (h : k' ≠ k) : (s.write k v ttl).entries k' = s.entries k' := by
  simp [write, h]

theorem erase_entries_ne (h : k' ≠ k) : (s.erase k).entries k' = s.entries k' := by
  simp [erase, h]

end Updates

theorem Waits.refl (s : Expiring κ V) : Waits s s := ⟨le_rfl, rfl⟩

theorem Waits.trans {s' s'' : Expiring κ V} (h : Waits s s') (h' : Waits s' s'') : Waits s s'' :=
  ⟨h.later.trans h'.later, h'.entries.trans h.entries⟩

/-- An entry is gone once its time is up. -/
theorem Waits.expired [DecidableEq κ] {v : V} {ttl : ℚ} {s' : Expiring κ V}
    (h : Waits (s.write k v ttl) s') (ht : s.now + ttl ≤ s'.now) : s'.find k = none := by
  refine find_eq_none.mpr fun e he => ?_
  rw [h.entries, write_entries_self] at he
  cases he
  exact ht

/-- Until then it is read as it was written. -/
theorem Waits.kept [DecidableEq κ] {v : V} {ttl : ℚ} {s' : Expiring κ V}
    (h : Waits (s.write k v ttl) s') (ht : s'.now < s.now + ttl) : s'.read k = some v := by
  have hentry : s'.entries k = some ⟨v, s.now + ttl⟩ := by rw [h.entries, write_entries_self]
  exact read_eq_some.mpr ⟨_, find_eq_some.mpr ⟨hentry, ht⟩, rfl⟩

/-! ### The entries of one kind -/

section Narrow
variable {U : Type} {f : V → Option U}

/-- The entries whose value is of a kind. -/
def narrow (f : V → Option U) (s : Expiring κ V) : Expiring κ U where
  now := s.now
  entries k := (s.entries k).bind fun e => (f e.value).map fun u => ⟨u, e.deadline⟩

@[simp] theorem narrow_now (s : Expiring κ V) : (s.narrow f).now = s.now := rfl

/-- A command sees of one kind what it sees. -/
theorem narrow_read (s : Expiring κ V) (k : κ) : (s.narrow f).read k = (s.read k).bind f := by
  unfold read find narrow
  dsimp only
  generalize s.entries k = entry
  cases entry with
  | none => rfl
  | some e => cases hf : f e.value <;> by_cases hlive : s.now < e.deadline <;> simp [hf, hlive, Option.filter_some]

theorem narrow_entries_eq_none {s : Expiring κ V} {k : κ} :
    (s.narrow f).entries k = none ↔ ∀ e, s.entries k = some e → f e.value = none := by
  simp [narrow, Option.bind_eq_none_iff]

/-- A key without an entry of the kind reads as nothing, or as something of another kind. -/
theorem read_not_of_kind {s : Expiring κ V} {k : κ} (h : (s.narrow f).entries k = none) {v : V} (hv : s.read k = some v) :
    f v = none := by
  obtain ⟨e, he, rfl⟩ := read_eq_some.mp hv
  exact narrow_entries_eq_none.mp h e (find_eq_some.mp he).1

theorem Waits.narrow {s s' : Expiring κ V} (h : Waits s s') : Waits (s.narrow f) (s'.narrow f) where
  later := h.later
  entries := by rw [Expiring.narrow, Expiring.narrow, h.entries]

variable [DecidableEq κ] {s : Expiring κ V} {k k' : κ} {v : V} {ttl : ℚ}

theorem narrow_write_of_kind {u : U} (hv : f v = some u) : (s.write k v ttl).narrow f = (s.narrow f).write k u ttl := by
  unfold narrow write
  congr 1
  funext k'
  by_cases hk : k' = k
  · subst hk
    simp [hv]
  · simp [hk]

/-- A write of another kind, where there was none of this one. -/
theorem narrow_write_of_other (hv : f v = none) (hk : (s.narrow f).entries k = none) :
    (s.write k v ttl).narrow f = s.narrow f := by
  have hentries : ((s.write k v ttl).narrow f).entries = (s.narrow f).entries := by
    funext k'
    by_cases hk' : k' = k
    · subst hk'
      rw [hk]
      simp [narrow, hv]
    · simp [narrow, write_entries_ne hk']
  exact congrArg (Expiring.mk s.now) hentries

theorem narrow_erase : (s.erase k).narrow f = (s.narrow f).erase k := by
  unfold narrow erase
  congr 1
  funext k'
  by_cases hk : k' = k
  · subst hk
    simp
  · simp [hk]

theorem erase_of_none {s : Expiring κ V} (h : s.entries k = none) : s.erase k = s := by
  unfold erase
  rw [← h, Function.update_eq_self]

end Narrow

end Expiring
end Relayix.Library
