import Relayix.Services.IdempotencyCalls

/-! What one step of a call can do.

`Move` lists it once: leave the entry of the key alone, claim a free key, write a final
record, or delete the claim. Each case says what the call's stage was and becomes, so an
invariant of all the calls is a case analysis on `Move`, whatever the call was doing. -/
namespace Relayix
open Library

namespace Stage

/-- The key was acquired, and its claim was never settled. -/
def held : Stage → Bool
  | .unsure | .committed | .lapsed => true
  | _ => false

/-- The key was acquired, and the call still has to settle it. -/
def owns : Stage → Bool
  | .unsure | .committed => true
  | _ => false

/-- A step that leaves the entry alone. -/
def leads : Stage → Stage → Bool
  | .outside, b => b = .outside || b = .settled
  | .unsure, b => b ≠ .outside
  | .committed, b => b = .committed || b = .lapsed || b = .settled
  | .lapsed, b => b = .lapsed || b = .settled
  | .settled, b => b = .settled

/-- A set of stages that a call enters by acquiring the key and leaves for good. -/
structure Tracked (P : Stage → Bool) : Prop where
  back : ∀ {a b}, a.leads b = true → P b = true → P a = true
  unsure : P .unsure = true
  committed : P .committed = true
  settled : P .settled = false

theorem held_tracked : Tracked held where
  back {a b} h hb := by cases a <;> cases b <;> simp_all [leads, held]
  unsure := rfl
  committed := rfl
  settled := rfl

theorem owns_tracked : Tracked owns where
  back {a b} h hb := by cases a <;> cases b <;> simp_all [leads, owns]
  unsure := rfl
  committed := rfl
  settled := rfl

end Stage

namespace IdempotencyService

/-! ### Reading a history -/

/-- A `SET NX` that was answered yes. -/
def claimed : Event redisI Exn → Bool
  | ⟨.set _ _ true _, .ok true⟩ => true
  | _ => false

/-- The call got its claim. -/
def acquires : Event (redisI.sum callI) Exn → Bool
  | ⟨.inl c, a⟩ => claimed ⟨c, a⟩
  | ⟨.inr _, _⟩ => false

/-- A write that ends a claim, however Redis answered it. -/
def settles : Event (redisI.sum callI) Exn → Bool
  | ⟨.inl (.set _ _ false _), _⟩ => true
  | ⟨.inl (.delete _), _⟩ => true
  | _ => false

/-- The operation returned, or its outcome is in doubt. -/
def commits : Event (redisI.sum callI) Exn → Bool
  | ⟨.inr (.inl .run), .ok _⟩ => true
  | ⟨.inr (.inl .prime), .ok _⟩ => true
  | ⟨.inr (.inl .run), .error e⟩ => e.isUpstreamAmbiguous
  | ⟨.inr (.inl .prime), .error e⟩ => e.isUpstreamAmbiguous
  | _ => false

/-- The outcome of `await operation()`. -/
def returns : Event (redisI.sum callI) Exn → Bool
  | ⟨.inr (.inl .run), _⟩ => true
  | ⟨.inr (.inl .prime), _⟩ => true
  | _ => false

/-! ### Single commands -/

section Commands
variable {J : Interface} {w w' : Redis} {name : String} {value : Record} {nx : Bool} {ex : Int}

/-- A `SET` that did nothing was not answered yes; one that wrote was not answered no. -/
theorem served_set {a : Except Exn Bool}
    (h : (served J).answers w (.inl (.set name value nx ex)) a w') :
    (w' = w ∧ a ≠ .ok true) ∨
      (w' = w.write name value ex ∧ a ≠ .ok false ∧ (nx = true → w.find name = none)) := by
  rcases h with h | ⟨e, ha, hw⟩
  · rcases w.exec_set name value nx ex with he | he | ⟨hnx, he⟩
    · rw [he] at h
      cases h
      exact .inl ⟨rfl, fun h => by cases h⟩
    · rw [he] at h
      cases h
      exact .inl ⟨rfl, fun h => by cases h⟩
    · rw [he] at h
      cases h
      exact .inr ⟨rfl, (fun h => by cases h), hnx⟩
  · have hane : ∀ b, a ≠ .ok b := by
      intro b hb
      rw [hb] at ha
      cases ha
    rcases hw with hw | hw
    · exact .inl ⟨hw, hane true⟩
    · rcases w.exec_set name value nx ex with he | he | ⟨hnx, he⟩
      · exact .inl ⟨by rw [hw, he], hane true⟩
      · exact .inl ⟨by rw [hw, he], hane true⟩
      · exact .inr ⟨by rw [hw, he], hane false, hnx⟩

theorem served_get {a : Except Exn (Option Record)}
    (h : (served J).answers w (.inl (.get name)) a w') : w' = w := by
  rcases h with h | ⟨_, _, h | h⟩
  · cases h
    rfl
  · exact h
  · exact h

theorem served_delete {a : Except Exn Nat}
    (h : (served J).answers w (.inl (.delete name)) a w') : w' = w ∨ w' = w.erase name := by
  rcases h with h | ⟨_, _, h | h⟩
  · cases h
    exact .inr rfl
  · exact .inl h
  · exact .inr h

/-! What Redis answers when it fails nobody. -/

theorem exec_granted (hex : 0 < ex) (h : w.find name = none) :
    (sound J).answers w (.inl (.set name value true ex)) (.ok true) (w.write name value ex) := by
  show (Except.ok true, w.write name value ex) = w.exec (.set name value true ex)
  simp [Redis.exec, not_le.mpr hex, Expiring.read_eq_none.mpr h]

theorem exec_taken (hex : 0 < ex) (h : w.find name = none) :
    (served J).answers w (.inl (.set name value true ex)) (.ok true) (w.write name value ex) :=
  served_of_healthy (healthy_of_sound (exec_granted hex h))

theorem exec_refused {e : Expires Record} (hex : 0 < ex) (h : w.find name = some e) :
    (served J).answers w (.inl (.set name value true ex)) (.ok false) w := by
  left
  simp [Redis.exec, not_le.mpr hex, Expiring.read, h]

theorem exec_write (hex : 0 < ex) :
    (served J).answers w (.inl (.set name value false ex)) (.ok true) (w.write name value ex) := by
  left
  simp [Redis.exec, not_le.mpr hex]

theorem exec_look : (served J).answers w (.inl (.get name)) (.ok (w.read name)) w := .inl rfl

theorem exec_delete : (served J).answers w (.inl (.delete name))
    (.ok (if (w.read name).isSome then 1 else 0)) (w.erase name) := .inl rfl

end Commands

/-! ### Moves -/

/-- What a step from phase `q` to phase `q'` can do to the entry of the key. -/
inductive Move (st : RedisIdempotencyStore) (name : String) (w w' : Redis) (q q' : Phase)
    (e : Event (redisI.sum callI) Exn) : Prop where
  | keep (same : w' = w) (leads : q.stage.leads q'.stage = true) (quiet : acquires e = false)
      (ends : q.stage.held = true → q'.stage.held = true ∨ settles e = true)
  | claim (fingerprint : String)
      (cmd : e.cmd = .inl (.set name (.claimed fingerprint) true st.inflightTtlS))
      (free : w.find name = none) (wrote : w' = w.write name (.claimed fingerprint) st.inflightTtlS)
      (outside : q.stage = .outside)
      (takes : (acquires e = true ∧ q' = .running) ∨ (acquires e = false ∧ q'.stage = .settled))
  | store (record : Record) (written : record.Written)
      (cmd : e.cmd = .inl (.set name record false st.completedTtlS))
      (wrote : w' = w.write name record st.completedTtlS) (committed : q.stage = .committed)
      (after : q'.stage = .settled ∨ (q = .delivering ∧ q' = .parking ∧ ∀ a, e ≠ ⟨e.cmd, .ok a⟩))
  | free (cmd : e.cmd = .inl (.delete name)) (wrote : w' = w.erase name) (releasing : q = .releasing)
      (after : q'.stage = .settled)

section Cases
variable {st : RedisIdempotencyStore} {name : String} {w w' : Redis} {q : Phase}

/-- A `SET` of a final record, from where it is due. -/
theorem move_of_store {record : Record} {a : Except Exn Bool} (hrec : record.Written)
    (hq : q.stage = .committed)
    (hafter : ∀ a : Except Exn Bool,
      (q.next (.inl (.set name record false st.completedTtlS)) a).stage = .settled ∨
      (q = .delivering ∧ q.next (.inl (.set name record false st.completedTtlS)) a = .parking ∧
        ∃ e, a = .error e))
    (ha : (served callI).answers w (.inl (.set name record false st.completedTtlS)) a w') :
    Move st name w w' q (q.next (.inl (.set name record false st.completedTtlS)) a)
      ⟨.inl (.set name record false st.completedTtlS), a⟩ := by
  rcases served_set ha with ⟨hw, _⟩ | ⟨hw, _, _⟩
  · refine .keep hw ?_ rfl fun _ => .inr rfl
    rw [hq]
    rcases hafter a with h | ⟨_, h, _⟩ <;> rw [h] <;> rfl
  · refine .store record hrec rfl hw hq ?_
    rcases hafter a with h | ⟨hd, h, e, he⟩
    · exact .inl h
    · refine .inr ⟨hd, h, fun b hb => ?_⟩
      rw [he] at hb
      cases hb

/-- A failed operation. -/
theorem move_of_failing {ev : Event (redisI.sum callI) Exn} (e : Exn) (hev : acquires ev = false)
    (hw : w' = w) : Move st name w w' .running (.failing e) ev := by
  unfold Phase.failing
  split
  · exact .keep hw rfl hev fun _ => .inl rfl
  · exact .keep hw rfl hev fun _ => .inl rfl

/-- **Every step of a call is a move.** -/
theorem move_of_answers {c : (redisI.sum callI).Cmd} {a : Except Exn ((redisI.sum callI).Ans c)}
    (h : st.allows name q c) (ha : (served callI).answers w c a w') :
    Move st name w w' q (q.next c a) ⟨c, a⟩ := by
  cases q with
  | claiming =>
    obtain c | c := c
    · obtain ⟨fingerprint, rfl⟩ := h
      rcases served_set ha with ⟨hw, hno⟩ | ⟨hw, hyes, hfree⟩
      · rcases a with e | _ | _
        · exact .keep hw rfl rfl fun h => by cases h
        · exact .keep hw rfl rfl fun h => by cases h
        · exact absurd rfl hno
      · refine .claim fingerprint rfl (hfree rfl) hw rfl ?_
        rcases a with e | _ | _
        · exact .inr ⟨rfl, rfl⟩
        · exact absurd rfl hyes
        · exact .inl ⟨rfl, rfl⟩
    · exact h.elim
  | reading =>
    obtain c | c := c
    · obtain rfl : c = .get name := h
      have hw := served_get ha
      rcases a with e | _ | _ <;> exact .keep hw rfl rfl fun h => by cases h
    · exact h.elim
  | refused =>
    obtain c | c | c := c
    · exact h.elim
    · obtain rfl : c = .iterate := h
      rcases a with e | _ <;> exact .keep ha rfl rfl fun h => by cases h
    · rcases a with e | _ <;> exact .keep ha rfl rfl fun h => by cases h
  | running =>
    obtain c | c | c := c
    · exact h.elim
    · rcases h with rfl | rfl
      · rcases a with e | r
        · exact move_of_failing e rfl ha
        · exact .keep ha rfl rfl fun _ => .inl rfl
      · rcases a with e | upcoming
        · exact move_of_failing e rfl ha
        · exact .keep ha rfl rfl fun _ => .inl rfl
    · exact h.elim
  | answered =>
    obtain c | c := c
    · obtain ⟨fingerprint, r, rfl⟩ := h
      exact move_of_store (.completed fingerprint r) rfl (fun a => by cases a <;> exact .inl rfl) ha
    · exact h.elim
  | served =>
    obtain c | c | c := c
    · exact h.elim
    · exact h.elim
    · rcases a with e | _ <;> exact .keep ha rfl rfl fun h => by cases h
  | streaming upcoming =>
    obtain c | c | c := c
    · exact h.elim
    · rcases h with rfl | rfl
      · rcases a with e | _ <;> exact .keep ha rfl rfl fun _ => .inl rfl
      · rcases a with e | _
        · exact .keep ha rfl rfl fun _ => .inl rfl
        · cases upcoming <;> exact .keep ha rfl rfl fun _ => .inl rfl
    · rcases a with e | _ <;> exact .keep ha rfl rfl fun _ => .inl rfl
  | delivering =>
    obtain c | c | c := c
    · obtain ⟨fingerprint, r, rfl⟩ := h
      refine move_of_store (.completed fingerprint r) rfl (fun a => ?_) ha
      cases a with
      | ok _ => exact .inl rfl
      | error e => exact .inr ⟨rfl, rfl, e, rfl⟩
    · exact h.elim
    · rcases a with e | _ <;> exact .keep ha rfl rfl fun _ => .inl rfl
  | parking =>
    obtain c | c := c
    · obtain ⟨fingerprint, error, rfl⟩ := h
      exact move_of_store (.parked fingerprint error) rfl (fun _ => .inl rfl) ha
    · exact h.elim
  | releasing =>
    obtain c | c := c
    · obtain rfl : c = .delete name := h
      rcases served_delete ha with hw | hw
      · exact .keep hw rfl rfl fun _ => .inr rfl
      · exact .free rfl hw rfl rfl
    · exact h.elim
  | lapsed => obtain c | c | c := c <;> exact h.elim
  | ended => obtain c | c | c := c <;> exact h.elim

end Cases
end IdempotencyService
end Relayix
