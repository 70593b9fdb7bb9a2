import Relayix.Core.Resilience.Callers

/-! What holds of a breaker under any interleaving of its callers. -/
namespace Relayix
open Library

variable {ι : Type}

/-- The five fields of the breaker against the callers that still hold a generation. -/
structure Consistent (w : Clocked) (q : ι → Client) : Prop where
  bound : ∀ i n, q i = .holding n → n ≤ w.breaker.generation
  trial : w.breaker.trialInFlight = true ↔
    w.breaker.state = .halfOpen ∧ ∃ i, q i = .holding w.breaker.generation
  exclusive : w.breaker.state ≠ .closed →
    ∀ i j, q i = .holding w.breaker.generation → q j = .holding w.breaker.generation → i = j
  opened : w.breaker.state = .opened → ∀ i, q i ≠ .holding w.breaker.generation
  cooled : w.breaker.state = .halfOpen → w.breaker.openedAt + w.breaker.resetTimeoutS ≤ w.now

namespace Consistent
variable {w : Clocked} {q : ι → Client} {i : ι}

theorem elapse (h : Consistent w q) {now : ℚ} (hn : w.now ≤ now) : Consistent ⟨w.breaker, now⟩ q :=
  ⟨h.bound, h.trial, h.exclusive, h.opened, fun hs => (h.cooled hs).trans hn⟩

theorem no_trial (h : Consistent w q) (hs : w.breaker.state ≠ .halfOpen) :
    w.breaker.trialInFlight = false := by
  cases ht : w.breaker.trialInFlight with
  | false => rfl
  | true => exact absurd (h.trial.mp ht).1 hs

/-- In a half-open breaker without a trial nobody holds the current generation. -/
theorem idle (h : Consistent w q) (hs : w.breaker.state = .halfOpen)
    (ht : w.breaker.trialInFlight = false) (j : ι) : q j ≠ .holding w.breaker.generation := by
  intro hj
  have := h.trial.mpr ⟨hs, j, hj⟩
  rw [ht] at this
  cases this

/-- Who holds the current generation of a half-open breaker is its trial. -/
theorem alone (h : Consistent w q) (hs : w.breaker.state ≠ .closed)
    (hi : q i = .holding w.breaker.generation) {j : ι} (hj : j ≠ i) :
    q j ≠ .holding w.breaker.generation :=
  fun h' => hj (h.exclusive hs j i h' hi)

theorem halfOpen_of_holding (h : Consistent w q) (hs : w.breaker.state ≠ .closed)
    (hi : q i = .holding w.breaker.generation) : w.breaker.state = .halfOpen := by
  cases hb : w.breaker.state with
  | closed => exact absurd hb hs
  | opened => exact absurd hi (h.opened hb i)
  | halfOpen => rfl

variable [DecidableEq ι]

theorem update_holding {r : Client} {j : ι} {n : Nat}
    (h : Function.update q i r j = .holding n) : (j = i ∧ r = .holding n) ∨ (j ≠ i ∧ q j = .holding n) := by
  by_cases hj : j = i
  · subst hj
    rw [Function.update_self] at h
    exact .inl ⟨rfl, h⟩
  · rw [Function.update_of_ne hj] at h
    exact .inr ⟨hj, h⟩

/-- The breaker did not move, and the caller holds no more than before. -/
theorem drop (h : Consistent w q) {r : Client} (hi : q i ≠ .holding w.breaker.generation)
    (hr : r = .finished) : Consistent w (Function.update q i r) := by
  subst hr
  have back : ∀ j n, Function.update q i Client.finished j = .holding n → q j = .holding n := by
    intro j n hj
    rcases update_holding hj with ⟨_, h'⟩ | ⟨_, h'⟩
    · cases h'
    · exact h'
  refine ⟨fun j n hj => h.bound j n (back j n hj), ?_, fun hs j k hj hk => ?_, fun hs j hj => ?_,
    h.cooled⟩
  · rw [h.trial]
    refine and_congr_right fun _ => ⟨fun ⟨j, hj⟩ => ⟨j, ?_⟩, fun ⟨j, hj⟩ => ⟨j, back j _ hj⟩⟩
    have hne : j ≠ i := fun he => hi (by rw [← he]; exact hj)
    rw [Function.update_of_ne hne]
    exact hj
  · exact h.exclusive hs j k (back j _ hj) (back k _ hk)
  · exact h.opened hs j (back j _ hj)

/-- A new generation: everything handed out before is retired. -/
theorem enter (h : Consistent w q) {w' : Clocked} {r : Client}
    (hg : w'.breaker.generation = w.breaker.generation + 1)
    (hr : r = .finished ∧ w'.breaker.trialInFlight = false ∧ w'.breaker.state ≠ .halfOpen ∨
      r = .holding w'.breaker.generation ∧ w'.breaker.trialInFlight = true ∧
        w'.breaker.state = .halfOpen ∧ w'.breaker.openedAt + w'.breaker.resetTimeoutS ≤ w'.now) :
    Consistent w' (Function.update q i r) := by
  have old : ∀ j, q j ≠ .holding w'.breaker.generation := by
    intro j hj
    have := h.bound j _ hj
    omega
  have only : ∀ j, Function.update q i r j = .holding w'.breaker.generation →
      j = i ∧ r = .holding w'.breaker.generation := by
    intro j hj
    rcases update_holding hj with h' | ⟨_, h'⟩
    · exact h'
    · exact absurd h' (old j)
  have bound : ∀ j n, Function.update q i r j = .holding n → n ≤ w'.breaker.generation := by
    intro j n hj
    rcases update_holding hj with ⟨_, h'⟩ | ⟨_, h'⟩
    · rcases hr with ⟨rfl, _⟩ | ⟨rfl, _⟩
      · cases h'
      · cases h'
        exact le_refl _
    · have := h.bound j n h'
      omega
  refine ⟨bound, ?_, fun _ j k hj hk => (only j hj).1.trans (only k hk).1.symm, fun hs j hj => ?_,
    fun hs => ?_⟩
  · rcases hr with ⟨rfl, ht, hs⟩ | ⟨rfl, ht, hs, _⟩
    · exact ⟨fun h' => (Bool.false_ne_true (ht.symm.trans h')).elim, fun h' => absurd h'.1 hs⟩
    · exact ⟨fun _ => ⟨hs, i, by rw [Function.update_self]⟩, fun _ => ht⟩
  · rcases hr with ⟨rfl, _⟩ | ⟨rfl, _, hs', _⟩
    · cases (only j hj).2
    · rw [hs] at hs'
      cases hs'
  · rcases hr with ⟨_, _, hs'⟩ | ⟨_, _, _, hc⟩
    · exact absurd hs hs'
    · exact hc

/-- A report that leaves the breaker in its state: the slot, if it was one, is free. -/
theorem settle (h : Consistent w q) {w' : Clocked} (hi : q i = .holding w.breaker.generation)
    (hg : w'.breaker.generation = w.breaker.generation) (hs : w'.breaker.state = w.breaker.state)
    (ht : w'.breaker.trialInFlight = false)
    (hc : w'.breaker.openedAt = w.breaker.openedAt ∧ w'.now = w.now ∧
      w'.breaker.resetTimeoutS = w.breaker.resetTimeoutS) :
    Consistent w' (Function.update q i .finished) := by
  have back : ∀ j n, Function.update q i Client.finished j = .holding n → j ≠ i ∧ q j = .holding n := by
    intro j n hj
    rcases update_holding hj with ⟨_, h'⟩ | h'
    · cases h'
    · exact h'
  have none_left : w.breaker.state ≠ .closed →
      ∀ j, Function.update q i Client.finished j ≠ .holding w.breaker.generation := by
    intro hs' j hj
    exact h.alone hs' hi (back j _ hj).1 (back j _ hj).2
  refine ⟨fun j n hj => by rw [hg]; exact h.bound j n (back j n hj).2, ?_, fun hs' j k hj hk => ?_,
    fun hs' j hj => ?_, fun hs' => ?_⟩
  · rw [ht, hs, hg]
    refine ⟨fun h' => (Bool.false_ne_true h').elim, fun ⟨hh, j, hj⟩ => absurd hj ?_⟩
    exact none_left (by rw [hh]; decide) j
  · rw [hs] at hs'
    rw [hg] at hj
    exact absurd hj (none_left hs' j)
  · rw [hs] at hs'
    exact absurd hi (h.opened hs' i)
  · rw [hs] at hs'
    rw [hc.1, hc.2.1, hc.2.2]
    exact h.cooled hs'

/-- An admission under the current generation. -/
theorem admitted (h : Consistent w q) {w' : Clocked}
    (hg : w'.breaker.generation = w.breaker.generation) (hs : w'.breaker.state = w.breaker.state)
    (ht : w.breaker.state = .closed ∧ w'.breaker.trialInFlight = false ∨
      w.breaker.state = .halfOpen ∧ w.breaker.trialInFlight = false ∧ w'.breaker.trialInFlight = true)
    (hc : w'.breaker.openedAt = w.breaker.openedAt ∧ w'.now = w.now ∧
      w'.breaker.resetTimeoutS = w.breaker.resetTimeoutS) :
    Consistent w' (Function.update q i (.holding w.breaker.generation)) := by
  refine ⟨fun j n hj => ?_, ?_, fun hs' j k hj hk => ?_, fun hs' => ?_, fun hs' => ?_⟩
  · rw [hg]
    rcases update_holding hj with ⟨_, h'⟩ | ⟨_, h'⟩
    · cases h'
      exact le_refl _
    · exact h.bound j n h'
  · rw [hs, hg]
    rcases ht with ⟨hcl, ht⟩ | ⟨hh, _, ht⟩
    · rw [ht, hcl]
      exact ⟨fun h' => (Bool.false_ne_true h').elim, fun h' => by cases h'.1⟩
    · exact ⟨fun _ => ⟨hh, i, by rw [Function.update_self]⟩, fun _ => ht⟩
  · rw [hs] at hs'
    rw [hg] at hj hk
    rcases ht with ⟨hcl, _⟩ | ⟨hh, hf, _⟩
    · exact absurd hcl hs'
    · have only : ∀ l, Function.update q i (.holding w.breaker.generation) l =
          .holding w.breaker.generation → l = i := by
        intro l hl
        rcases update_holding hl with ⟨h', _⟩ | ⟨_, h'⟩
        · exact h'
        · exact absurd h' (h.idle hh hf l)
      exact (only j hj).trans (only k hk).symm
  · rw [hs] at hs'
    rcases ht with ⟨hcl, _⟩ | ⟨hh, _⟩
    · rw [hs'] at hcl
      cases hcl
    · rw [hs'] at hh
      cases hh
  · rw [hs] at hs'
    rw [hc.1, hc.2.1, hc.2.2]
    exact h.cooled hs'

/-- Every move keeps the breaker and its callers consistent. -/
theorem move (h : Consistent w q) {w' : Clocked} {r : Client} (hm : Move w (q i) w' r) :
    Consistent w' (Function.update q i r) := by
  generalize hq : q i = qi at hm
  cases hm with
  | other =>
    rw [← hq, Function.update_eq_self]
    exact h
  | pass hs => exact h.admitted rfl rfl (.inl ⟨hs, h.no_trial (by rw [hs]; decide)⟩) ⟨rfl, rfl, rfl⟩
  | probe hs ht =>
    refine h.enter rfl (.inr ⟨rfl, rfl, rfl, ?_⟩)
    show w.breaker.openedAt + w.breaker.resetTimeoutS ≤ w.now
    linarith
  | trial hs ht => exact h.admitted rfl rfl (.inr ⟨hs, ht, rfl⟩) ⟨rfl, rfl, rfl⟩
  | refused => exact h.drop (by rw [hq]; exact Client.noConfusion) rfl
  | stale hg => exact h.drop (by rw [hq]; exact fun he => hg (by cases he; rfl)) rfl
  | close hs => exact h.enter rfl (.inl ⟨rfl, rfl, CircuitState.noConfusion⟩)
  | reset hs => exact h.settle hq rfl rfl rfl ⟨rfl, rfl, rfl⟩
  | trip hs => exact h.enter rfl (.inl ⟨rfl, rfl, CircuitState.noConfusion⟩)
  | count hs hf => exact h.settle hq rfl rfl rfl ⟨rfl, rfl, rfl⟩
  | abort => exact h.settle hq rfl rfl rfl ⟨rfl, rfl, rfl⟩

end Consistent
end Relayix
