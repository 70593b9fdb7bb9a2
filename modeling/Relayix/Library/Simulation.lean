import Mathlib.Data.List.Forall2
import Relayix.Library.Pool

/-! Runs of one pool against two worlds.

A `Simulation` says what a state of one world and a state of the other have in common for the programs
that ask only some of the commands, `Within`: these get the same answers from both, and every other
command, `Beside`, leaves it as it was. A run in the first world is then one in the second, and the
threads that ask beside it can be taken out of it, step by step, without any change for those
that stay (`Run.without`). -/
namespace Relayix.Library

/-- What those who ask only commands in `Within` can tell of a state, whoever else asks `Beside`. -/
structure Simulation {I : Interface} {ε W W₁ : Type} (V : World I ε W) (V₁ : World I ε W₁) (Within Beside : I.Cmd → Prop) where
  same : W → W₁ → Prop
  within : ∀ {w : W} {w₁ : W₁} {w' : W} {c : I.Cmd} {a : Except ε (I.Ans c)}, Within c → same w w₁ →
    V.answers w c a w' → ∃ w₁', V₁.answers w₁ c a w₁' ∧ same w' w₁'
  beside : ∀ {w : W} {w₁ : W₁} {w' : W} {c : I.Cmd} {a : Except ε (I.Ans c)}, Beside c → same w w₁ →
    V.answers w c a w' → same w' w₁
  elapses : ∀ {w : W} {w₁ : W₁} {w' : W}, same w w₁ → V.elapses w w' → ∃ w₁', V₁.elapses w₁ w₁' ∧ same w' w₁'

variable {I : Interface} {ε ι W W₁ : Type} {V : World I ε W} {V₁ : World I ε W₁} {Within Beside : I.Cmd → Prop}

/-- The same thread was answered the same, in states that it relates. -/
structure Simulation.Alike (S : Simulation V V₁ Within Beside) (s : Step I ε ι W) (s₁ : Step I ε ι W₁) : Prop where
  thread : s₁.thread = s.thread
  event : s₁.event = s.event
  before : S.same s.before s₁.before

/-- The steps of a history that the chosen threads took. -/
def stepsOf (mine : ι → Prop) [DecidablePred mine] (h : List (Step I ε ι W)) : List (Step I ε ι W) :=
  h.filter fun s => mine s.thread

section Steps
variable {mine : ι → Prop} [DecidablePred mine] {h : List (Step I ε ι W)} {h₁ : List (Step I ε ι W₁)}
  {s : Step I ε ι W} {S : Simulation V V₁ Within Beside}

theorem stepsOf_snoc (hs : mine s.thread) : stepsOf mine (h ++ [s]) = stepsOf mine h ++ [s] := by
  simp [stepsOf, hs]

theorem stepsOf_snoc_of_not (hs : ¬ mine s.thread) : stepsOf mine (h ++ [s]) = stepsOf mine h := by
  simp [stepsOf, hs]

/-- The history on the other side, around the step that is like `s`. -/
theorem Simulation.split {pre post : List (Step I ε ι W)} (hf : List.Forall₂ S.Alike (pre ++ s :: post) h₁) :
    ∃ pre₁ s₁ post₁, h₁ = pre₁ ++ s₁ :: post₁ ∧ List.Forall₂ S.Alike pre pre₁ ∧ S.Alike s s₁ ∧
      List.Forall₂ S.Alike post post₁ := by
  induction pre generalizing h₁ with
  | nil =>
    obtain ⟨s₁, post₁, hs, hpost, rfl⟩ := List.forall₂_cons_left_iff.mp hf
    exact ⟨[], s₁, post₁, rfl, .nil, hs, hpost⟩
  | cons x pre ih =>
    obtain ⟨x₁, rest, hx, hrest, rfl⟩ := List.forall₂_cons_left_iff.mp hf
    obtain ⟨pre₁, s₁, post₁, rfl, hpre, hs, hpost⟩ := ih hrest
    exact ⟨x₁ :: pre₁, s₁, post₁, rfl, .cons hx hpre, hs, hpost⟩

theorem Simulation.mem (hf : List.Forall₂ S.Alike h h₁) {s₁ : Step I ε ι W₁} (hs : s₁ ∈ h₁) : ∃ s ∈ h, S.Alike s s₁ := by
  induction hf with
  | nil => cases hs
  | @cons x x₁ h h₁ hx _ ih =>
    rcases List.mem_cons.mp hs with rfl | hs
    · exact ⟨x, List.mem_cons_self, hx⟩
    · obtain ⟨s, hmem, halike⟩ := ih hs
      exact ⟨s, List.mem_cons_of_mem x hmem, halike⟩

theorem Simulation.log_eq [DecidableEq ι] (hf : List.Forall₂ S.Alike h h₁) (i : ι) : log i h₁ = log i h := by
  induction hf with
  | nil => rfl
  | @cons s s₁ h h₁ hs _ ih =>
    unfold log at ih ⊢
    by_cases ht : s.thread = i
    · simp [hs.thread, hs.event, ht, ih]
    · simp [hs.thread, ht, ih]

/-- A thread that stays has the same log. -/
theorem Simulation.log_stepsOf [DecidableEq ι] {i : ι} (hi : mine i) (hf : List.Forall₂ S.Alike (stepsOf mine h) h₁) :
    log i h₁ = log i h := by
  rw [Simulation.log_eq hf]
  unfold log stepsOf
  rw [List.filter_filter]
  congr 1
  apply List.filter_congr
  intro s _
  by_cases hs : s.thread = i
  · simp [hs, hi]
  · simp [hs]

end Steps

variable [DecidableEq ι] {start p : Pool I ε ι W} {w₁ : W₁} {h : List (Step I ε ι W)}

/-- What a thread may still ask at any point of a run. -/
theorem Run.asks {C : I.Cmd → Prop} {i : ι} {c : I.Cmd} {k : Except ε (I.Ans c) → Prog I ε Unit} (hr : Run V start h p)
    (hi : (start.threads i).Asks C) (hk : p.threads i = .await c k) : C c := by
  have hrest : (p.threads i).Asks C := Prog.Obeys.reaches hi (hr.reaches i) fun _ _ => trivial
  rw [hk] at hrest
  exact hrest.1

/-- **Threads that ask only within run as if the others were not there.** -/
theorem Run.without (S : Simulation V V₁ Within Beside) (mine : ι → Prop) [DecidablePred mine]
    (hmine : ∀ i, mine i → (start.threads i).Asks Within)
    (hothers : ∀ i, ¬ mine i → (start.threads i).Asks Beside) (hstart : S.same start.world w₁) (hr : Run V start h p) :
    ∃ h₁ p₁, Run V₁ ⟨w₁, start.threads⟩ h₁ p₁ ∧ List.Forall₂ S.Alike (stepsOf mine h) h₁ ∧ S.same p.world p₁.world ∧
      ∀ i, p₁.threads i = if mine i then p.threads i else start.threads i := by
  induction hr with
  | start => exact ⟨[], _, .start, .nil, hstart, fun i => (ite_self _).symm⟩
  | @command h p i c k a w hr hk ha ih =>
    obtain ⟨h₁, p₁, hr₁, halike, hsame, hthreads⟩ := ih
    by_cases hi : mine i
    · have hk₁ : p₁.threads i = .await c k := by
        rw [hthreads i, if_pos hi, hk]
      obtain ⟨w₁, ha₁, hsame₁⟩ := S.within (hr.asks (hmine i hi) hk) hsame ha
      refine ⟨_, _, hr₁.answer i hk₁ a w₁ ha₁, ?_, hsame₁, fun j => ?_⟩
      · rw [stepsOf_snoc hi]
        exact List.rel_append halike (.cons ⟨rfl, rfl, hsame⟩ .nil)
      · by_cases hj : j = i
        · subst hj
          simp [hi]
        · simp [Function.update_of_ne hj, hthreads j]
    · refine ⟨h₁, p₁, hr₁, ?_, S.beside (hr.asks (hothers i hi) hk) hsame ha, fun j => ?_⟩
      · rw [stepsOf_snoc_of_not hi]
        exact halike
      · by_cases hj : j = i
        · subst hj
          rw [hthreads j, if_neg hi, if_neg hi]
        · simp [Function.update_of_ne hj, hthreads j]
  | @elapse h p w _ he ih =>
    obtain ⟨h₁, p₁, hr₁, halike, hsame, hthreads⟩ := ih
    obtain ⟨w₁, he₁, hsame₁⟩ := S.elapses hsame he
    exact ⟨h₁, _, hr₁.wait w₁ he₁, halike, hsame₁, hthreads⟩

/-- With every thread inside, a run in one world is a run in the other. -/
theorem Run.simulated (S : Simulation V V₁ Within Beside) (hall : ∀ i, (start.threads i).Asks Within)
    (hstart : S.same start.world w₁) (hr : Run V start h p) :
    ∃ h₁ p₁, Run V₁ ⟨w₁, start.threads⟩ h₁ p₁ ∧ List.Forall₂ S.Alike h h₁ ∧ S.same p.world p₁.world ∧
      p₁.threads = p.threads := by
  obtain ⟨h₁, p₁, hr₁, halike, hsame, hthreads⟩ :=
    hr.without S (fun _ => True) (fun i _ => hall i) (fun _ hi => absurd trivial hi) hstart
  have hsteps : stepsOf (fun _ : ι => True) h = h := by
    simp [stepsOf]
  rw [hsteps] at halike
  exact ⟨h₁, p₁, hr₁, halike, hsame, funext fun i => by rw [hthreads i, if_pos trivial]⟩

/-- What a history says to those who do not see the state. -/
def told (h : List (Step I ε ι W)) : List (ι × Event I ε) := h.map fun s => (s.thread, s.event)

omit [DecidableEq ι] in
theorem Simulation.told_eq {S : Simulation V V₁ Within Beside} {h₁ : List (Step I ε ι W₁)} (hf : List.Forall₂ S.Alike h h₁) :
    told h₁ = told h := by
  induction hf with
  | nil => rfl
  | cons hs _ ih => exact congrArg₂ List.cons (Prod.ext hs.thread hs.event) ih

end Relayix.Library
