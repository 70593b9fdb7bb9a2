import Relayix.Library.Pool

/-! What one part of the surroundings sees of a run.

The commands of a whole go to its parts. A `View` says which of them are a part's, and a `Projection`
that the world of the whole is a world of the part's own, for which the other commands are time that
passes. `Shows` is a program with the other commands left out: where every thread of a run shows a
thread of the part, the steps of the run that are the part's are a run of these (`Run.project`). -/
namespace Relayix.Library

/-- Whose a command is, by the type of its answer. -/
inductive Share (I : Interface) : Type → Type 1 where
  | mine (c : I.Cmd) : Share I (I.Ans c)
  | other {A : Type} : Share I A

/-- Which commands of `J` are commands of `I`. -/
abbrev View (J I : Interface) := (c : J.Cmd) → Share I (J.Ans c)

variable {I J : Interface} {ε α β ι W W₁ : Type}

namespace Share

/-- What the part hears of an answer. -/
def heard : {A : Type} → Share I A → Except ε A → Option (Event I ε)
  | _, .mine c, a => some ⟨c, a⟩
  | _, .other, _ => none

/-- A command of a program, and the part of it that the program shows. -/
def Turn : {A : Type} → Share I A → (Except ε A → Prog I ε β → Prop) → Prog I ε β → Prop
  | _, .mine c, next, p => ∃ k, p = .await c k ∧ ∀ a, next a (k a)
  | _, .other, next, p => ∀ a, next a p

/-- An answer, in a world of the part. -/
def Moves (V₁ : World I ε W₁) (w w' : W₁) : {A : Type} → Share I A → Except ε A → Prop
  | _, .mine c, a => V₁.answers w c a w'
  | _, .other, _ => V₁.elapses w w'

def IsOther : {A : Type} → Share I A → Prop
  | _, .mine _ => False
  | _, .other => True

section Turns
variable {A : Type} {s : Share I A} {next : Except ε A → Prog I ε β → Prop} {p : Prog I ε β} {a : Except ε A}
  {V₁ : World I ε W₁} {w w' : W₁}

/-- Either the part is asked, or it waits. -/
theorem turn_cases (ht : s.Turn next p) (hm : s.Moves V₁ w w' a) :
    (∃ e k, s.heard a = some e ∧ p = .await e.cmd k ∧ V₁.answers w e.cmd e.answer w' ∧ next a (k e.answer)) ∨
      (s.heard a = none ∧ V₁.elapses w w' ∧ next a p) := by
  cases s with
  | mine c =>
    obtain ⟨k, rfl, hk⟩ := ht
    exact .inl ⟨⟨c, a⟩, k, rfl, rfl, hm, hk a⟩
  | other => exact .inr ⟨rfl, hm, ht a⟩

theorem IsOther.heard (hs : s.IsOther) (a : Except ε A) : s.heard a = none := by
  cases s with
  | mine c => exact absurd hs id
  | other => rfl

theorem IsOther.turn (hs : s.IsOther) (h : ∀ a, next a p) : s.Turn next p := by
  cases s with
  | mine c => exact absurd hs id
  | other => exact h

theorem Turn.mono {next' : Except ε A → Prog I ε β → Prop} (ht : s.Turn next p) (h : ∀ a q, next a q → next' a q) :
    s.Turn next' p := by
  cases s with
  | mine c =>
    obtain ⟨k, hp, hk⟩ := ht
    exact ⟨k, hp, fun a => h a (k a) (hk a)⟩
  | other => exact fun a => h a p (ht a)

end Turns
end Share

namespace View
variable (v : View J I)

/-- The commands that are not the part's. -/
def Outside (c : J.Cmd) : Prop := (v c).IsOther

/-- The part's events. -/
def trace (t : Trace J ε) : Trace I ε := t.filterMap fun e => (v e.cmd).heard e.answer

@[simp] theorem trace_nil : v.trace ([] : Trace J ε) = [] := rfl

@[simp] theorem trace_append (t u : Trace J ε) : v.trace (t ++ u) = v.trace t ++ v.trace u := List.filterMap_append

theorem trace_outside {t : Trace J ε} (h : ∀ e ∈ t, v.Outside e.cmd) : v.trace t = [] :=
  List.filterMap_eq_nil_iff.mpr fun e he => (h e he).heard e.answer

end View

/-! ### Programs -/

/-- The program asks the part what `p` asks it, as long as its own answers are among `E`. -/
def Prog.Shows (v : View J I) (E : Event J ε → Prop) : Prog J ε α → Prog I ε β → Prop
  | .ret _, _ => True
  | .raise _, _ => True
  | .await c k, p => (v c).Turn (fun a q => E ⟨c, a⟩ → (k a).Shows v E q) p

namespace Prog.Shows
variable {v : View J I} {E : Event J ε → Prop} {q : Prog J ε α} {p : Prog I ε β}

/-- A program that leaves the part alone. -/
theorem of_outside (h : q.Asks v.Outside) (p : Prog I ε β) : q.Shows v E p := by
  induction q with
  | ret a => trivial
  | raise e => trivial
  | await c k ih => exact h.1.turn fun a _ => ih a (h.2 a trivial)

/-- What follows leaves the part alone. -/
theorem bind {γ : Type} {f : α → Prog J ε γ} (h : q.Shows v E p) (hf : ∀ a, (f a).Asks v.Outside) :
    (q.bind f).Shows v E p := by
  induction q generalizing p with
  | ret a => exact of_outside (hf a) p
  | raise e => trivial
  | await c k ih => exact h.mono fun a _ hk he => ih a (hk he)

/-- The part is asked when another program has returned. -/
theorem after {γ : Type} {f : α → Prog J ε γ} (hq : q.Asks v.Outside)
    (hf : ∀ t a, Ends q t (.ok a) → (∀ e ∈ t, E e) → (f a).Shows v E p) : (q.bind f).Shows v E p := by
  induction q with
  | ret a => exact hf [] a (.refl _) fun e he => absurd he List.not_mem_nil
  | raise e => trivial
  | await c k ih =>
    refine hq.1.turn fun a he => ih a (hq.2 a trivial) fun t b hends hE => ?_
    exact hf (⟨c, a⟩ :: t) b (.step a hends) (List.forall_mem_cons.mpr ⟨he, hE⟩)

end Prog.Shows

/-! ### Runs -/

/-- The world of the whole, as the part finds it. Only commands `within` and states with the invariant
are considered. -/
structure Projection (V : World J ε W) (V₁ : World I ε W₁) (v : View J I) where
  within : J.Cmd → Prop
  inv : W → Prop
  abs : W → W₁
  answers {w w' : W} {c : J.Cmd} {a : Except ε (J.Ans c)} :
    within c → inv w → V.answers w c a w' → inv w' ∧ (v c).Moves V₁ (abs w) (abs w') a
  elapses {w w' : W} : inv w → V.elapses w w' → inv w' ∧ V₁.elapses (abs w) (abs w')

variable {V : World J ε W} {V₁ : World I ε W₁} {v : View J I}

/-- A step, if it is the part's. -/
def Projection.step (P : Projection V V₁ v) (s : Step J ε ι W) : Option (Step I ε ι W₁) :=
  ((v s.event.cmd).heard s.event.answer).map fun e => ⟨P.abs s.before, s.thread, e⟩

section Runs
variable (P : Projection V V₁ v) {h : List (Step J ε ι W)}

theorem Projection.steps_snoc (h : List (Step J ε ι W)) (s : Step J ε ι W) :
    (h ++ [s]).filterMap P.step = h.filterMap P.step ++ (P.step s).toList := by
  rw [List.filterMap_append]
  cases hs : P.step s with
  | none => rw [List.filterMap_cons_none hs, List.filterMap_nil, Option.toList_none]
  | some s₁ => rw [List.filterMap_cons_some hs, List.filterMap_nil, Option.toList_some]

variable [DecidableEq ι]

/-- The part has heard of a thread what its log says. -/
theorem Projection.log_steps (i : ι) (h : List (Step J ε ι W)) : log i (h.filterMap P.step) = v.trace (log i h) := by
  induction h using List.reverseRecOn with
  | nil => rfl
  | append_singleton h s ih =>
    rw [P.steps_snoc, log_append, ih]
    by_cases hi : s.thread = i
    · subst hi
      rw [log_snoc_self, View.trace_append]
      cases hs : (v s.event.cmd).heard s.event.answer with
      | none => simp [Projection.step, View.trace, hs]
      | some e => simp [Projection.step, View.trace, hs, log]
    · rw [log_snoc_of_ne h hi]
      cases hs : (v s.event.cmd).heard s.event.answer with
      | none => simp [Projection.step, hs]
      | some e => simp [Projection.step, hs, log, hi]

variable {start p : Pool J ε ι W} {parts : ι → Prog I ε Unit} {E : ι → Event J ε → Prop}

/-- **What the part sees of a run is a run of its own.** -/
theorem Run.project (hasks : ∀ i, (start.threads i).Asks P.within) (hshows : ∀ i, (start.threads i).Shows v (E i) (parts i))
    (hinv : P.inv start.world) (hr : Run V start h p) (hE : ∀ i, ∀ e ∈ log i h, E i e) :
    P.inv p.world ∧ ∃ threads, Run V₁ ⟨P.abs start.world, parts⟩ (h.filterMap P.step) ⟨P.abs p.world, threads⟩ ∧
      ∀ i, (p.threads i).Shows v (E i) (threads i) := by
  induction hr with
  | start => exact ⟨hinv, parts, .start, hshows⟩
  | @command h p i c k a w hr hk ha ih =>
    have hbefore : ∀ j, ∀ e ∈ log j h, E j e := fun j e he => hE j e (by rw [log_append]; exact List.mem_append_left _ he)
    have hlast : E i ⟨c, a⟩ := hE i ⟨c, a⟩ (by
      rw [log_snoc_self h ⟨p.world, i, ⟨c, a⟩⟩]
      exact List.mem_append_right _ List.mem_cons_self)
    obtain ⟨hi, threads, hr₁, hs⟩ := ih hbefore
    have hwithin : P.within c := by
      have hrest : (p.threads i).Asks P.within := Prog.Obeys.reaches (hasks i) (hr.reaches i) fun _ _ => trivial
      rw [hk] at hrest
      exact hrest.1
    obtain ⟨hi', hmoves⟩ := P.answers hwithin hi ha
    have hturn := hs i
    rw [hk] at hturn
    refine ⟨hi', ?_⟩
    rw [P.steps_snoc]
    rcases Share.turn_cases hturn hmoves with ⟨e, k₁, hheard, hk₁, ha₁, hnext⟩ | ⟨hheard, he₁, hnext⟩
    · have hstep : P.step (⟨p.world, i, ⟨c, a⟩⟩ : Step J ε ι W) = some ⟨P.abs p.world, i, e⟩ := by
        rw [Projection.step, hheard, Option.map_some]
      rw [hstep, Option.toList_some]
      refine ⟨_, hr₁.command hk₁ ha₁, fun j => ?_⟩
      by_cases hj : j = i
      · subst hj
        simp only [Function.update_self]
        exact hnext hlast
      · simp only [Function.update_of_ne hj]
        exact hs j
    · have hstep : P.step (⟨p.world, i, ⟨c, a⟩⟩ : Step J ε ι W) = none := by
        rw [Projection.step, hheard, Option.map_none]
      rw [hstep, Option.toList_none, List.append_nil]
      refine ⟨threads, hr₁.elapse he₁, fun j => ?_⟩
      by_cases hj : j = i
      · subst hj
        simp only [Function.update_self]
        exact hnext hlast
      · simp only [Function.update_of_ne hj]
        exact hs j
  | @elapse h p w _ he ih =>
    obtain ⟨hi, threads, hr₁, hs⟩ := ih hE
    obtain ⟨hi', he₁⟩ := P.elapses hi he
    exact ⟨hi', threads, hr₁.elapse he₁, hs⟩

end Runs
end Relayix.Library
