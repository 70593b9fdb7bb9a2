import Relayix.Library.Monitor

/-! Asynchronous generators.

A generator is a program that, besides its own commands, hands items to whoever
iterates it. The answer to an item is how the consumer resumes it: normally, or
with an exception thrown in at the `yield` (`aclose()` throws `GeneratorExit`).
`anext` runs a generator to its next item and keeps what it is suspended on, so a
generator that iterates another one is written by recursion on the other one.

`Source` is the passive counterpart: the results that the successive `anext` calls
on a stream outside the model will give. A finite run sees only finitely many. -/
namespace Relayix.Library

/-- Items handed to the consumer; it answers by resuming or throwing. -/
@[reducible] def handoff (Y : Type) : Interface := ⟨Y, fun _ => Unit⟩

abbrev Gen (I : Interface) (ε Y : Type) := Prog (I.sum (handoff Y)) ε

/-- The exceptions that the iteration protocol itself raises. -/
class AsyncError (ε : Type) where
  /-- thrown in by `aclose()` -/
  generatorExit : ε
  isGeneratorExit : ε → Bool
  /-- a generator body let `StopAsyncIteration` escape -/
  raisedStop : ε
  /-- a generator yielded again when asked to close -/
  ignoredExit : ε
  exit_eq : ∀ e, isGeneratorExit e = true ↔ e = generatorExit

/-- What the successive `anext` calls give. -/
inductive Source (ε Y : Type) where
  | item (y : Y) (rest : Source ε Y)
  | raise (e : ε)
  | stop
  deriving DecidableEq

variable {I J : Interface} {ε α Y : Type}

namespace Source

def items : Source ε Y → List Y
  | .item y rest => y :: items rest
  | .raise _ | .stop => []

/-- What it ends in, where it does not just stop. -/
def failure : Source ε Y → Option ε
  | .item _ rest => failure rest
  | .raise e => some e
  | .stop => none

/-- These items, and then the rest. -/
def after (ys : List Y) (rest : Source ε Y) : Source ε Y := ys.foldr item rest

@[simp] theorem items_after (ys : List Y) (rest : Source ε Y) : (after ys rest).items = ys ++ rest.items := by
  induction ys with
  | nil => rfl
  | cons y ys ih => exact congrArg (y :: ·) ih

@[simp] theorem failure_after (ys : List Y) (rest : Source ε Y) : (after ys rest).failure = rest.failure := by
  induction ys with
  | nil => rfl
  | cons y ys ih => exact ih

end Source

/-- A stream, failed from its first `anext` on if opening it fails. -/
def opened : Except ε (Source ε Y) → Source ε Y
  | .ok source => source
  | .error e => .raise e

namespace Gen

def yield (y : Y) : Gen I ε Y Unit := @Prog.perform (I.sum (handoff Y)) ε (.inr y)

/-- Run to the next item; `none` is `StopAsyncIteration`. -/
def anext : Gen I ε Y Unit → Prog I ε (Option (Y × (Except ε Unit → Gen I ε Y Unit)))
  | .ret _ => .ret none
  | .raise e => .raise e
  | .await (.inl c) k => .await c (fun a => anext (k a))
  | .await (.inr y) k => .ret (some (y, k))

/-- Run on after `GeneratorExit` was thrown in. -/
def closing [AsyncError ε] : Gen I ε Y Unit → Prog I ε Unit
  | .ret _ => .ret ()
  | .raise e => if AsyncError.isGeneratorExit e then .ret () else .raise e
  | .await (.inl c) k => .await c (fun a => closing (k a))
  | .await (.inr _) _ => .raise AsyncError.ignoredExit

/-- `aclose()` on a generator suspended at a `yield`. -/
def aclose [AsyncError ε] (k : Except ε Unit → Gen I ε Y Unit) : Prog I ε Unit :=
  closing (k (.error AsyncError.generatorExit))

/-- The interpreter's finaliser for a suspended generator nobody holds any more:
`aclose()`, whose own exceptions go to the event loop's handler. -/
def finalise [AsyncError ε] (k : Except ε Unit → Gen I ε Y Unit) : Prog I ε Unit :=
  (aclose k).tryExcept fun _ => .ret ()

/-- The generator that gives a source's items. -/
def replay : Source ε Y → Gen I ε Y Unit
  | .item y rest => do
    yield y
    replay rest
  | .raise e => .raise e
  | .stop => pure ()

/-- What the first `anext` on a replayed source gives. -/
def first : Source ε Y → Except ε (Option (Y × (Except ε Unit → Gen I ε Y Unit)))
  | .item y rest => .ok (some (y, fun a => (Prog.ofExcept a).bind fun _ => replay rest))
  | .raise e => .error e
  | .stop => .ok none

theorem anext_replay (s : Source ε Y) :
    (replay s : Gen I ε Y Unit).anext = Prog.ofExcept (first s) := by
  cases s <;> rfl

/-- The same generator among more commands. -/
def widen : Gen I ε Y α → Gen (I.sum J) ε Y α
  | .ret a => .ret a
  | .raise e => .raise e
  | .await (.inl c) k => .await (.inl (.inl c)) (fun a => widen (k a))
  | .await (.inr y) k => .await (.inr y) (fun a => widen (k a))

/-- The same generator, its commands the right ones of more. -/
def among : Gen J ε Y α → Gen (I.sum J) ε Y α
  | .ret a => .ret a
  | .raise e => .raise e
  | .await (.inl c) k => .await (.inl (.inr c)) (fun a => among (k a))
  | .await (.inr y) k => .await (.inr y) (fun a => among (k a))

end Gen

/-! ### The runs of a generator among more commands -/

/-- Among more commands a generator runs as alone, and asks none of the others. -/
theorem among_ends {g : Gen J ε Y α} {s : Trace ((I.sum J).sum (handoff Y)) ε} {o : Except ε α}
    (h : Ends (g.among : Gen (I.sum J) ε Y α) s o) : Ends g (rights (regroup s)) o ∧ lefts (lefts s) = [] := by
  induction g generalizing s with
  | ret a =>
    obtain ⟨rfl, rfl⟩ := ends_ret.mp h
    exact ⟨.refl _, rfl⟩
  | raise e =>
    obtain ⟨rfl, rfl⟩ := ends_raise.mp h
    exact ⟨.refl _, rfl⟩
  | await c k ih =>
    cases c with
    | inl c =>
      obtain ⟨a, rest, rfl, hr⟩ := ends_await.mp h
      obtain ⟨hends, hnone⟩ := ih a hr
      exact ⟨ends_await.mpr ⟨a, _, rfl, hends⟩, hnone⟩
    | inr y =>
      obtain ⟨a, rest, rfl, hr⟩ := ends_await.mp h
      obtain ⟨hends, hnone⟩ := ih a hr
      exact ⟨ends_await.mpr ⟨a, _, rfl, hends⟩, hnone⟩

/-- Closed, a generator asks nothing that it would not have asked. -/
theorem closing_asks [AsyncError ε] {P : (I.sum (handoff Y)).Cmd → Prop} {g : Gen I ε Y Unit}
    (h : g.Asks P) : (Gen.closing g).Asks fun c => P (.inl c) := by
  induction g with
  | ret a => trivial
  | raise e =>
    unfold Gen.closing
    split <;> trivial
  | await c k ih =>
    cases c with
    | inl c => exact ⟨h.1, fun a _ => ih a (h.2 a trivial)⟩
    | inr y => trivial

/-- The same monitor of a generator, whatever it hands over. -/
def Monitor.handing {σ : Type} (M : Monitor I ε σ) (Y : Type) : Monitor (I.sum (handoff Y)) ε σ where
  next
    | s, .inl c, a => M.next s c a
    | s, .inr _, _ => s
  allowed
    | s, .inl c => M.allowed s c
    | _, .inr _ => True
  expects
    | .inl c, a => M.expects c a
    | .inr _, _ => True

/-- A part that hands nothing over. -/
theorem Prog.Obeys.handing {σ : Type} {M : Monitor I ε σ} {Q : Except ε α → σ → Prop} {p : Prog I ε α} {s : σ} (h : p.Obeys M Q s) :
    (p.inl : Gen I ε Y α).Obeys (M.handing Y) Q s := Prog.Obeys.inl (M := M.handing Y) h

/-- Closed, a generator keeps to what it kept to. -/
theorem closing_obeys [AsyncError ε] {σ : Type} {M : Monitor (I.sum (handoff Y)) ε σ} {Q : Except ε Unit → σ → Prop}
    {g : Gen I ε Y Unit} {s : σ} (h : g.Obeys M Q s) : (Gen.closing g).Obeys M.onLeft (fun _ _ => True) s := by
  induction g generalizing s with
  | ret a => trivial
  | raise e =>
    unfold Gen.closing
    split <;> trivial
  | await c k ih =>
    cases c with
    | inl c => exact ⟨h.1, fun a ha => ih a (h.2 a ha)⟩
    | inr y => trivial

section Keeping
variable {σ : Type} {M : Monitor I ε σ} {g : Gen I ε Y Unit} {s : σ}

/-- Run to its next item, and then on from where it is suspended. -/
theorem anext_obeys (h : g.Obeys (M.handing Y) (fun _ _ => True) s) : g.anext.Obeys M
    (fun o s' => ∀ y k, o = .ok (some (y, k)) → ∀ a, (k a).Obeys (M.handing Y) (fun _ _ => True) s') s := by
  induction g generalizing s with
  | ret a =>
    intro y k he
    cases he
  | raise e =>
    intro y k he
    cases he
  | await c k ih =>
    cases c with
    | inl c => exact ⟨h.1, fun a ha => ih a (h.2 a ha)⟩
    | inr y =>
      intro y' k' he a
      cases he
      exact h.2 a trivial

theorem finalise_obeys [AsyncError ε] {k : Except ε Unit → Gen I ε Y Unit}
    (h : ∀ a, (k a).Obeys (M.handing Y) (fun _ _ => True) s) : (Gen.finalise k).Obeys M (fun _ _ => True) s := by
  apply Prog.Obeys.tryExcept (closing_obeys (h _))
  · exact fun _ _ _ => trivial
  · exact fun _ _ _ => trivial

theorem among_obeys {M : Monitor (J.sum I) ε σ} (h : g.Obeys (M.onRight.handing Y) (fun _ _ => True) s) :
    (g.among : Gen (J.sum I) ε Y Unit).Obeys (M.handing Y) (fun _ _ => True) s := by
  induction g generalizing s with
  | ret a => trivial
  | raise e => trivial
  | await c k ih => cases c <;> exact ⟨h.1, fun a ha => ih a (h.2 a ha)⟩

/-- A monitor that the items leave as it is. -/
theorem Prog.Obeys.of_handing {M : Monitor (I.sum (handoff Y)) ε σ} {Q : Except ε α → σ → Prop} {p : Gen I ε Y α}
    (hM : M.Ignores fun c => ∃ y, c = .inr y) (h : p.Obeys (M.onLeft.handing Y) Q s) : p.Obeys M Q s := by
  induction p generalizing s with
  | ret a => exact h
  | raise e => exact h
  | await c k ih =>
    cases c with
    | inl c => exact ⟨h.1, fun a ha => ih a (h.2 a ha)⟩
    | inr y =>
      obtain ⟨hallowed, hsame⟩ := hM s (.inr y) ⟨y, rfl⟩
      refine ⟨hallowed, fun a _ => ?_⟩
      rw [hsame a]
      exact ih a (h.2 a trivial)

end Keeping

/-! ### How a generator ends -/

/-- A generator is over: never begun, or run to an end. -/
inductive Over (g : Prog I ε Unit) : Bool → Trace I ε → Prop where
  | unbegun : Over g false []
  | ended {t : Trace I ε} (o : Except ε Unit) : Ends g t o → Over g true t

/-- A consumer that takes every item sees the end, whatever else is asked meanwhile. -/
theorem exists_taken (g : Gen I ε Y α) (e : ε) : ∃ t o, Ends g t o ∧ ∀ x ∈ rights t, x.answer = .ok () := by
  induction g with
  | ret a => exact ⟨[], .ok a, .refl _, fun _ hx => absurd hx List.not_mem_nil⟩
  | raise e => exact ⟨[], .error e, .refl _, fun _ hx => absurd hx List.not_mem_nil⟩
  | await c k ih =>
    cases c with
    | inl c =>
      obtain ⟨t, o, hends, htaken⟩ := ih (.error e)
      exact ⟨⟨.inl c, .error e⟩ :: t, o, ends_await.mpr ⟨_, t, rfl, hends⟩, htaken⟩
    | inr y =>
      obtain ⟨t, o, hends, htaken⟩ := ih (.ok ())
      exact ⟨⟨.inr y, .ok ()⟩ :: t, o, ends_await.mpr ⟨_, t, rfl, hends⟩, List.forall_mem_cons.mpr ⟨rfl, htaken⟩⟩

/-! ### Generators that give nothing more -/

/-- The monitor of a generator that has no item left. -/
def mute : Monitor (I.sum (handoff Y)) ε Unit where
  next _ _ _ := ()
  allowed
    | _, .inl _ => True
    | _, .inr _ => False
  expects _ _ := True

abbrev Mute (g : Gen I ε Y α) : Prop := g.Obeys mute (fun _ _ => True) ()

theorem mute_inl (p : Prog I ε α) : Mute (p.inl : Gen I ε Y α) := by
  induction p with
  | ret a => trivial
  | raise e => trivial
  | await c k ih => exact ⟨trivial, fun a _ => ih a⟩

theorem Mute.widen {g : Gen I ε Y α} (h : Mute g) : Mute (g.widen : Gen (I.sum J) ε Y α) := by
  induction g with
  | ret a => trivial
  | raise e => trivial
  | await c k ih =>
    cases c with
    | inl c => exact ⟨trivial, fun a _ => ih a (h.2 a trivial)⟩
    | inr y => exact absurd h.1 id

/-- `anext` on it gives no item. -/
theorem Mute.anext {g : Gen I ε Y Unit} (h : Mute g) {t : Trace I ε}
    {i : Y × (Except ε Unit → Gen I ε Y Unit)} : ¬ Ends g.anext t (.ok (some i)) := by
  intro he
  induction g generalizing t with
  | ret a => cases (ends_ret.mp he).2
  | raise e => cases (ends_raise.mp he).2
  | await c k ih =>
    cases c with
    | inl c =>
      obtain ⟨a, rest, _, hr⟩ := ends_await.mp he
      exact ih a (h.2 a trivial) hr
    | inr y => exact absurd h.1 id

end Relayix.Library
