import Mathlib.Logic.Basic

/-! Programs that await their surroundings.

A coroutine is a tree: it has returned, it has raised, or it awaits the answer to
a command and goes on with whatever comes back, an exception included. What it may
ask is an `Interface`. `Ends p t o` says that `p`, given the answers recorded in
the trace `t`, finishes with `o`; `Reaches p t q` that the same answers bring it to
the point `q`. Every control structure used later (`attempt`, `tryExcept`,
`tryFinally`) comes with the lemma that says how its runs are made of the runs of
its parts, so a proof about a program never unfolds the tree. -/
namespace Relayix.Library

/-- What a program may ask of its surroundings, and the type of each answer. -/
structure Interface where
  Cmd : Type
  Ans : Cmd → Type

namespace Interface

/-- Nothing to ask. -/
def silent : Interface := ⟨Empty, Empty.elim⟩

/-- The commands of two interfaces side by side. -/
@[reducible] def sum (I J : Interface) : Interface where
  Cmd := I.Cmd ⊕ J.Cmd
  Ans
    | .inl c => I.Ans c
    | .inr c => J.Ans c

end Interface

/-- A program suspended at its next await, or finished. -/
inductive Prog (I : Interface) (ε α : Type) where
  | ret (value : α)
  | raise (error : ε)
  | await (c : I.Cmd) (k : Except ε (I.Ans c) → Prog I ε α)

/-- One answered command. -/
structure Event (I : Interface) (ε : Type) where
  cmd : I.Cmd
  answer : Except ε (I.Ans cmd)

abbrev Trace (I : Interface) (ε : Type) := List (Event I ε)

variable {I J : Interface} {ε α β : Type}

namespace Prog

def bind : Prog I ε α → (α → Prog I ε β) → Prog I ε β
  | .ret a, f => f a
  | .raise e, _ => .raise e
  | .await c k, f => .await c (fun a => (k a).bind f)

instance : Monad (Prog I ε) where
  pure := .ret
  bind := bind

@[simp] theorem bind_eq (p : Prog I ε α) (f : α → Prog I ε β) : (p >>= f) = p.bind f := rfl
@[simp] theorem pure_eq (a : α) : (pure a : Prog I ε α) = .ret a := rfl
@[simp] theorem ret_bind (a : α) (f : α → Prog I ε β) : (ret a).bind f = f a := rfl
@[simp] theorem raise_bind (e : ε) (f : α → Prog I ε β) : (raise e).bind f = raise e := rfl
@[simp] theorem await_bind (c : I.Cmd) (k : Except ε (I.Ans c) → Prog I ε α)
    (f : α → Prog I ε β) : (await c k).bind f = await c (fun a => (k a).bind f) := rfl

/-- The finished program. -/
def ofExcept : Except ε α → Prog I ε α
  | .ok a => .ret a
  | .error e => .raise e

@[simp] theorem ofExcept_ok (a : α) : (ofExcept (.ok a) : Prog I ε α) = .ret a := rfl
@[simp] theorem ofExcept_error (e : ε) : (ofExcept (.error e) : Prog I ε α) = .raise e := rfl

/-- Ask one command; an exception in its place is raised. -/
def perform (c : I.Cmd) : Prog I ε (I.Ans c) := .await c ofExcept

/-- How the program ended, as a value. -/
def attempt : Prog I ε α → Prog I ε (Except ε α)
  | .ret a => .ret (.ok a)
  | .raise e => .ret (.error e)
  | .await c k => .await c (fun a => (k a).attempt)

/-- `try: p / except BaseException as e: h e`. A handler that does not match re-raises. -/
def tryExcept (p : Prog I ε α) (h : ε → Prog I ε α) : Prog I ε α :=
  p.attempt.bind fun
    | .ok a => .ret a
    | .error e => h e

/-- `try: p / finally: f`. An exception of the cleanup replaces the outcome. -/
def tryFinally (p : Prog I ε α) (f : Prog I ε Unit) : Prog I ε α :=
  p.attempt.bind fun o => f.bind fun _ => ofExcept o

/-- The same program among more commands. -/
def inl : Prog I ε α → Prog (I.sum J) ε α
  | .ret a => .ret a
  | .raise e => .raise e
  | .await c k => .await (.inl c) (fun a => (k a).inl)

def inr : Prog J ε α → Prog (I.sum J) ε α
  | .ret a => .ret a
  | .raise e => .raise e
  | .await c k => .await (.inr c) (fun a => (k a).inr)

end Prog

namespace Prog
variable {K : Interface}

/-- The same program, its commands grouped the other way. -/
def assoc : Prog ((I.sum J).sum K) ε α → Prog (I.sum (J.sum K)) ε α
  | .ret a => .ret a
  | .raise e => .raise e
  | .await (.inl (.inl c)) k => .await (.inl c) (fun a => (k a).assoc)
  | .await (.inl (.inr c)) k => .await (.inr (.inl c)) (fun a => (k a).assoc)
  | .await (.inr c) k => .await (.inr (.inr c)) (fun a => (k a).assoc)

variable (p : Prog ((I.sum J).sum K) ε α)

@[simp] theorem assoc_ret (a : α) : (ret a : Prog ((I.sum J).sum K) ε α).assoc = ret a := rfl
@[simp] theorem assoc_raise (e : ε) : (raise e : Prog ((I.sum J).sum K) ε α).assoc = raise e := rfl

@[simp] theorem assoc_bind (f : α → Prog ((I.sum J).sum K) ε β) :
    (p.bind f).assoc = p.assoc.bind (fun a => (f a).assoc) := by
  induction p with
  | ret a => rfl
  | raise e => rfl
  | await c k ih =>
    obtain (c | c) | c := c <;> exact congrArg (await _) (funext ih)

@[simp] theorem assoc_attempt : p.attempt.assoc = p.assoc.attempt := by
  induction p with
  | ret a => rfl
  | raise e => rfl
  | await c k ih =>
    obtain (c | c) | c := c <;> exact congrArg (await _) (funext ih)

@[simp] theorem assoc_tryExcept (h : ε → Prog ((I.sum J).sum K) ε α) :
    (p.tryExcept h).assoc = p.assoc.tryExcept (fun e => (h e).assoc) := by
  simp only [tryExcept, assoc_bind, assoc_attempt]
  congr 1
  funext o
  cases o <;> rfl

@[simp] theorem assoc_tryFinally (f : Prog ((I.sum J).sum K) ε Unit) :
    (p.tryFinally f).assoc = p.assoc.tryFinally f.assoc := by
  simp only [tryFinally, assoc_bind, assoc_attempt]
  congr 1
  funext o
  congr 1
  funext _
  cases o <;> rfl

end Prog

/-- The answers in `t` bring `p` to `q`. -/
inductive Reaches : Prog I ε α → Trace I ε → Prog I ε α → Prop where
  | refl (p : Prog I ε α) : Reaches p [] p
  | step {c : I.Cmd} {k : Except ε (I.Ans c) → Prog I ε α} {t : Trace I ε} {q : Prog I ε α}
      (a : Except ε (I.Ans c)) : Reaches (k a) t q → Reaches (.await c k) (⟨c, a⟩ :: t) q

/-- The answers in `t` bring `p` to its end, with outcome `o`. -/
def Ends (p : Prog I ε α) (t : Trace I ε) (o : Except ε α) : Prop := Reaches p t (.ofExcept o)

theorem Reaches.append {p q r : Prog I ε α} {s t : Trace I ε} (h : Reaches p s q)
    (h' : Reaches q t r) : Reaches p (s ++ t) r := by
  induction h with
  | refl => exact h'
  | step a _ ih => exact .step a (ih h')

/-- One more answer at the end of a run. -/
theorem Reaches.snoc {p : Prog I ε α} {t : Trace I ε} {c : I.Cmd}
    {k : Except ε (I.Ans c) → Prog I ε α} (h : Reaches p t (.await c k))
    (a : Except ε (I.Ans c)) : Reaches p (t ++ [⟨c, a⟩]) (k a) :=
  h.append (.step a (.refl _))

/-- A run splits wherever its trace does. -/
theorem Reaches.split {p r : Prog I ε α} (s : Trace I ε) {t : Trace I ε}
    (h : Reaches p (s ++ t) r) : ∃ q, Reaches p s q ∧ Reaches q t r := by
  induction s generalizing p with
  | nil => exact ⟨p, .refl p, h⟩
  | cons e s ih =>
    cases h with
    | step a h =>
      obtain ⟨q, hq, hr⟩ := ih h
      exact ⟨q, .step a hq, hr⟩

theorem reaches_nil {p q : Prog I ε α} : Reaches p [] q ↔ q = p := by
  constructor
  · intro h
    cases h
    rfl
  · rintro rfl
    exact .refl _

theorem reaches_ret {a : α} {t : Trace I ε} {q : Prog I ε α} :
    Reaches (.ret a) t q ↔ t = [] ∧ q = .ret a := by
  constructor
  · intro h
    cases h
    exact ⟨rfl, rfl⟩
  · rintro ⟨rfl, rfl⟩
    exact .refl _

theorem reaches_raise {e : ε} {t : Trace I ε} {q : Prog I ε α} :
    Reaches (.raise e) t q ↔ t = [] ∧ q = .raise e := by
  constructor
  · intro h
    cases h
    exact ⟨rfl, rfl⟩
  · rintro ⟨rfl, rfl⟩
    exact .refl _

theorem reaches_await {c : I.Cmd} {k : Except ε (I.Ans c) → Prog I ε α} {t : Trace I ε}
    {q : Prog I ε α} :
    Reaches (.await c k) t q ↔
      (t = [] ∧ q = .await c k) ∨ ∃ a rest, t = ⟨c, a⟩ :: rest ∧ Reaches (k a) rest q := by
  constructor
  · intro h
    cases h with
    | refl => exact .inl ⟨rfl, rfl⟩
    | step a h => exact .inr ⟨a, _, rfl, h⟩
  · rintro (⟨rfl, rfl⟩ | ⟨a, rest, rfl, h⟩)
    · exact .refl _
    · exact .step a h

/-- The answers decide where a program is. -/
theorem Reaches.unique {p q q' : Prog I ε α} {t : Trace I ε} (h : Reaches p t q) (h' : Reaches p t q') : q = q' := by
  induction h with
  | refl => exact (reaches_nil.mp h').symm
  | step a _ ih =>
    cases h' with
    | step _ h' => exact ih h'

/-- A program that is answered as in a whole run of it, as far as it got, is on the way to the
same end. -/
theorem Reaches.along {p q : Prog I ε α} {s t : Trace I ε} {o : Except ε α} (hs : Ends p s o) (ht : Reaches p t q)
    (hsame : ∀ e ∈ t, ∀ e' ∈ s, e.cmd = e'.cmd → e = e') : ∃ rest, t ++ rest = s ∧ Ends q rest o := by
  induction ht generalizing s with
  | refl => exact ⟨s, rfl, hs⟩
  | @step c k t q a _ ih =>
    cases s with
    | nil => cases o <;> cases reaches_nil.mp hs
    | cons x s =>
      cases hs with
      | step b hs =>
        have heq : (⟨c, a⟩ : Event I ε) = ⟨c, b⟩ := hsame _ List.mem_cons_self _ List.mem_cons_self rfl
        obtain rfl : a = b := by
          cases heq
          rfl
        obtain ⟨rest, hrest, hends⟩ :=
          ih hs fun e he e' he' => hsame e (List.mem_cons_of_mem _ he) e' (List.mem_cons_of_mem _ he')
        exact ⟨rest, by rw [List.cons_append, hrest], hends⟩

/-- The answers of a trace are those of a strategy that sees what came before. -/
def Follows (answer : Trace I ε → (c : I.Cmd) → Except ε (I.Ans c)) (t : Trace I ε) : Prop :=
  ∀ pre e post, t = pre ++ e :: post → e.answer = answer pre e.cmd

/-- Whatever it is answered, a program ends. -/
theorem ends_total (p : Prog I ε α) (answer : Trace I ε → (c : I.Cmd) → Except ε (I.Ans c)) :
    ∃ t o, Ends p t o ∧ Follows answer t := by
  induction p generalizing answer with
  | ret a => exact ⟨[], .ok a, .refl _, by simp [Follows]⟩
  | raise e => exact ⟨[], .error e, .refl _, by simp [Follows]⟩
  | await c k ih =>
    obtain ⟨t, o, hends, hf⟩ := ih (answer [] c) fun pre => answer (⟨c, answer [] c⟩ :: pre)
    refine ⟨⟨c, answer [] c⟩ :: t, o, .step _ hends, fun pre e post he => ?_⟩
    cases pre with
    | nil =>
      obtain ⟨rfl, _⟩ := List.cons.inj he
      rfl
    | cons x pre =>
      obtain ⟨rfl, hrest⟩ := List.cons.inj he
      exact hf pre e post hrest

/-! ### How runs of composed programs are made -/

@[simp] theorem ends_ret {a : α} {t : Trace I ε} {o : Except ε α} :
    Ends (.ret a) t o ↔ t = [] ∧ o = .ok a := by
  unfold Ends
  rw [reaches_ret]
  cases o <;> simp

@[simp] theorem ends_raise {e : ε} {t : Trace I ε} {o : Except ε α} :
    Ends (.raise e) t o ↔ t = [] ∧ o = .error e := by
  unfold Ends
  rw [reaches_raise]
  cases o <;> simp

theorem ends_ofExcept {x o : Except ε α} {t : Trace I ε} :
    Ends (.ofExcept x) t o ↔ t = [] ∧ o = x := by
  cases x <;> simp

@[simp] theorem ends_await {c : I.Cmd} {k : Except ε (I.Ans c) → Prog I ε α} {t : Trace I ε}
    {o : Except ε α} :
    Ends (.await c k) t o ↔ ∃ a rest, t = ⟨c, a⟩ :: rest ∧ Ends (k a) rest o := by
  unfold Ends
  rw [reaches_await]
  cases o <;> simp

@[simp] theorem ends_perform {c : I.Cmd} {t : Trace I ε} {o : Except ε (I.Ans c)} :
    Ends (.perform c) t o ↔ t = [⟨c, o⟩] := by
  simp only [Prog.perform, ends_await, ends_ofExcept]
  constructor
  · rintro ⟨a, rest, rfl, rfl, rfl⟩
    rfl
  · rintro rfl
    exact ⟨o, [], rfl, rfl, rfl⟩

theorem ends_bind {p : Prog I ε α} {f : α → Prog I ε β} {t : Trace I ε} {o : Except ε β} :
    Ends (p.bind f) t o ↔
      (∃ a t₁ t₂, t = t₁ ++ t₂ ∧ Ends p t₁ (.ok a) ∧ Ends (f a) t₂ o) ∨
        ∃ e, o = .error e ∧ Ends p t (.error e) := by
  induction p generalizing t with
  | ret a =>
    constructor
    · exact fun h => .inl ⟨a, [], t, rfl, ends_ret.mpr ⟨rfl, rfl⟩, h⟩
    · rintro (⟨b, t₁, t₂, rfl, hp, hf⟩ | ⟨e, rfl, hp⟩)
      · obtain ⟨rfl, hb⟩ := ends_ret.mp hp
        cases hb
        exact hf
      · cases (ends_ret.mp hp).2
  | raise e =>
    constructor
    · intro h
      obtain ⟨rfl, rfl⟩ := ends_raise.mp h
      exact .inr ⟨e, rfl, ends_raise.mpr ⟨rfl, rfl⟩⟩
    · rintro (⟨b, t₁, t₂, rfl, hp, hf⟩ | ⟨e, rfl, hp⟩)
      · cases (ends_raise.mp hp).2
      · obtain ⟨rfl, he⟩ := ends_raise.mp hp
        cases he
        exact ends_raise.mpr ⟨rfl, rfl⟩
  | await c k ih =>
    simp only [Prog.await_bind, ends_await, ih]
    constructor
    · rintro ⟨a, rest, rfl, ⟨x, t₁, t₂, rfl, hp, hf⟩ | ⟨e, rfl, hp⟩⟩
      · exact .inl ⟨x, ⟨c, a⟩ :: t₁, t₂, rfl, ⟨a, t₁, rfl, hp⟩, hf⟩
      · exact .inr ⟨e, rfl, a, rest, rfl, hp⟩
    · rintro (⟨x, t₁, t₂, rfl, ⟨a, rest, rfl, hp⟩, hf⟩ | ⟨e, rfl, a, rest, rfl, hp⟩)
      · exact ⟨a, rest ++ t₂, rfl, .inl ⟨x, rest, t₂, rfl, hp, hf⟩⟩
      · exact ⟨a, rest, rfl, .inr ⟨e, rfl, hp⟩⟩

/-- Where a program in two parts has got to: it asks in the first, or the first has returned. -/
theorem Reaches.of_bind {p : Prog I ε α} {f : α → Prog I ε β} {t : Trace I ε} {c : I.Cmd}
    {k : Except ε (I.Ans c) → Prog I ε β} (h : Reaches (p.bind f) t (.await c k)) :
    (∃ k', Reaches p t (.await c k')) ∨
      ∃ a t₁ t₂, t = t₁ ++ t₂ ∧ Ends p t₁ (.ok a) ∧ Reaches (f a) t₂ (.await c k) := by
  induction p generalizing t with
  | ret a => exact .inr ⟨a, [], t, rfl, .refl _, h⟩
  | raise e => cases (reaches_raise.mp h).2
  | await c' k' ih =>
    rw [Prog.await_bind] at h
    rcases reaches_await.mp h with ⟨rfl, hq⟩ | ⟨a, rest, rfl, hr⟩
    · cases hq
      exact .inl ⟨k', .refl _⟩
    · rcases ih a hr with ⟨k₁, hk₁⟩ | ⟨b, t₁, t₂, rfl, hends, hr⟩
      · exact .inl ⟨k₁, .step a hk₁⟩
      · exact .inr ⟨b, ⟨c', a⟩ :: t₁, t₂, rfl, .step a hends, hr⟩

/-- Whatever it ends in, something is raised after it. -/
theorem ends_bind_raise {p : Prog I ε α} {e : ε} {t : Trace I ε} {o : Except ε β} :
    Ends (p.bind fun _ => .raise e) t o ↔
      ∃ r, Ends p t r ∧ o = .error (match r with | .ok _ => e | .error x => x) := by
  rw [ends_bind]
  constructor
  · rintro (⟨a, t₁, t₂, rfl, hp, hr⟩ | ⟨x, rfl, hp⟩)
    · obtain ⟨rfl, rfl⟩ := ends_raise.mp hr
      exact ⟨.ok a, by simpa using hp, rfl⟩
    · exact ⟨.error x, hp, rfl⟩
  · rintro ⟨r, hp, rfl⟩
    cases r with
    | ok a => exact .inl ⟨a, t, [], by simp, hp, ends_raise.mpr ⟨rfl, rfl⟩⟩
    | error x => exact .inr ⟨x, rfl, hp⟩

/-- Binding after `perform`: the answer decides. -/
theorem ends_perform_bind {c : I.Cmd} {f : I.Ans c → Prog I ε β} {t : Trace I ε}
    {o : Except ε β} :
    Ends ((Prog.perform c).bind f) t o ↔
      (∃ a rest, t = ⟨c, .ok a⟩ :: rest ∧ Ends (f a) rest o) ∨
        ∃ e, t = [⟨c, .error e⟩] ∧ o = .error e := by
  rw [ends_bind]
  constructor
  · rintro (⟨a, t₁, t₂, rfl, hp, hf⟩ | ⟨e, rfl, hp⟩)
    · rw [ends_perform] at hp
      exact .inl ⟨a, t₂, by rw [hp]; rfl, hf⟩
    · exact .inr ⟨e, ends_perform.mp hp, rfl⟩
  · rintro (⟨a, rest, rfl, hf⟩ | ⟨e, rfl, rfl⟩)
    · exact .inl ⟨a, [⟨c, .ok a⟩], rest, rfl, ends_perform.mpr rfl, hf⟩
    · exact .inr ⟨e, rfl, ends_perform.mpr rfl⟩

@[simp] theorem ends_attempt {p : Prog I ε α} {t : Trace I ε} {o : Except ε (Except ε α)} :
    Ends p.attempt t o ↔ ∃ r, o = .ok r ∧ Ends p t r := by
  induction p generalizing t with
  | ret a =>
    simp only [Prog.attempt, ends_ret]
    exact ⟨fun h => ⟨.ok a, h.2, h.1, rfl⟩, fun ⟨r, ho, ht, hr⟩ => ⟨ht, by rw [ho, hr]⟩⟩
  | raise e =>
    simp only [Prog.attempt, ends_ret, ends_raise]
    exact ⟨fun h => ⟨.error e, h.2, h.1, rfl⟩, fun ⟨r, ho, ht, hr⟩ => ⟨ht, by rw [ho, hr]⟩⟩
  | await c k ih =>
    simp only [Prog.attempt, ends_await, ih]
    constructor
    · rintro ⟨a, rest, rfl, r, rfl, h⟩
      exact ⟨r, rfl, a, rest, rfl, h⟩
    · rintro ⟨r, rfl, a, rest, rfl, h⟩
      exact ⟨a, rest, rfl, r, rfl, h⟩

/-- What follows an attempt runs whatever the outcome was. -/
theorem ends_attempt_bind {p : Prog I ε α} {f : Except ε α → Prog I ε β} {t : Trace I ε}
    {o : Except ε β} :
    Ends (p.attempt.bind f) t o ↔
      ∃ r t₁ t₂, t = t₁ ++ t₂ ∧ Ends p t₁ r ∧ Ends (f r) t₂ o := by
  rw [ends_bind]
  constructor
  · rintro (⟨a, t₁, t₂, rfl, hp, hf⟩ | ⟨e, rfl, hp⟩)
    · obtain ⟨r, hr, h⟩ := ends_attempt.mp hp
      cases hr
      exact ⟨a, t₁, t₂, rfl, h, hf⟩
    · obtain ⟨r, hr, _⟩ := ends_attempt.mp hp
      cases hr
  · rintro ⟨r, t₁, t₂, rfl, h, hf⟩
    exact .inl ⟨r, t₁, t₂, rfl, ends_attempt.mpr ⟨r, rfl, h⟩, hf⟩

theorem ends_tryExcept {p : Prog I ε α} {h : ε → Prog I ε α} {t : Trace I ε} {o : Except ε α} :
    Ends (p.tryExcept h) t o ↔
      (∃ a, o = .ok a ∧ Ends p t (.ok a)) ∨
        ∃ e t₁ t₂, t = t₁ ++ t₂ ∧ Ends p t₁ (.error e) ∧ Ends (h e) t₂ o := by
  unfold Prog.tryExcept
  rw [ends_attempt_bind]
  constructor
  · rintro ⟨r, t₁, t₂, rfl, hp, hf⟩
    cases r with
    | ok a =>
      obtain ⟨rfl, rfl⟩ := ends_ret.mp hf
      exact .inl ⟨a, rfl, by simpa using hp⟩
    | error e => exact .inr ⟨e, t₁, t₂, rfl, hp, hf⟩
  · rintro (⟨a, rfl, hp⟩ | ⟨e, t₁, t₂, rfl, hp, hf⟩)
    · exact ⟨.ok a, t, [], by simp, hp, ends_ret.mpr ⟨rfl, rfl⟩⟩
    · exact ⟨.error e, t₁, t₂, rfl, hp, hf⟩

theorem ends_tryFinally {p : Prog I ε α} {f : Prog I ε Unit} {t : Trace I ε} {o : Except ε α} :
    Ends (p.tryFinally f) t o ↔
      ∃ r t₁ t₂, t = t₁ ++ t₂ ∧ Ends p t₁ r ∧
        ((Ends f t₂ (.ok ()) ∧ o = r) ∨ ∃ e, Ends f t₂ (.error e) ∧ o = .error e) := by
  unfold Prog.tryFinally
  rw [ends_attempt_bind]
  constructor
  · rintro ⟨r, t₁, t₂, rfl, hp, hf⟩
    refine ⟨r, t₁, t₂, rfl, hp, ?_⟩
    rw [ends_bind] at hf
    rcases hf with ⟨_, s₁, s₂, rfl, hf, hr⟩ | ⟨e, rfl, hf⟩
    · obtain ⟨rfl, rfl⟩ := ends_ofExcept.mp hr
      exact .inl ⟨by simpa using hf, rfl⟩
    · exact .inr ⟨e, hf, rfl⟩
  · rintro ⟨r, t₁, t₂, rfl, hp, hf⟩
    refine ⟨r, t₁, t₂, rfl, hp, ?_⟩
    rw [ends_bind]
    rcases hf with ⟨hf, rfl⟩ | ⟨e, hf, rfl⟩
    · exact .inl ⟨(), t₂, [], by simp, hf, ends_ofExcept.mpr ⟨rfl, rfl⟩⟩
    · exact .inr ⟨e, rfl, hf⟩

/-! ### Programs among more commands -/

def Event.inl (e : Event I ε) : Event (I.sum J) ε := ⟨.inl e.cmd, e.answer⟩
def Event.inr (e : Event J ε) : Event (I.sum J) ε := ⟨.inr e.cmd, e.answer⟩

theorem ends_inl {p : Prog I ε α} {t : Trace (I.sum J) ε} {o : Except ε α} :
    Ends (p.inl : Prog (I.sum J) ε α) t o ↔ ∃ s, t = s.map Event.inl ∧ Ends p s o := by
  induction p generalizing t with
  | ret a =>
    simp only [Prog.inl, ends_ret]
    exact ⟨fun h => ⟨[], h.1, rfl, h.2⟩, fun ⟨s, ht, hs, ho⟩ => ⟨by rw [ht, hs]; rfl, ho⟩⟩
  | raise e =>
    simp only [Prog.inl, ends_raise]
    exact ⟨fun h => ⟨[], h.1, rfl, h.2⟩, fun ⟨s, ht, hs, ho⟩ => ⟨by rw [ht, hs]; rfl, ho⟩⟩
  | await c k ih =>
    simp only [Prog.inl, ends_await, ih]
    constructor
    · rintro ⟨a, _, rfl, s, rfl, h⟩
      exact ⟨⟨c, a⟩ :: s, rfl, a, s, rfl, h⟩
    · rintro ⟨_, rfl, a, s, rfl, h⟩
      exact ⟨a, s.map Event.inl, rfl, s, rfl, h⟩

theorem ends_inr {p : Prog J ε α} {t : Trace (I.sum J) ε} {o : Except ε α} :
    Ends (p.inr : Prog (I.sum J) ε α) t o ↔ ∃ s, t = s.map Event.inr ∧ Ends p s o := by
  induction p generalizing t with
  | ret a =>
    simp only [Prog.inr, ends_ret]
    exact ⟨fun h => ⟨[], h.1, rfl, h.2⟩, fun ⟨s, ht, hs, ho⟩ => ⟨by rw [ht, hs]; rfl, ho⟩⟩
  | raise e =>
    simp only [Prog.inr, ends_raise]
    exact ⟨fun h => ⟨[], h.1, rfl, h.2⟩, fun ⟨s, ht, hs, ho⟩ => ⟨by rw [ht, hs]; rfl, ho⟩⟩
  | await c k ih =>
    simp only [Prog.inr, ends_await, ih]
    constructor
    · rintro ⟨a, _, rfl, s, rfl, h⟩
      exact ⟨⟨c, a⟩ :: s, rfl, a, s, rfl, h⟩
    · rintro ⟨_, rfl, a, s, rfl, h⟩
      exact ⟨a, s.map Event.inr, rfl, s, rfl, h⟩

/-- Where a program among more commands has got to. -/
theorem Reaches.of_inl {p : Prog I ε α} {t : Trace (I.sum J) ε} {q : Prog (I.sum J) ε α} (h : Reaches p.inl t q) :
    ∃ s q', t = s.map Event.inl ∧ q = q'.inl ∧ Reaches p s q' := by
  induction p generalizing t with
  | ret a =>
    obtain ⟨rfl, rfl⟩ := reaches_ret.mp h
    exact ⟨[], .ret a, rfl, rfl, .refl _⟩
  | raise e =>
    obtain ⟨rfl, rfl⟩ := reaches_raise.mp h
    exact ⟨[], .raise e, rfl, rfl, .refl _⟩
  | await c k ih =>
    rcases reaches_await.mp h with ⟨rfl, rfl⟩ | ⟨a, rest, rfl, hr⟩
    · exact ⟨[], .await c k, rfl, rfl, .refl _⟩
    · obtain ⟨s, q', rfl, rfl, hs⟩ := ih a hr
      exact ⟨⟨c, a⟩ :: s, q', rfl, rfl, reaches_await.mpr (.inr ⟨a, s, rfl, hs⟩)⟩

theorem Reaches.of_inr {p : Prog J ε α} {t : Trace (I.sum J) ε} {q : Prog (I.sum J) ε α} (h : Reaches p.inr t q) :
    ∃ s q', t = s.map Event.inr ∧ q = q'.inr ∧ Reaches p s q' := by
  induction p generalizing t with
  | ret a =>
    obtain ⟨rfl, rfl⟩ := reaches_ret.mp h
    exact ⟨[], .ret a, rfl, rfl, .refl _⟩
  | raise e =>
    obtain ⟨rfl, rfl⟩ := reaches_raise.mp h
    exact ⟨[], .raise e, rfl, rfl, .refl _⟩
  | await c k ih =>
    rcases reaches_await.mp h with ⟨rfl, rfl⟩ | ⟨a, rest, rfl, hr⟩
    · exact ⟨[], .await c k, rfl, rfl, .refl _⟩
    · obtain ⟨s, q', rfl, rfl, hs⟩ := ih a hr
      exact ⟨⟨c, a⟩ :: s, q', rfl, rfl, reaches_await.mpr (.inr ⟨a, s, rfl, hs⟩)⟩

theorem ends_perform_inl {c : I.Cmd} {t : Trace (I.sum J) ε} {o : Except ε (I.Ans c)} :
    Ends (Prog.perform c : Prog I ε (I.Ans c)).inl t o ↔ t = [⟨.inl c, o⟩] := by
  rw [ends_inl]
  constructor
  · rintro ⟨s, rfl, h⟩
    rw [ends_perform.mp h]
    rfl
  · rintro rfl
    exact ⟨[⟨c, o⟩], rfl, ends_perform.mpr rfl⟩

/-- The part of a trace that asked the left interface. -/
def lefts : Trace (I.sum J) ε → Trace I ε
  | [] => []
  | ⟨.inl c, a⟩ :: t => ⟨c, a⟩ :: lefts t
  | ⟨.inr _, _⟩ :: t => lefts t

def rights : Trace (I.sum J) ε → Trace J ε
  | [] => []
  | ⟨.inl _, _⟩ :: t => rights t
  | ⟨.inr c, a⟩ :: t => ⟨c, a⟩ :: rights t

section Parts
variable (t u : Trace (I.sum J) ε)

@[simp] theorem lefts_nil : lefts ([] : Trace (I.sum J) ε) = [] := rfl
@[simp] theorem rights_nil : rights ([] : Trace (I.sum J) ε) = [] := rfl
@[simp] theorem lefts_inl (c : I.Cmd) (a : Except ε (I.Ans c)) :
    lefts ((⟨.inl c, a⟩ : Event (I.sum J) ε) :: t) = ⟨c, a⟩ :: lefts t := rfl
@[simp] theorem lefts_inr (c : J.Cmd) (a : Except ε (J.Ans c)) :
    lefts ((⟨.inr c, a⟩ : Event (I.sum J) ε) :: t) = lefts t := rfl
@[simp] theorem rights_inl (c : I.Cmd) (a : Except ε (I.Ans c)) :
    rights ((⟨.inl c, a⟩ : Event (I.sum J) ε) :: t) = rights t := rfl
@[simp] theorem rights_inr (c : J.Cmd) (a : Except ε (J.Ans c)) :
    rights ((⟨.inr c, a⟩ : Event (I.sum J) ε) :: t) = ⟨c, a⟩ :: rights t := rfl

@[simp] theorem lefts_append : lefts (t ++ u) = lefts t ++ lefts u := by
  induction t with
  | nil => rfl
  | cons e t ih =>
    obtain ⟨c | c, a⟩ := e
    · simp only [List.cons_append, lefts_inl, ih]
    · simp only [List.cons_append, lefts_inr, ih]

@[simp] theorem rights_append : rights (t ++ u) = rights t ++ rights u := by
  induction t with
  | nil => rfl
  | cons e t ih =>
    obtain ⟨c | c, a⟩ := e
    · simp only [List.cons_append, rights_inl, ih]
    · simp only [List.cons_append, rights_inr, ih]

@[simp] theorem lefts_map_inl (s : Trace I ε) : lefts (s.map Event.inl : Trace (I.sum J) ε) = s := by
  induction s with
  | nil => rfl
  | cons e s ih => exact congrArg (e :: ·) ih

@[simp] theorem lefts_map_inr (s : Trace J ε) : lefts (s.map Event.inr : Trace (I.sum J) ε) = [] := by
  induction s with
  | nil => rfl
  | cons e s ih => exact ih

@[simp] theorem rights_map_inl (s : Trace I ε) : rights (s.map Event.inl : Trace (I.sum J) ε) = [] := by
  induction s with
  | nil => rfl
  | cons e s ih => exact ih

@[simp] theorem rights_map_inr (s : Trace J ε) : rights (s.map Event.inr : Trace (I.sum J) ε) = s := by
  induction s with
  | nil => rfl
  | cons e s ih => exact congrArg (e :: ·) ih

end Parts

/-- What is in a part was in the whole. -/
theorem mem_of_mem_lefts {t : Trace (I.sum J) ε} {e : Event I ε} (h : e ∈ lefts t) : e.inl ∈ t := by
  induction t with
  | nil => cases h
  | cons x t ih =>
    obtain ⟨c | c, a⟩ := x
    · rcases List.mem_cons.mp h with rfl | h
      · exact List.mem_cons_self
      · exact List.mem_cons_of_mem _ (ih h)
    · exact List.mem_cons_of_mem _ (ih h)

theorem mem_of_mem_rights {t : Trace (I.sum J) ε} {e : Event J ε} (h : e ∈ rights t) : e.inr ∈ t := by
  induction t with
  | nil => cases h
  | cons x t ih =>
    obtain ⟨c | c, a⟩ := x
    · exact List.mem_cons_of_mem _ (ih h)
    · rcases List.mem_cons.mp h with rfl | h
      · exact List.mem_cons_self
      · exact List.mem_cons_of_mem _ (ih h)

/-- The same trace, its commands grouped as `Prog.assoc` does. -/
def regroup {K : Interface} : Trace ((I.sum J).sum K) ε → Trace (I.sum (J.sum K)) ε
  | [] => []
  | ⟨.inl (.inl c), a⟩ :: t => ⟨.inl c, a⟩ :: regroup t
  | ⟨.inl (.inr c), a⟩ :: t => ⟨.inr (.inl c), a⟩ :: regroup t
  | ⟨.inr c, a⟩ :: t => ⟨.inr (.inr c), a⟩ :: regroup t

section Regroup
variable {K : Interface} (t : Trace ((I.sum J).sum K) ε)

@[simp] theorem lefts_regroup : lefts (regroup t) = lefts (lefts t) := by
  induction t with
  | nil => rfl
  | cons e t ih =>
    obtain ⟨(c | c) | c, a⟩ := e
    · exact congrArg (_ :: ·) ih
    · exact ih
    · exact ih

@[simp] theorem lefts_rights_regroup : lefts (rights (regroup t)) = rights (lefts t) := by
  induction t with
  | nil => rfl
  | cons e t ih =>
    obtain ⟨(c | c) | c, a⟩ := e
    · exact ih
    · exact congrArg (_ :: ·) ih
    · exact ih

@[simp] theorem rights_rights_regroup : rights (rights (regroup t)) = rights t := by
  induction t with
  | nil => rfl
  | cons e t ih =>
    obtain ⟨(c | c) | c, a⟩ := e
    · exact ih
    · exact ih
    · exact congrArg (_ :: ·) ih

end Regroup

theorem regroup_append {K : Interface} (t u : Trace ((I.sum J).sum K) ε) :
    regroup (t ++ u) = regroup t ++ regroup u := by
  induction t with
  | nil => rfl
  | cons e t ih =>
    obtain ⟨(c | c) | c, a⟩ := e <;> exact congrArg (_ :: ·) ih

theorem mem_of_mem_regroup {K : Interface} {t : Trace ((I.sum J).sum K) ε} {c : K.Cmd}
    {a : Except ε (K.Ans c)}
    (h : (⟨.inr (.inr c), a⟩ : Event (I.sum (J.sum K)) ε) ∈ regroup t) :
    (⟨.inr c, a⟩ : Event ((I.sum J).sum K) ε) ∈ t := by
  induction t with
  | nil => cases h
  | cons e t ih =>
    obtain ⟨(c' | c') | c', a'⟩ := e
    · rcases List.mem_cons.mp h with he | h
      · cases he
      · exact List.mem_cons_of_mem _ (ih h)
    · rcases List.mem_cons.mp h with he | h
      · cases he
      · exact List.mem_cons_of_mem _ (ih h)
    · rcases List.mem_cons.mp h with he | h
      · cases he
        exact List.mem_cons_self
      · exact List.mem_cons_of_mem _ (ih h)

theorem ends_assoc {K : Interface} {p : Prog ((I.sum J).sum K) ε α} {t : Trace (I.sum (J.sum K)) ε}
    {o : Except ε α} : Ends p.assoc t o ↔ ∃ s, t = regroup s ∧ Ends p s o := by
  induction p generalizing t with
  | ret a =>
    simp only [Prog.assoc, ends_ret]
    exact ⟨fun h => ⟨[], h.1, rfl, h.2⟩, fun ⟨s, ht, hs, ho⟩ => ⟨by rw [ht, hs]; rfl, ho⟩⟩
  | raise e =>
    simp only [Prog.assoc, ends_raise]
    exact ⟨fun h => ⟨[], h.1, rfl, h.2⟩, fun ⟨s, ht, hs, ho⟩ => ⟨by rw [ht, hs]; rfl, ho⟩⟩
  | await c k ih =>
    obtain (c | c) | c := c <;> simp only [Prog.assoc, ends_await, ih]
    · constructor
      · rintro ⟨a, _, rfl, s, rfl, h⟩
        exact ⟨⟨.inl (.inl c), a⟩ :: s, rfl, a, s, rfl, h⟩
      · rintro ⟨_, rfl, a, s, rfl, h⟩
        exact ⟨a, regroup s, rfl, s, rfl, h⟩
    · constructor
      · rintro ⟨a, _, rfl, s, rfl, h⟩
        exact ⟨⟨.inl (.inr c), a⟩ :: s, rfl, a, s, rfl, h⟩
      · rintro ⟨_, rfl, a, s, rfl, h⟩
        exact ⟨a, regroup s, rfl, s, rfl, h⟩
    · constructor
      · rintro ⟨a, _, rfl, s, rfl, h⟩
        exact ⟨⟨.inr c, a⟩ :: s, rfl, a, s, rfl, h⟩
      · rintro ⟨_, rfl, a, s, rfl, h⟩
        exact ⟨a, regroup s, rfl, s, rfl, h⟩

end Relayix.Library
