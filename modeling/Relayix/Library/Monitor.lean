import Relayix.Library.Program

/-! Monitors: what a program may still do, seen from outside.

A monitor follows the commands and answers of one program with a state of its own
and says which command may come next, and which answers the program may count on.
`p.Obeys M Q s` is the promise that `p`, watched from state `s`, only asks what the
monitor allows, whatever the expected answers, and ends in a way `Q` accepts. It is
proved from the outside in, by one rule for each way of composing programs; what it
gives is `Obeys.reaches` and `Obeys.ends`, about every run. -/
namespace Relayix.Library

structure Monitor (I : Interface) (ε σ : Type) where
  next : σ → (c : I.Cmd) → Except ε (I.Ans c) → σ
  allowed : σ → I.Cmd → Prop
  /-- what the surroundings promise in return -/
  expects : (c : I.Cmd) → Except ε (I.Ans c) → Prop

variable {I J : Interface} {ε α β σ : Type}

/-- The monitor's state after a trace. -/
def Monitor.run (M : Monitor I ε σ) (s : σ) : Trace I ε → σ
  | [] => s
  | e :: rest => M.run (M.next s e.cmd e.answer) rest

@[simp] theorem Monitor.run_nil (M : Monitor I ε σ) (s : σ) : M.run s [] = s := rfl

theorem Monitor.run_append (M : Monitor I ε σ) (s : σ) (a b : Trace I ε) :
    M.run s (a ++ b) = M.run (M.run s a) b := by
  induction a generalizing s with
  | nil => rfl
  | cons e a ih => exact ih _

theorem Monitor.run_snoc (M : Monitor I ε σ) (s : σ) (t : Trace I ε) (e : Event I ε) :
    M.run s (t ++ [e]) = M.next (M.run s t) e.cmd e.answer :=
  M.run_append s t [e]

/-- Every answer of the trace is one the monitor expects. -/
def Monitor.Expected (M : Monitor I ε σ) (t : Trace I ε) : Prop :=
  ∀ e ∈ t, M.expects e.cmd e.answer

/-- Watched from `s`, the program asks only what is allowed and ends as `Q` accepts. -/
def Prog.Obeys (M : Monitor I ε σ) (Q : Except ε α → σ → Prop) : Prog I ε α → σ → Prop
  | .ret a, s => Q (.ok a) s
  | .raise e, s => Q (.error e) s
  | .await c k, s => M.allowed s c ∧ ∀ a, M.expects c a → (k a).Obeys M Q (M.next s c a)

/-- The same monitor over the left commands alone. -/
def Monitor.onLeft (M : Monitor (I.sum J) ε σ) : Monitor I ε σ where
  next s c a := M.next s (.inl c) a
  allowed s c := M.allowed s (.inl c)
  expects c a := M.expects (.inl c) a

/-- The same monitor over the right commands alone. -/
def Monitor.onRight (M : Monitor (I.sum J) ε σ) : Monitor J ε σ where
  next s c a := M.next s (.inr c) a
  allowed s c := M.allowed s (.inr c)
  expects c a := M.expects (.inr c) a

/-- The same monitor with the commands grouped as `Prog.assoc` finds them. -/
def Monitor.unassoc {K : Interface} (M : Monitor (I.sum (J.sum K)) ε σ) :
    Monitor ((I.sum J).sum K) ε σ where
  next
    | s, .inl (.inl c), a => M.next s (.inl c) a
    | s, .inl (.inr c), a => M.next s (.inr (.inl c)) a
    | s, .inr c, a => M.next s (.inr (.inr c)) a
  allowed
    | s, .inl (.inl c) => M.allowed s (.inl c)
    | s, .inl (.inr c) => M.allowed s (.inr (.inl c))
    | s, .inr c => M.allowed s (.inr (.inr c))
  expects
    | .inl (.inl c), a => M.expects (.inl c) a
    | .inl (.inr c), a => M.expects (.inr (.inl c)) a
    | .inr c, a => M.expects (.inr (.inr c)) a

variable {M : Monitor I ε σ}

namespace Prog.Obeys

theorem mono {p : Prog I ε α} {s : σ} {Q R : Except ε α → σ → Prop} (h : p.Obeys M Q s)
    (hq : ∀ o s, Q o s → R o s) : p.Obeys M R s := by
  induction p generalizing s with
  | ret a => exact hq _ _ h
  | raise e => exact hq _ _ h
  | await c k ih => exact ⟨h.1, fun a ha => ih a (h.2 a ha)⟩

theorem bind {p : Prog I ε α} {f : α → Prog I ε β} {s : σ} {Q : Except ε α → σ → Prop}
    {R : Except ε β → σ → Prop} (h : p.Obeys M Q s)
    (hok : ∀ a s, Q (.ok a) s → (f a).Obeys M R s)
    (herr : ∀ e s, Q (.error e) s → R (.error e) s) : (p.bind f).Obeys M R s := by
  induction p generalizing s with
  | ret a => exact hok a s h
  | raise e => exact herr e s h
  | await c k ih => exact ⟨h.1, fun a ha => ih a (h.2 a ha)⟩

theorem attempt {p : Prog I ε α} {s : σ} {Q : Except ε α → σ → Prop} (h : p.Obeys M Q s) :
    p.attempt.Obeys M (fun o s => ∃ r, o = .ok r ∧ Q r s) s := by
  induction p generalizing s with
  | ret a => exact ⟨_, rfl, h⟩
  | raise e => exact ⟨_, rfl, h⟩
  | await c k ih => exact ⟨h.1, fun a ha => ih a (h.2 a ha)⟩

/-- What follows an attempt must be right after every outcome. -/
theorem attempt_bind {p : Prog I ε α} {f : Except ε α → Prog I ε β} {s : σ}
    {Q : Except ε α → σ → Prop} {R : Except ε β → σ → Prop} (h : p.Obeys M Q s)
    (hf : ∀ r s, Q r s → (f r).Obeys M R s) : (p.attempt.bind f).Obeys M R s := by
  refine h.attempt.bind ?_ ?_
  · rintro r s ⟨r', hr, hq⟩
    cases hr
    exact hf r s hq
  · rintro e s ⟨r', hr, _⟩
    cases hr

theorem tryExcept {p : Prog I ε α} {f : ε → Prog I ε α} {s : σ} {Q R : Except ε α → σ → Prop}
    (h : p.Obeys M Q s) (hok : ∀ a s, Q (.ok a) s → R (.ok a) s)
    (herr : ∀ e s, Q (.error e) s → (f e).Obeys M R s) : (p.tryExcept f).Obeys M R s := by
  refine h.attempt_bind fun r s hr => ?_
  cases r with
  | ok a => exact hok a s hr
  | error e => exact herr e s hr

/-- The cleanup starts from every outcome, and its own exception replaces it. -/
theorem tryFinally {p : Prog I ε α} {f : Prog I ε Unit} {s : σ} {Q R : Except ε α → σ → Prop}
    (h : p.Obeys M Q s)
    (hf : ∀ o s, Q o s → f.Obeys M (fun r s => R (r.bind fun _ => o) s) s) :
    (p.tryFinally f).Obeys M R s := by
  refine h.attempt_bind fun o s hq => (hf o s hq).bind (fun _ s hr => ?_) (fun e s hr => hr)
  cases o <;> exact hr

theorem inl {M : Monitor (I.sum J) ε σ} {p : Prog I ε α} {s : σ} {Q : Except ε α → σ → Prop}
    (h : p.Obeys M.onLeft Q s) : (p.inl : Prog (I.sum J) ε α).Obeys M Q s := by
  induction p generalizing s with
  | ret a => exact h
  | raise e => exact h
  | await c k ih => exact ⟨h.1, fun a ha => ih a (h.2 a ha)⟩

theorem inr {M : Monitor (I.sum J) ε σ} {p : Prog J ε α} {s : σ} {Q : Except ε α → σ → Prop}
    (h : p.Obeys M.onRight Q s) : (p.inr : Prog (I.sum J) ε α).Obeys M Q s := by
  induction p generalizing s with
  | ret a => exact h
  | raise e => exact h
  | await c k ih => exact ⟨h.1, fun a ha => ih a (h.2 a ha)⟩

theorem assoc {K : Interface} {M : Monitor (I.sum (J.sum K)) ε σ} {p : Prog ((I.sum J).sum K) ε α}
    {s : σ} {Q : Except ε α → σ → Prop} (h : p.Obeys M.unassoc Q s) : p.assoc.Obeys M Q s := by
  induction p generalizing s with
  | ret a => exact h
  | raise e => exact h
  | await c k ih =>
    obtain (c | c) | c := c <;> exact ⟨h.1, fun a ha => ih a (h.2 a ha)⟩

theorem perform {c : I.Cmd} {s : σ} {Q : Except ε (I.Ans c) → σ → Prop} (hc : M.allowed s c)
    (hq : ∀ a, M.expects c a → Q a (M.next s c a)) : (Prog.perform c).Obeys M Q s := by
  refine ⟨hc, fun a ha => ?_⟩
  cases a with
  | ok a => exact hq _ ha
  | error e => exact hq _ ha

/-- Another monitor that allows as much, in states that correspond. -/
theorem along {τ : Type} {M' : Monitor I ε τ} {f : σ → τ} {p : Prog I ε α} {s : σ} {Q : Except ε α → σ → Prop}
    (hallowed : ∀ s c, M.allowed s c → M'.allowed (f s) c)
    (hnext : ∀ s c a, M.allowed s c → M'.next (f s) c a = f (M.next s c a))
    (hexpects : ∀ c a, M'.expects c a → M.expects c a) (h : p.Obeys M Q s) :
    p.Obeys M' (fun o t => ∃ s', t = f s' ∧ Q o s') (f s) := by
  induction p generalizing s with
  | ret a => exact ⟨s, rfl, h⟩
  | raise e => exact ⟨s, rfl, h⟩
  | await c k ih =>
    refine ⟨hallowed s c h.1, fun a ha => ?_⟩
    rw [hnext s c a h.1]
    exact ih a (h.2 a (hexpects c a ha))

/-- Where everything is allowed. -/
theorem of_lenient (h : ∀ s c, M.allowed s c) (p : Prog I ε α) (s : σ) : p.Obeys M (fun _ _ => True) s := by
  induction p generalizing s with
  | ret a => trivial
  | raise e => trivial
  | await c k ih => exact ⟨h s c, fun a _ => ih a (M.next s c a)⟩

/-- At every point of a run the rest of the program still obeys. -/
theorem reaches {p q : Prog I ε α} {t : Trace I ε} {s : σ} {Q : Except ε α → σ → Prop}
    (h : p.Obeys M Q s) (hr : Reaches p t q) (ht : M.Expected t) : q.Obeys M Q (M.run s t) := by
  induction hr generalizing s with
  | refl => exact h
  | step a _ ih =>
    have ha := ht _ List.mem_cons_self
    exact ih (h.2 a ha) fun e he => ht e (List.mem_cons_of_mem _ he)

theorem ends {p : Prog I ε α} {t : Trace I ε} {o : Except ε α} {s : σ}
    {Q : Except ε α → σ → Prop} (h : p.Obeys M Q s) (he : Ends p t o) (ht : M.Expected t) :
    Q o (M.run s t) := by
  have := h.reaches he ht
  cases o <;> exact this

end Prog.Obeys

/-! ### Which commands a program asks -/

/-- Allows the commands in `P`. -/
def Monitor.only (P : I.Cmd → Prop) : Monitor I ε Unit where
  next _ _ _ := ()
  allowed _ c := P c
  expects _ _ := True

/-- The commands in `P` are always allowed, and move nothing. -/
def Monitor.Ignores (M : Monitor I ε σ) (P : I.Cmd → Prop) : Prop :=
  ∀ s c, P c → M.allowed s c ∧ ∀ a, M.next s c a = s

/-- Whatever it is answered, the program asks only commands in `P`. -/
abbrev Prog.Asks (P : I.Cmd → Prop) (p : Prog I ε α) : Prop := p.Obeys (.only P) (fun _ _ => True) ()

namespace Prog.Asks
variable {P : I.Cmd → Prop} {p : Prog I ε α}

theorem reaches (h : p.Asks P) {q : Prog I ε α} {t : Trace I ε} (hr : Reaches p t q) :
    ∀ e ∈ t, P e.cmd := by
  induction hr with
  | refl => exact fun _ he => absurd he List.not_mem_nil
  | step a _ ih => exact List.forall_mem_cons.mpr ⟨h.1, ih (h.2 a trivial)⟩

theorem imp {P' : I.Cmd → Prop} (h : p.Asks P) (hP : ∀ c, P c → P' c) : p.Asks P' := by
  induction p with
  | ret a => trivial
  | raise e => trivial
  | await c k ih => exact ⟨hP c h.1, fun a _ => ih a (h.2 a trivial)⟩

theorem bind {f : α → Prog I ε β} (h : p.Asks P) (hf : ∀ a, (f a).Asks P) : (p.bind f).Asks P :=
  Obeys.bind h (fun a _ _ => hf a) (fun _ _ _ => trivial)

/-- Only what `p` can return has to be followed. -/
theorem bind_of_ends {f : α → Prog I ε β} (h : p.Asks P)
    (hf : ∀ t a, Ends p t (.ok a) → (f a).Asks P) : (p.bind f).Asks P := by
  induction p with
  | ret a => exact hf [] a (ends_ret.mpr ⟨rfl, rfl⟩)
  | raise e => trivial
  | await c k ih =>
    exact ⟨h.1, fun a _ => ih a (h.2 a trivial) fun t b hb => hf (⟨c, a⟩ :: t) b (ends_await.mpr ⟨a, t, rfl, hb⟩)⟩

theorem attempt_bind {f : Except ε α → Prog I ε β} (h : p.Asks P) (hf : ∀ r, (f r).Asks P) :
    (p.attempt.bind f).Asks P :=
  Obeys.attempt_bind h fun r _ _ => hf r

theorem tryExcept {f : ε → Prog I ε α} (h : p.Asks P) (hf : ∀ e, (f e).Asks P) :
    (p.tryExcept f).Asks P :=
  Obeys.tryExcept h (fun _ _ _ => trivial) (fun e _ _ => hf e)

theorem tryFinally {f : Prog I ε Unit} (h : p.Asks P) (hf : f.Asks P) : (p.tryFinally f).Asks P :=
  Obeys.tryFinally h fun _ _ _ => hf.mono fun _ _ _ => trivial

theorem of_forall (h : ∀ c, P c) (p : Prog I ε α) : p.Asks P := by
  induction p with
  | ret a => trivial
  | raise e => trivial
  | await c k ih => exact ⟨h c, fun a _ => ih a⟩

/-- What a monitor allows at every moment is all that is ever asked. -/
theorem of_obeys {Q : Except ε α → σ → Prop} {s : σ} (h : p.Obeys M Q s) (hexp : ∀ (c : I.Cmd) a, M.expects c a)
    (hP : ∀ s c, M.allowed s c → P c) : p.Asks P := by
  induction p generalizing s with
  | ret a => trivial
  | raise e => trivial
  | await c k ih => exact ⟨hP s c h.1, fun a _ => ih a (h.2 a (hexp c a))⟩

theorem ofExcept (o : Except ε α) : (Prog.ofExcept o : Prog I ε α).Asks P := by
  cases o <;> trivial

/-- Where the commands are all allowed, and change nothing. -/
theorem steady {s : σ} (h : p.Asks P) (hP : ∀ c, P c → M.allowed s c ∧ ∀ a, M.next s c a = s) :
    p.Obeys M (fun _ s' => s' = s) s := by
  induction p with
  | ret a => rfl
  | raise e => rfl
  | await c k ih =>
    obtain ⟨hallowed, hsame⟩ := hP c h.1
    refine ⟨hallowed, fun a _ => ?_⟩
    rw [hsame a]
    exact ih a (h.2 a trivial)

theorem lenient (h : p.Asks P) (hP : ∀ s c, P c → M.allowed s c) (s : σ) : p.Obeys M (fun _ _ => True) s := by
  induction p generalizing s with
  | ret a => trivial
  | raise e => trivial
  | await c k ih => exact ⟨hP s c h.1, fun a _ => ih a (h.2 a trivial) (M.next s c a)⟩

theorem ignored (h : p.Asks P) (hM : M.Ignores P) (s : σ) : p.Obeys M (fun _ s' => s' = s) s := h.steady (hM s)

theorem perform {c : I.Cmd} (h : P c) : (Prog.perform c : Prog I ε (I.Ans c)).Asks P :=
  Obeys.perform h fun _ _ => trivial

theorem inl {P : (I.sum J).Cmd → Prop} (h : p.Asks fun c => P (.inl c)) :
    (p.inl : Prog (I.sum J) ε α).Asks P := by
  induction p with
  | ret a => trivial
  | raise e => trivial
  | await c k ih => exact ⟨h.1, fun a _ => ih a (h.2 a trivial)⟩

theorem inr {P : (I.sum J).Cmd → Prop} {p : Prog J ε α} (h : p.Asks fun c => P (.inr c)) :
    (p.inr : Prog (I.sum J) ε α).Asks P := by
  induction p with
  | ret a => trivial
  | raise e => trivial
  | await c k ih => exact ⟨h.1, fun a _ => ih a (h.2 a trivial)⟩

/-- The commands as `Prog.assoc` finds them. -/
abbrev apart {K : Interface} (P : (I.sum (J.sum K)).Cmd → Prop) : ((I.sum J).sum K).Cmd → Prop
  | .inl (.inl c) => P (.inl c)
  | .inl (.inr c) => P (.inr (.inl c))
  | .inr c => P (.inr (.inr c))

theorem assoc {K : Interface} {P : (I.sum (J.sum K)).Cmd → Prop} {p : Prog ((I.sum J).sum K) ε α}
    (h : p.Asks (apart P)) : p.assoc.Asks P := by
  induction p with
  | ret a => trivial
  | raise e => trivial
  | await c k ih => obtain (c | c) | c := c <;> exact ⟨h.1, fun a _ => ih a (h.2 a trivial)⟩

end Prog.Asks

end Relayix.Library
