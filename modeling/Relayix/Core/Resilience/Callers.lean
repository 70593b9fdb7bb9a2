import Relayix.Core.Resilience.CircuitBreaker
import Relayix.Library.Pool

/-! One breaker and everyone who calls through it.

Whatever else a caller does (any interface `J`), all the breaker sees of it is
`client`: it asks `allow()` once and, if admitted, reports at most once, with the
generation it was given. Every program that obeys this monitor may be put in the
pool, and `Move` lists all that one atomic step can then do to the breaker and to
the caller who took it. The invariants are by cases on it. -/
namespace Relayix
open Library

inductive BreakerCmd where
  | allow
  | report (o : Outcome) (generation : Nat)
  deriving DecidableEq

@[reducible] def breakerI : Interface where
  Cmd := BreakerCmd
  Ans
    | .allow => Bool × Nat
    | .report _ _ => Unit

variable {J : Interface} {ε ι : Type}

/-- `await breaker.allow()` -/
def allow : Prog (breakerI.sum J) ε (Bool × Nat) := @Prog.perform (breakerI.sum J) ε (.inl .allow)

/-- `await breaker.record_success(generation)` and its siblings. -/
def report (o : Outcome) (generation : Nat) : Prog (breakerI.sum J) ε Unit :=
  @Prog.perform (breakerI.sum J) ε (.inl (.report o generation))

def CircuitBreaker.exec (now : ℚ) (b : CircuitBreaker) :
    (c : BreakerCmd) → breakerI.Ans c × CircuitBreaker
  | .allow => b.allow now
  | .report o generation => ((), b.report now o generation)

/-- A breaker and the monotonic clock it reads. -/
structure Clocked where
  breaker : CircuitBreaker
  now : ℚ

/-- Breaker commands are answered by the breaker, atomically; the others arbitrarily.
Between commands the clock moves forward. -/
def guarded (J : Interface) (ε : Type) : World (breakerI.sum J) ε Clocked where
  answers
    | w, .inl c, a, w' => a = .ok (w.breaker.exec w.now c).1 ∧
        w' = ⟨(w.breaker.exec w.now c).2, w.now⟩
    | w, .inr _, _, w' => w' = w
  elapses w w' := w.now ≤ w'.now ∧ w'.breaker = w.breaker

theorem guarded_allow {b b' : CircuitBreaker} {now : ℚ} {r : Bool × Nat}
    (h : b.allow now = (r, b')) :
    (guarded J ε).answers ⟨b, now⟩ (.inl .allow) (.ok r) ⟨b', now⟩ := by
  simp [guarded, CircuitBreaker.exec, h]

/-! ### One caller -/

/-- Where a caller stands with the breaker. -/
inductive Client where
  | fresh
  | holding (generation : Nat)
  | finished
  deriving DecidableEq

/-- Ask once; if admitted, report at most once, with the generation handed out. -/
def client : Monitor (breakerI.sum J) ε Client where
  next
    | .fresh, .inl .allow, .ok (true, generation) => .holding generation
    | .fresh, .inl .allow, _ => .finished
    | .holding _, .inl (.report _ _), _ => .finished
    | q, _, _ => q
  allowed
    | .fresh, .inl .allow => True
    | .holding generation, .inl (.report _ generation') => generation' = generation
    | _, .inr _ => True
    | _, .inl _ => False
  expects
    -- the breaker's methods return
    | .inl _, a => ∃ r, a = .ok r
    | .inr _, _ => True

theorem guarded_meets : (guarded J ε).Meets client := by
  intro w c a w' ha
  cases c with
  | inl c => exact ⟨_, ha.1⟩
  | inr c => trivial

/-- The caller of the breaker in its barest form: with `none` it never reports. -/
def caller (o : Option Outcome) : Prog (breakerI.sum J) ε Unit := do
  let (allowed, generation) ← allow
  match allowed, o with
  | true, some o => report o generation
  | _, _ => pure ()

theorem caller_obeys (o : Option Outcome) :
    (caller o : Prog (breakerI.sum J) ε Unit).Obeys client (fun _ _ => True) .fresh := by
  refine ⟨trivial, fun a ha => ?_⟩
  obtain ⟨⟨allowed, generation⟩, rfl⟩ := ha
  cases allowed <;> cases o
  · trivial
  · trivial
  · trivial
  · exact ⟨rfl, fun a _ => by cases a <;> trivial⟩

/-- The breaker's methods returned. -/
def Steady (calls : Trace breakerI ε) : Prop := ∀ e ∈ calls, ∃ r, e.answer = .ok r

theorem steady_append {s t : Trace breakerI ε} : Steady (s ++ t) ↔ Steady s ∧ Steady t :=
  List.forall_mem_append

/-- Where its talk with the breaker leaves a caller. -/
def standing (q : Client) : Trace breakerI ε → Client
  | [] => q
  | e :: rest =>
    standing ((client : Monitor (breakerI.sum .silent) ε Client).next q (.inl e.cmd) e.answer) rest

/-- Only that talk counts. -/
theorem client_run (q : Client) (t : Trace (breakerI.sum J) ε) :
    client.run q t = standing q (lefts t) := by
  induction t generalizing q with
  | nil => rfl
  | cons e t ih =>
    obtain ⟨c | c, a⟩ := e
    · have hn : (client : Monitor (breakerI.sum J) ε Client).next q (.inl c) a =
          (client : Monitor (breakerI.sum .silent) ε Client).next q (.inl c) a := by
        cases c with
        | report o generation => cases q <;> rfl
        | allow => obtain e | ⟨_ | _, generation⟩ := a <;> cases q <;> rfl
      show client.run ((client : Monitor (breakerI.sum J) ε Client).next q (.inl c) a) t = _
      rw [ih, hn]
      rfl
    · have hn : (client : Monitor (breakerI.sum J) ε Client).next q (.inr c) a = q := by
        cases q <;> rfl
      show client.run ((client : Monitor (breakerI.sum J) ε Client).next q (.inr c) a) t = _
      rw [hn]
      exact ih q

theorem steady_of_expected {t : Trace (breakerI.sum J) ε} (h : client.Expected t) :
    Steady (lefts t) := by
  induction t with
  | nil => exact fun e he => by cases he
  | cons e t ih =>
    have hrest := ih fun e hm => h e (List.mem_cons_of_mem _ hm)
    obtain ⟨c | c, a⟩ := e
    · exact List.forall_mem_cons.mpr ⟨h _ List.mem_cons_self, hrest⟩
    · exact hrest

/-! ### One step -/

/-- All that one answered command can do to the breaker and to its caller. -/
inductive Move (w : Clocked) : Client → Clocked → Client → Prop where
  | other (q : Client) : Move w q w q
  | pass : w.breaker.state = .closed → Move w .fresh w (.holding w.breaker.generation)
  | probe : w.breaker.state = .opened → w.breaker.resetTimeoutS ≤ w.now - w.breaker.openedAt →
      Move w .fresh ⟨{ w.breaker.enter .halfOpen with trialInFlight := true }, w.now⟩
        (.holding (w.breaker.generation + 1))
  | trial : w.breaker.state = .halfOpen → w.breaker.trialInFlight = false →
      Move w .fresh ⟨{ w.breaker with trialInFlight := true }, w.now⟩
        (.holding w.breaker.generation)
  | refused : Move w .fresh w .finished
  | stale {generation : Nat} : generation ≠ w.breaker.generation →
      Move w (.holding generation) w .finished
  | close : w.breaker.state ≠ .closed → Move w (.holding w.breaker.generation)
      ⟨{ w.breaker with state := .closed, failures := 0, trialInFlight := false,
                        generation := w.breaker.generation + 1 }, w.now⟩ .finished
  | reset : w.breaker.state = .closed → Move w (.holding w.breaker.generation)
      ⟨{ w.breaker with failures := 0, trialInFlight := false }, w.now⟩ .finished
  | trip : w.breaker.state = .halfOpen ∨ w.breaker.failThreshold ≤ w.breaker.failures + 1 →
      Move w (.holding w.breaker.generation)
        ⟨{ w.breaker with state := .opened, failures := w.breaker.failures + 1,
                          trialInFlight := false, generation := w.breaker.generation + 1,
                          openedAt := w.now }, w.now⟩ .finished
  | count : w.breaker.state ≠ .halfOpen → w.breaker.failures + 1 < w.breaker.failThreshold →
      Move w (.holding w.breaker.generation)
        ⟨{ w.breaker with failures := w.breaker.failures + 1, trialInFlight := false }, w.now⟩
        .finished
  | abort : Move w (.holding w.breaker.generation)
      ⟨{ w.breaker with trialInFlight := false }, w.now⟩ .finished

theorem move_allow (w : Clocked) :
    Move w .fresh ⟨(w.breaker.allow w.now).2, w.now⟩
      (if (w.breaker.allow w.now).1.1 then .holding (w.breaker.allow w.now).1.2 else .finished) := by
  rcases w.breaker.allow_cases w.now with ⟨hs, h⟩ | ⟨hs, ht, h⟩ | ⟨hs, ht, h⟩ | ⟨_, h⟩ <;> rw [h]
  · exact .pass hs
  · exact .probe hs ht
  · exact .trial hs ht
  · exact .refused

theorem move_report (w : Clocked) (o : Outcome) (generation : Nat) :
    Move w (.holding generation) ⟨w.breaker.report w.now o generation, w.now⟩ .finished := by
  by_cases hg : generation = w.breaker.generation
  · subst hg
    rcases w.breaker.report_cases w.now o with
      ⟨_, hs, h⟩ | ⟨_, hs, h⟩ | ⟨_, hs, h⟩ | ⟨_, hs, hf, h⟩ | ⟨_, h⟩ <;> rw [h]
    · exact .close hs
    · exact .reset hs
    · exact .trip hs
    · exact .count hs hf
    · exact .abort
  · rw [w.breaker.report_stale w.now o hg]
    exact .stale hg

/-- A step the monitor allows and the world answers is one of the moves. -/
theorem move_of_answers {w w' : Clocked} {q : Client} {c : (breakerI.sum J).Cmd}
    {a : Except ε ((breakerI.sum J).Ans c)} (hq : (client : Monitor _ ε _).allowed q c)
    (ha : (guarded J ε).answers w c a w') : Move w q w' (client.next q c a) := by
  cases c with
  | inr c =>
    have hw : w' = w := ha
    subst hw
    have hn : client.next q (.inr c) a = q := by cases q <;> rfl
    rw [hn]
    exact .other q
  | inl c =>
    obtain ⟨rfl, rfl⟩ := ha
    cases c with
    | allow =>
      cases q with
      | fresh =>
        have hm := move_allow w
        cases hr : (w.breaker.allow w.now).1 with
        | mk allowed generation =>
          rw [hr] at hm
          simp only [CircuitBreaker.exec, hr]
          cases allowed <;> exact hm
      | holding n => exact absurd hq id
      | finished => exact absurd hq id
    | report o generation =>
      cases q with
      | fresh => exact absurd hq id
      | holding n =>
        have hn : generation = n := hq
        subst hn
        exact move_report w o generation
      | finished => exact absurd hq id

/-! ### Reading a history -/

/-- The breaker after a step. -/
def after (s : Step (breakerI.sum J) ε ι Clocked) : CircuitBreaker :=
  match s.event.cmd with
  | .inl c => (s.before.breaker.exec s.before.now c).2
  | .inr _ => s.before.breaker

/-- The step admits its caller. -/
def admits (s : Step (breakerI.sum J) ε ι Clocked) : Bool :=
  match s.event with
  | ⟨.inl .allow, .ok (true, _)⟩ => true
  | _ => false

/-- The step is its caller's report. -/
def reports (s : Step (breakerI.sum J) ε ι Clocked) : Bool :=
  match s.event.cmd with
  | .inl (.report _ _) => true
  | _ => false

/-- The step moves the breaker to another state. -/
def transition (s : Step (breakerI.sum J) ε ι Clocked) : Bool :=
  s.before.breaker.state ≠ (after s).state

def trips (s : Step (breakerI.sum J) ε ι Clocked) : Bool :=
  transition s && ((after s).state = .opened)

def closes (s : Step (breakerI.sum J) ε ι Clocked) : Bool :=
  transition s && ((after s).state = .closed)

def transitions (h : List (Step (breakerI.sum J) ε ι Clocked)) : Nat := h.countP transition

/-- Caller `i` was admitted under `generation` and has not reported. -/
def Outstanding [DecidableEq ι] (h : List (Step (breakerI.sum J) ε ι Clocked)) (i : ι)
    (generation : Nat) : Prop :=
  watched client (fun _ => .fresh) h i = .holding generation

theorem after_of_answers {w w' : Clocked} {i : ι} {c : (breakerI.sum J).Cmd}
    {a : Except ε ((breakerI.sum J).Ans c)} (ha : (guarded J ε).answers w c a w') :
    w' = ⟨after ⟨w, i, ⟨c, a⟩⟩, w.now⟩ := by
  cases c with
  | inl c => exact ha.2
  | inr c => exact ha

/-- An admission hands a fresh caller the current generation. -/
theorem admits_step {w w' : Clocked} {q : Client} {i : ι} {c : (breakerI.sum J).Cmd}
    {a : Except ε ((breakerI.sum J).Ans c)} (hq : (client : Monitor _ ε _).allowed q c)
    (ha : (guarded J ε).answers w c a w') (hs : admits ⟨w, i, ⟨c, a⟩⟩ = true) :
    q = .fresh ∧ client.next q c a = .holding w'.breaker.generation := by
  cases c with
  | inr c => simp [admits] at hs
  | inl c =>
    cases c with
    | report o generation => simp [admits] at hs
    | allow =>
      obtain ⟨rfl, rfl⟩ := ha
      cases q with
      | holding n => exact absurd hq id
      | finished => exact absurd hq id
      | fresh =>
        refine ⟨rfl, ?_⟩
        simp only [CircuitBreaker.exec] at hs ⊢
        rcases w.breaker.allow_cases w.now with ⟨_, h⟩ | ⟨_, _, h⟩ | ⟨_, _, h⟩ | ⟨_, h⟩ <;> rw [h] at hs ⊢
        · rfl
        · rfl
        · rfl
        · simp [admits] at hs

/-- A caller that holds a generation keeps it, breaker untouched, or reports. -/
theorem holding_step {w w' : Clocked} {n : Nat} {i : ι} {c : (breakerI.sum J).Cmd}
    {a : Except ε ((breakerI.sum J).Ans c)}
    (hq : (client : Monitor _ ε _).allowed (.holding n) c) (ha : (guarded J ε).answers w c a w') :
    (client.next (.holding n) c a = .holding n ∧ w' = w) ∨
      (client.next (.holding n) c a = .finished ∧ reports ⟨w, i, ⟨c, a⟩⟩ = true) := by
  cases c with
  | inr c => exact .inl ⟨rfl, ha⟩
  | inl c =>
    cases c with
    | allow => exact absurd hq id
    | report o generation => exact .inr ⟨rfl, rfl⟩

end Relayix
