import Mathlib.Algebra.Order.Ring.Rat
import Mathlib.Tactic.Linarith
import Relayix.Library.Program

/-! The per-provider failure gate (`core/resilience/circuit_breaker.py`).

Every method runs under the breaker's own lock and never suspends while holding it,
so each is one atomic step: a function of the breaker and, where the source reads
`time.monotonic()`, of the time. Clock readings are exact rationals. -/
namespace Relayix

inductive CircuitState where
  | closed
  | opened
  | halfOpen
  deriving DecidableEq, Repr

structure CircuitBreaker where
  failThreshold : Nat
  resetTimeoutS : ℚ
  state : CircuitState
  failures : Nat
  openedAt : ℚ
  trialInFlight : Bool
  generation : Nat
  deriving DecidableEq, Repr

/-- How an admitted call reports: `record_success`, `record_failure`, `record_abort`. -/
inductive Outcome where
  | success
  | failure
  | abort
  deriving DecidableEq, Repr

namespace CircuitBreaker

/-- `__init__` -/
def new (failThreshold : Nat) (resetTimeoutS : ℚ) : CircuitBreaker :=
  ⟨failThreshold, resetTimeoutS, .closed, 0, 0, false, 0⟩

/-- Move to `s` and retire the current generation. -/
def enter (b : CircuitBreaker) (s : CircuitState) : CircuitBreaker :=
  { b with state := s, generation := b.generation + 1 }

/-- `(allowed, generation)`, and the breaker afterwards. -/
def allow (now : ℚ) (b : CircuitBreaker) : (Bool × Nat) × CircuitBreaker :=
  match b.state with
  | .closed => ((true, b.generation), b)
  | .opened =>
    if b.resetTimeoutS ≤ now - b.openedAt then
      let b := { b.enter .halfOpen with trialInFlight := true }
      ((true, b.generation), b)
    else ((false, b.generation), b)
  | .halfOpen =>
    -- exactly one trial while it is outstanding
    if !b.trialInFlight then ((true, b.generation), { b with trialInFlight := true })
    else ((false, b.generation), b)

def recordSuccess (generation : Nat) (b : CircuitBreaker) : CircuitBreaker :=
  if generation ≠ b.generation then b
  else
    let b := { b with failures := 0, trialInFlight := false }
    if b.state ≠ .closed then b.enter .closed else b

def recordFailure (now : ℚ) (generation : Nat) (b : CircuitBreaker) : CircuitBreaker :=
  if generation ≠ b.generation then b
  else
    let b := { b with failures := b.failures + 1, trialInFlight := false }
    if b.state = .halfOpen ∨ b.failThreshold ≤ b.failures then
      { b.enter .opened with openedAt := now }
    else b

/-- Release an in-flight trial without recording success or failure. -/
def recordAbort (generation : Nat) (b : CircuitBreaker) : CircuitBreaker :=
  if generation ≠ b.generation then b else { b with trialInFlight := false }

def report (now : ℚ) (o : Outcome) (generation : Nat) (b : CircuitBreaker) : CircuitBreaker :=
  match o with
  | .success => b.recordSuccess generation
  | .failure => b.recordFailure now generation
  | .abort => b.recordAbort generation

/-! ### What one step can do -/

variable (b : CircuitBreaker) (now : ℚ)

/-- The four ways `allow` ends. -/
theorem allow_cases :
    (b.state = .closed ∧ b.allow now = ((true, b.generation), b)) ∨
    (b.state = .opened ∧ b.resetTimeoutS ≤ now - b.openedAt ∧
      b.allow now = ((true, b.generation + 1), { b.enter .halfOpen with trialInFlight := true })) ∨
    (b.state = .halfOpen ∧ b.trialInFlight = false ∧
      b.allow now = ((true, b.generation), { b with trialInFlight := true })) ∨
    ((b.state = .opened ∧ now - b.openedAt < b.resetTimeoutS ∨
        b.state = .halfOpen ∧ b.trialInFlight = true) ∧
      b.allow now = ((false, b.generation), b)) := by
  cases hs : b.state with
  | closed => exact .inl ⟨rfl, by simp [allow, hs]⟩
  | opened =>
    by_cases ht : b.resetTimeoutS ≤ now - b.openedAt
    · exact .inr (.inl ⟨rfl, ht, by simp [allow, hs, ht, enter]⟩)
    · exact .inr (.inr (.inr ⟨.inl ⟨rfl, lt_of_not_ge ht⟩, by simp [allow, hs, ht]⟩))
  | halfOpen =>
    cases ht : b.trialInFlight with
    | false => exact .inr (.inr (.inl ⟨rfl, rfl, by simp [allow, hs, ht]⟩))
    | true => exact .inr (.inr (.inr ⟨.inr ⟨rfl, rfl⟩, by simp [allow, hs, ht]⟩))

/-- A report under a retired generation changes nothing. -/
theorem report_stale (o : Outcome) {generation : Nat} (h : generation ≠ b.generation) :
    b.report now o generation = b := by
  cases o <;> simp [report, recordSuccess, recordFailure, recordAbort, h]

/-- The ways a report under the current generation ends. -/
theorem report_cases (o : Outcome) :
    (o = .success ∧ b.state ≠ .closed ∧ b.report now o b.generation =
      { b with state := .closed, failures := 0, trialInFlight := false,
               generation := b.generation + 1 }) ∨
    (o = .success ∧ b.state = .closed ∧
      b.report now o b.generation = { b with failures := 0, trialInFlight := false }) ∨
    (o = .failure ∧ (b.state = .halfOpen ∨ b.failThreshold ≤ b.failures + 1) ∧
      b.report now o b.generation =
        { b with state := .opened, failures := b.failures + 1, trialInFlight := false,
                 generation := b.generation + 1, openedAt := now }) ∨
    (o = .failure ∧ b.state ≠ .halfOpen ∧ b.failures + 1 < b.failThreshold ∧
      b.report now o b.generation =
        { b with failures := b.failures + 1, trialInFlight := false }) ∨
    (o = .abort ∧ b.report now o b.generation = { b with trialInFlight := false }) := by
  cases o with
  | success =>
    by_cases hs : b.state = .closed
    · exact .inr (.inl ⟨rfl, hs, by simp [report, recordSuccess, hs]⟩)
    · exact .inl ⟨rfl, hs, by simp [report, recordSuccess, hs, enter]⟩
  | failure =>
    by_cases hc : b.state = .halfOpen ∨ b.failThreshold ≤ b.failures + 1
    · exact .inr (.inr (.inl ⟨rfl, hc, by simp [report, recordFailure, hc, enter]⟩))
    · obtain ⟨hs, hf⟩ := not_or.mp hc
      exact .inr (.inr (.inr (.inl ⟨rfl, hs, by omega, by simp [report, recordFailure, hs, hf]⟩)))
  | abort => exact .inr (.inr (.inr (.inr ⟨rfl, by simp [report, recordAbort]⟩)))

/-- Whatever is reported under the current generation, no trial is in flight afterwards. -/
theorem report_frees (o : Outcome) : (b.report now o b.generation).trialInFlight = false := by
  rcases report_cases b now o with ⟨_, _, h⟩ | ⟨_, _, h⟩ | ⟨_, _, h⟩ | ⟨_, _, _, h⟩ | ⟨_, h⟩ <;> rw [h]

end CircuitBreaker
end Relayix
