import Relayix.Core.Resilience.CircuitBreaker

/-! What the count of a breaker counts.

A history is any list of the breaker's steps, the last one first, at any times and with any
generations. While the circuit is closed its count is the streak of the history: the failures
since the last success, or since the circuit was closed. A report under a retired generation is
part of no streak, and leaves nothing behind. -/
namespace Relayix
namespace CircuitBreaker

/-- A step, at the time that it reads. -/
inductive CircuitStep where
  | allow (now : ℚ)
  | report (now : ℚ) (o : Outcome) (generation : Nat)
  deriving DecidableEq

section Steps
variable (b : CircuitBreaker)

def step : CircuitStep → CircuitBreaker
  | .allow now => (b.allow now).2
  | .report now o generation => b.report now o generation

/-- What `allow` answers. -/
def verdict : CircuitStep → Option (Bool × Nat)
  | .allow now => some (b.allow now).1
  | .report .. => none

/-- This outcome, reported under the current generation. -/
def reports (o : Outcome) : CircuitStep → Bool
  | .allow _ => false
  | .report _ o' generation => o' = o ∧ generation = b.generation

/-- A report under a retired generation. -/
def stale : CircuitStep → Bool
  | .allow _ => false
  | .report _ _ generation => generation ≠ b.generation

/-- A success, or the entry into a closed period. -/
def restarts (s : CircuitStep) : Bool :=
  b.reports .success s ∨ (b.state ≠ .closed ∧ (b.step s).state = .closed)

end Steps

section History
variable (failThreshold : Nat) (resetTimeoutS : ℚ)

/-- The breaker after these steps. -/
def after : List CircuitStep → CircuitBreaker
  | [] => new failThreshold resetTimeoutS
  | s :: earlier => (after earlier).step s

/-- The failures since the last restart. -/
def streak : List CircuitStep → Nat
  | [] => 0
  | s :: earlier =>
    if (after failThreshold resetTimeoutS earlier).restarts s then 0
    else if (after failThreshold resetTimeoutS earlier).reports .failure s then streak earlier + 1
    else streak earlier

/-- The answers of `allow`. -/
def verdicts : List CircuitStep → List (Bool × Nat)
  | [] => []
  | s :: earlier => ((after failThreshold resetTimeoutS earlier).verdict s).toList ++ verdicts earlier

/-- The steps without the stale reports. -/
def live : List CircuitStep → List CircuitStep
  | [] => []
  | s :: earlier => if (after failThreshold resetTimeoutS earlier).stale s then live earlier else s :: live earlier

end History

/-! ### One step -/

section Step
variable {b : CircuitBreaker} {s : CircuitStep}

theorem step_stale (h : b.stale s = true) : b.step s = b := by
  cases s with
  | allow now => cases h
  | report now o generation => exact report_stale b now o (of_decide_eq_true h)

/-- A closed circuit goes on counting: a success restarts it, a failure is one more and may open it,
and nothing else matters. -/
theorem step_closed (hb : b.state = .closed) :
    (b.reports .success s = true ∧ (b.step s).state = .closed ∧ (b.step s).failures = 0) ∨
    (b.reports .success s = false ∧ b.reports .failure s = true ∧ b.failures + 1 < b.failThreshold ∧
      (b.step s).state = .closed ∧ (b.step s).failures = b.failures + 1) ∨
    (b.reports .success s = false ∧ b.reports .failure s = true ∧ b.failThreshold ≤ b.failures + 1 ∧
      (b.step s).state = .opened) ∨
    (b.reports .success s = false ∧ b.reports .failure s = false ∧
      (b.step s).state = .closed ∧ (b.step s).failures = b.failures) := by
  cases s with
  | allow now =>
    have hallow : b.step (.allow now) = b := by simp only [step, allow, hb]
    rw [hallow]
    exact .inr (.inr (.inr ⟨rfl, rfl, hb, rfl⟩))
  | report now o generation =>
    by_cases hg : generation = b.generation
    · subst hg
      simp only [step, reports]
      rcases report_cases b now o with ⟨_, hs, _⟩ | ⟨rfl, _, h⟩ | ⟨rfl, hs | hs, h⟩ | ⟨rfl, _, hs, h⟩ | ⟨rfl, h⟩
      · exact absurd hb hs
      · exact .inl ⟨by simp, by rw [h]; exact hb, by rw [h]⟩
      · rw [hb] at hs
        cases hs
      · exact .inr (.inr (.inl ⟨by simp, by simp, hs, by rw [h]⟩))
      · exact .inr (.inl ⟨by simp, by simp, hs, by rw [h]; exact hb, by rw [h]⟩)
      · exact .inr (.inr (.inr ⟨by simp, by simp, by rw [h]; exact hb, by rw [h]⟩))
    · have hstale : b.step (.report now o generation) = b := report_stale b now o hg
      rw [hstale]
      exact .inr (.inr (.inr ⟨by simp [reports, hg], by simp [reports, hg], hb, rfl⟩))

/-- A circuit that is not closed is closed by a success only, with no failures counted. -/
theorem step_closing (hb : b.state ≠ .closed) (h : (b.step s).state = .closed) : (b.step s).failures = 0 := by
  cases s with
  | allow now =>
    rw [step] at h
    rcases allow_cases b now with ⟨hs, _⟩ | ⟨_, _, hallow⟩ | ⟨_, _, hallow⟩ | ⟨_, hallow⟩
    · exact absurd hs hb
    · rw [hallow] at h
      cases h
    · rw [hallow] at h
      exact absurd h hb
    · rw [hallow] at h
      exact absurd h hb
  | report now o generation =>
    by_cases hg : generation = b.generation
    · subst hg
      rw [step] at h ⊢
      rcases report_cases b now o with ⟨_, _, hr⟩ | ⟨_, hs, _⟩ | ⟨_, _, hr⟩ | ⟨_, _, _, hr⟩ | ⟨_, hr⟩
      · rw [hr]
      · exact absurd hs hb
      · rw [hr] at h
        cases h
      · rw [hr] at h
        exact absurd h hb
      · rw [hr] at h
        exact absurd h hb
    · have hstale : b.step (.report now o generation) = b := report_stale b now o hg
      rw [hstale] at h
      exact absurd h hb

/-- A closed circuit is restarted by a success only. -/
theorem restarts_closed (hb : b.state = .closed) : b.restarts s = b.reports .success s := by
  simp [restarts, hb]

theorem not_failure_of_success (h : b.reports .success s = true) : b.reports .failure s = false := by
  cases s with
  | allow now => rfl
  | report now o generation =>
    obtain ⟨rfl, _⟩ := of_decide_eq_true h
    rfl

theorem step_failThreshold : (b.step s).failThreshold = b.failThreshold := by
  cases s with
  | allow now =>
    rw [step]
    rcases allow_cases b now with ⟨_, h⟩ | ⟨_, _, h⟩ | ⟨_, _, h⟩ | ⟨_, h⟩
    · rw [h]
    · rw [h]
      rfl
    · rw [h]
    · rw [h]
  | report now o generation =>
    by_cases hg : generation = b.generation
    · subst hg
      rcases report_cases b now o with ⟨_, _, h⟩ | ⟨_, _, h⟩ | ⟨_, _, h⟩ | ⟨_, _, _, h⟩ | ⟨_, h⟩ <;> rw [step, h]
    · rw [step, report_stale b now o hg]

end Step

/-! ### Every history -/

section Histories
variable {failThreshold : Nat} {resetTimeoutS : ℚ}

theorem after_failThreshold (steps : List CircuitStep) : (after failThreshold resetTimeoutS steps).failThreshold = failThreshold := by
  induction steps with
  | nil => rfl
  | cons s earlier ih => exact step_failThreshold.trans ih

/-- While the circuit is closed, its count is the streak, and below the threshold. -/
theorem closed_streak (h : 1 ≤ failThreshold) (steps : List CircuitStep)
    (hclosed : (after failThreshold resetTimeoutS steps).state = .closed) :
    (after failThreshold resetTimeoutS steps).failures = streak failThreshold resetTimeoutS steps ∧
      streak failThreshold resetTimeoutS steps < failThreshold := by
  induction steps with
  | nil => exact ⟨rfl, h⟩
  | cons s earlier ih =>
    rw [after] at hclosed ⊢
    rw [streak]
    by_cases hb : (after failThreshold resetTimeoutS earlier).state = .closed
    · obtain ⟨hcount, hbelow⟩ := ih hb
      rw [restarts_closed hb]
      rcases step_closed (s := s) hb with ⟨hsuccess, _, hf⟩ | ⟨hsuccess, hfailure, hlt, _, hf⟩ | ⟨_, _, _, hopened⟩ | ⟨hsuccess, hfailure, _, hf⟩
      · rw [if_pos hsuccess, hf]
        exact ⟨rfl, h⟩
      · rw [hsuccess, hfailure, hf, hcount]
        rw [after_failThreshold, hcount] at hlt
        exact ⟨rfl, hlt⟩
      · rw [hopened] at hclosed
        cases hclosed
      · rw [hsuccess, hfailure, hf, hcount]
        exact ⟨rfl, hbelow⟩
    · -- the step closed the circuit
      have hrestarts : (after failThreshold resetTimeoutS earlier).restarts s = true :=
        decide_eq_true (.inr ⟨hb, hclosed⟩)
      rw [if_pos hrestarts, step_closing hb hclosed]
      exact ⟨rfl, h⟩

/-- The circuit opens at the failure that makes the streak reach the threshold, and at no other step. -/
theorem opens_iff (h : 1 ≤ failThreshold) (s : CircuitStep) (earlier : List CircuitStep)
    (hclosed : (after failThreshold resetTimeoutS earlier).state = .closed) :
    (after failThreshold resetTimeoutS (s :: earlier)).state ≠ .closed ↔
      (after failThreshold resetTimeoutS earlier).reports .failure s = true ∧
        streak failThreshold resetTimeoutS earlier + 1 = failThreshold := by
  obtain ⟨hcount, hbelow⟩ := closed_streak h earlier hclosed
  rw [after]
  rcases step_closed (s := s) hclosed with ⟨hsuccess, hs, _⟩ | ⟨_, hfailure, hlt, hs, _⟩ | ⟨_, hfailure, hle, hs⟩ | ⟨_, hfailure, hs, _⟩
  · have hfailure := not_failure_of_success hsuccess
    simp [hs, hfailure]
  · rw [after_failThreshold, hcount] at hlt
    simp [hs, hlt.ne]
  · rw [after_failThreshold, hcount] at hle
    have hreached : streak failThreshold resetTimeoutS earlier + 1 = failThreshold := by omega
    simp [hs, hfailure, hreached]
  · simp [hs, hfailure]

/-- Without its stale reports, a history leaves the same breaker. -/
theorem after_live (steps : List CircuitStep) :
    after failThreshold resetTimeoutS (live failThreshold resetTimeoutS steps) = after failThreshold resetTimeoutS steps := by
  induction steps with
  | nil => rfl
  | cons s earlier ih =>
    rw [live]
    by_cases hs : (after failThreshold resetTimeoutS earlier).stale s = true
    · rw [if_pos hs, ih, after, step_stale hs]
    · rw [if_neg hs, after, after, ih]

/-- And its answers are the same. -/
theorem verdicts_live (steps : List CircuitStep) :
    verdicts failThreshold resetTimeoutS (live failThreshold resetTimeoutS steps) =
      verdicts failThreshold resetTimeoutS steps := by
  induction steps with
  | nil => rfl
  | cons s earlier ih =>
    rw [live]
    by_cases hs : (after failThreshold resetTimeoutS earlier).stale s = true
    · rw [if_pos hs, ih, verdicts]
      cases s with
      | allow now => cases hs
      | report now o generation => rfl
    · rw [if_neg hs, verdicts, verdicts, ih, after_live]

end Histories

/-- The circuit trips exactly on consecutive failures: while it is closed its count is the streak and
below the threshold, it opens at the failure that brings the streak to the threshold, and the reports
of calls from before the last change of state make no difference. -/
theorem trips_on_consecutive_failures {failThreshold : Nat} (h : 1 ≤ failThreshold) (resetTimeoutS : ℚ) :
    (∀ steps, (after failThreshold resetTimeoutS steps).state = .closed →
      (after failThreshold resetTimeoutS steps).failures = streak failThreshold resetTimeoutS steps ∧
        streak failThreshold resetTimeoutS steps < failThreshold) ∧
    (∀ s earlier, (after failThreshold resetTimeoutS earlier).state = .closed →
      ((after failThreshold resetTimeoutS (s :: earlier)).state ≠ .closed ↔
        (after failThreshold resetTimeoutS earlier).reports .failure s = true ∧
          streak failThreshold resetTimeoutS earlier + 1 = failThreshold)) ∧
    (∀ steps,
      after failThreshold resetTimeoutS (live failThreshold resetTimeoutS steps) = after failThreshold resetTimeoutS steps ∧
      verdicts failThreshold resetTimeoutS (live failThreshold resetTimeoutS steps) =
        verdicts failThreshold resetTimeoutS steps) :=
  ⟨closed_streak h, opens_iff h, fun steps => ⟨after_live steps, verdicts_live steps⟩⟩

/-- A failure that a success made good, another failure, and a stale one. -/
def twice : List CircuitStep :=
  [.report 3 .failure 7, .report 2 .failure 0, .report 1 .success 0, .report 0 .failure 0]

theorem trips_on_two :
    (after 2 30 twice).failures = streak 2 30 twice ∧ (after 2 30 (.report 4 .failure 0 :: twice)).state ≠ .closed ∧
      after 2 30 (live 2 30 twice) = after 2 30 twice := by
  have hclosed : (after 2 30 twice).state = .closed := by decide
  refine ⟨((trips_on_consecutive_failures (by decide) 30).1 twice hclosed).1, ?_,
    ((trips_on_consecutive_failures (by decide) 30).2.2 twice).1⟩
  exact ((trips_on_consecutive_failures (by decide) 30).2.1 _ twice hclosed).mpr ⟨by decide, by decide⟩

end CircuitBreaker
end Relayix
