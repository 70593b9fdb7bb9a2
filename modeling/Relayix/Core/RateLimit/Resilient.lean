import Relayix.Core.Exceptions
import Relayix.Core.Resilience.CallersRecovery

/-! The rate limiter and its breaker (`core/ratelimit/resilient.py`).

A check asks the breaker, then Redis, and falls back to the in-memory limiter when
Redis is unavailable or the breaker is open. Its handlers name two exceptions of the
primary; any other one, cancellation included, leaves the check without a report.
`Recovers` is what the breaker then still owes the limiter, and it holds of every
run in which that never happens to the trial of a half-open breaker. -/
namespace Relayix
open Library

inductive LimiterCmd where
  | primary (key : UUID) (rpm : Nat)
  | fallback (key : UUID) (rpm : Nat)
  deriving DecidableEq

@[reducible] def limiterI : Interface := ⟨LimiterCmd, fun _ => Unit⟩

namespace ResilientRateLimiter

def limiter (c : LimiterCmd) : Prog (breakerI.sum limiterI) Exn Unit :=
  @Prog.perform (breakerI.sum limiterI) Exn (.inr c)

/-- The handlers around the primary. -/
def failed (key : UUID) (rpm generation : Nat) (e : Exn) : Prog (breakerI.sum limiterI) Exn Unit :=
  if e.isRateLimitExceeded then do
    report .success generation
    .raise e
  else if e.isRateLimiterUnavailable then do
    report .failure generation
    limiter (.fallback key rpm)
  else .raise e

def check (key : UUID) (rpm : Nat) : Prog (breakerI.sum limiterI) Exn Unit := do
  let (allowed, generation) ← allow
  if allowed then
    match ← (limiter (.primary key rpm)).attempt with
    | .ok () => report .success generation -- redis allowed the request
    | .error e => failed key rpm generation e
  else limiter (.fallback key rpm)

/-- Neither of the two exceptions that `check` handles. -/
def unhandled (e : Exn) : Bool := !e.isRateLimitExceeded && !e.isRateLimiterUnavailable

/-! ### One check -/

theorem report_obeys {x : Outcome} {generation : Nat} :
    (report x generation : Prog (breakerI.sum limiterI) Exn Unit).Obeys client (fun _ _ => True)
      (.holding generation) :=
  Prog.Obeys.perform rfl fun _ _ => trivial

theorem limiter_obeys (c : LimiterCmd) (s : Client) :
    (limiter c).Obeys client (fun _ _ => True) s := by
  refine Prog.Obeys.perform ?_ fun _ _ => trivial
  cases s <;> trivial

theorem failed_obeys (key : UUID) (rpm generation : Nat) (e : Exn) :
    (failed key rpm generation e).Obeys client (fun _ _ => True) (.holding generation) := by
  unfold failed
  split
  · exact report_obeys.bind (fun _ _ _ => trivial) (fun _ _ _ => trivial)
  · split
    · exact report_obeys.bind (fun _ s _ => limiter_obeys _ s) (fun _ _ _ => trivial)
    · trivial

/-- A check is a client of its breaker. -/
theorem check_obeys (key : UUID) (rpm : Nat) :
    (check key rpm).Obeys client (fun _ _ => True) .fresh := by
  refine ⟨trivial, fun a ha => ?_⟩
  obtain ⟨⟨allowed, generation⟩, rfl⟩ := ha
  cases allowed with
  | false => exact limiter_obeys _ _
  | true =>
    refine ⟨trivial, fun a _ => ?_⟩
    cases a with
    | ok _ => exact report_obeys
    | error e => exact failed_obeys key rpm generation e

/-- An admitted check consults the primary next. -/
theorem check_admitted (key : UUID) (rpm generation : Nat) :
    ∃ k, Reaches (check key rpm) [⟨.inl .allow, .ok (true, generation)⟩]
      (.await (.inr (.primary key rpm)) k) :=
  ⟨_, .step _ (.refl _)⟩

/-- The handlers report first, or raise an exception they do not handle. -/
theorem failed_ends {key : UUID} {rpm generation : Nat} {e : Exn}
    {t : Trace (breakerI.sum limiterI) Exn} {o : Except Exn Unit}
    (h : Ends (failed key rpm generation e) t o) :
    standing (.holding generation) (lefts t) = .finished ∨ (unhandled e = true ∧ t = []) := by
  unfold failed at h
  split at h
  · left
    rcases ends_perform_bind.mp h with ⟨_, rest, rfl, hr⟩ | ⟨_, rfl, _⟩
    · obtain ⟨rfl, _⟩ := ends_raise.mp hr
      rfl
    · rfl
  · split at h
    · left
      rcases ends_perform_bind.mp h with ⟨_, rest, rfl, hr⟩ | ⟨_, rfl, _⟩
      · rw [ends_perform.mp hr]
        rfl
      · rfl
    · obtain ⟨rfl, _⟩ := ends_raise.mp h
      exact .inr ⟨by simp [unhandled, *], rfl⟩

/-- A check that ended owes no report, unless its primary ended in an exception that
`check` does not handle. -/
theorem check_ends {key : UUID} {rpm : Nat} {t : Trace (breakerI.sum limiterI) Exn}
    {o : Except Exn Unit} (h : Ends (check key rpm) t o) (hs : Steady (lefts t)) :
    standing .fresh (lefts t) = .finished ∨
      ∃ generation e, unhandled e = true ∧
        t = [⟨.inl .allow, .ok (true, generation)⟩, ⟨.inr (.primary key rpm), .error e⟩] := by
  rcases ends_bind.mp h with ⟨⟨allowed, generation⟩, t₁, t₂, rfl, ha, hb⟩ | ⟨e, _, ha⟩
  · obtain rfl := ends_perform.mp ha
    cases allowed with
    | false =>
      left
      rw [ends_perform.mp hb]
      rfl
    | true =>
      obtain ⟨r, u₁, u₂, rfl, hp, hu⟩ := ends_attempt_bind.mp hb
      obtain rfl := ends_perform.mp hp
      cases r with
      | ok _ =>
        left
        rw [ends_perform.mp hu]
        rfl
      | error e =>
        rcases failed_ends hu with hf | ⟨hun, rfl⟩
        · exact .inl hf
        · exact .inr ⟨generation, e, hun, rfl⟩
  · obtain rfl := ends_perform.mp ha
    obtain ⟨r, hr⟩ := hs _ List.mem_cons_self
    cases hr

/-! ### Every run -/

section Runs
variable {ι : Type} [DecidableEq ι] {key : ι → UUID} {rpm : ι → Nat} {failThreshold : Nat}
  {resetTimeoutS now : ℚ} {h : History limiterI Exn ι} {p : Pool (breakerI.sum limiterI) Exn ι Clocked}

/-- The checks of one process, on a new breaker. -/
abbrev checks (failThreshold : Nat) (resetTimeoutS now : ℚ) (key : ι → UUID) (rpm : ι → Nat) :
    Pool (breakerI.sum limiterI) Exn ι Clocked :=
  ⟨⟨.new failThreshold resetTimeoutS, now⟩, fun i => check (key i) (rpm i)⟩

/-- The step ends the trial of a half-open breaker without a report. -/
def Leaks (pre : History limiterI Exn ι) (s : Step (breakerI.sum limiterI) Exn ι Clocked) : Prop :=
  (∃ key rpm e, unhandled e = true ∧ s.event = ⟨.inr (.primary key rpm), .error e⟩) ∧
    s.before.breaker.state = .halfOpen ∧ Outstanding pre s.thread s.before.breaker.generation

/-- The check has begun and has not ended. -/
def InFlight (h : History limiterI Exn ι) (p : Pool (breakerI.sum limiterI) Exn ι Clocked) (i : ι) :
    Prop :=
  log i h ≠ [] ∧ ∀ o, p.threads i ≠ .ofExcept o

omit [DecidableEq ι] in
/-- A generation that is over, or not of a half-open breaker, stays so. -/
theorem retired_move {w w' : Clocked} {q r : Client} {n : Nat} (hm : Move w q w' r)
    (hn : n < w.breaker.generation ∨ (n = w.breaker.generation ∧ w.breaker.state ≠ .halfOpen)) :
    n < w'.breaker.generation ∨ (n = w'.breaker.generation ∧ w'.breaker.state ≠ .halfOpen) := by
  cases hm with
  | probe _ _ => exact .inl (by simp only [CircuitBreaker.enter]; omega)
  | close _ => exact .inl (by simp only; omega)
  | trip _ => exact .inl (by simp only; omega)
  | _ => exact hn

/-- What an ended check still holds is no slot. -/
theorem ended_retired (hr : Run (guarded limiterI Exn) (checks failThreshold resetTimeoutS now key rpm) h p)
    (hok : ∀ pre s post, h = pre ++ s :: post → ¬ Leaks pre s) {i : ι} {n : Nat} {o : Except Exn Unit}
    (ho : p.threads i = .ofExcept o) (hq : callers h i = .holding n) :
    n < p.world.breaker.generation ∨
      (n = p.world.breaker.generation ∧ p.world.breaker.state ≠ .halfOpen) := by
  induction hr with
  | start => cases o <;> cases ho
  | elapse hr he ih =>
    have hb := he.2
    rw [hb]
    exact ih hok ho hq
  | @command h p j c k a w hr hk ha ih =>
    have hob := hr.obeys guarded_meets (fun i => check_obeys (key i) (rpm i)) j
    rw [hk] at hob
    have hm := move_of_answers hob.1 ha
    by_cases hij : i = j
    · subst hij
      have hr' := hr.command hk ha
      have hq' : client.run .fresh (log i (h ++ [⟨p.world, i, ⟨c, a⟩⟩])) = .holding n := hq
      rcases check_ends (hr'.ends ho) (steady_of_expected (hr'.expected guarded_meets i)) with
        hs | ⟨generation, e, hun, ht⟩
      · rw [client_run, hs] at hq'
        cases hq'
      · -- the last thing this check did was to see its primary fail, unhandled
        rw [ht] at hq'
        obtain rfl : generation = n := by
          cases hq'
          rfl
        rw [log_snoc_self h ⟨p.world, i, ⟨c, a⟩⟩] at ht
        have hsplit : log i h ++ [⟨c, a⟩] = [⟨.inl .allow, .ok (true, generation)⟩] ++
            [⟨.inr (.primary (key i) (rpm i)), .error e⟩] := ht
        obtain ⟨hlog, hev⟩ := List.append_inj' hsplit rfl
        have hheld : callers h i = .holding generation := by
          show client.run .fresh (log i h) = _
          rw [hlog]
          rfl
        have hlast := List.singleton_inj.mp hev
        cases hlast
        have hw : w = p.world := ha
        rw [hw]
        have hbound := (ledger_run (fun i => check_obeys (key i) (rpm i)) hr).consistent.bound i _ hheld
        rcases Nat.lt_or_eq_of_le hbound with hlt | heq
        · exact .inl hlt
        · refine .inr ⟨heq, fun hs => hok h _ [] rfl ⟨⟨_, _, e, hun, rfl⟩, hs, ?_⟩⟩
          show callers h i = _
          rw [hheld, heq]
    · have hthread : Function.update p.threads j (k a) i = .ofExcept o := ho
      rw [Function.update_of_ne hij] at hthread
      have hcaller : watched client (fun _ => .fresh) (h ++ [⟨p.world, j, ⟨c, a⟩⟩]) i = .holding n := hq
      rw [watched_snoc, Function.update_of_ne hij] at hcaller
      exact retired_move hm
        (ih (fun pre s post he => hok pre s (post ++ [⟨p.world, j, ⟨c, a⟩⟩]) (by simp [he]))
          hthread hcaller)

/-- A trial in flight is a check in flight. -/
theorem trial_in_flight
    (hr : Run (guarded limiterI Exn) (checks failThreshold resetTimeoutS now key rpm) h p)
    (hok : ∀ pre s post, h = pre ++ s :: post → ¬ Leaks pre s)
    (ht : p.world.breaker.trialInFlight = true) :
    ∃ i, InFlight h p i ∧ Outstanding h i p.world.breaker.generation := by
  have hl := ledger_run (fun i => check_obeys (key i) (rpm i)) hr
  obtain ⟨hs, i, hi⟩ := hl.consistent.trial.mp ht
  have hbegun : log i h ≠ [] := by
    intro he
    have hfresh : client.run .fresh (log i h) = .holding p.world.breaker.generation := hi
    rw [he] at hfresh
    cases hfresh
  refine ⟨i, ⟨hbegun, fun o ho => ?_⟩, hi⟩
  rcases ended_retired hr hok ho hi with hlt | ⟨_, hne⟩
  · exact Nat.lt_irrefl _ hlt
  · exact hne hs

/-- **The limiter is never confined to its fallback**, in a run in which no trial of a
half-open breaker is left without a report: a trial in flight is a check in flight,
and when no check is, the next one after the timeout consults the primary. -/
theorem limiter_recovers
    (hr : Run (guarded limiterI Exn) (checks failThreshold resetTimeoutS now key rpm) h p)
    (hok : ∀ pre s post, h = pre ++ s :: post → ¬ Leaks pre s) :
    (p.world.breaker.trialInFlight = true →
      ∃ i, InFlight h p i ∧ Outstanding h i p.world.breaker.generation) ∧
    ((∀ i, ¬ InFlight h p i) → p.world.breaker.trialInFlight = false ∧
      ∀ later, (∀ s ∈ h, trips s = true → s.before.now + resetTimeoutS ≤ later) →
        ∀ key rpm, ∃ k, Reaches (check key rpm)
          [⟨.inl .allow, .ok (p.world.breaker.allow later).1⟩] (.await (.inr (.primary key rpm)) k)) := by
  refine ⟨trial_in_flight hr hok, fun hidle => ?_⟩
  have ht : p.world.breaker.trialInFlight = false := by
    refine Bool.eq_false_iff.mpr fun htrial => ?_
    obtain ⟨i, hi, _⟩ := trial_in_flight hr hok htrial
    exact hidle i hi
  refine ⟨ht, fun later hlater key' rpm' => ?_⟩
  have hadmit := (ledger_run (fun i => check_obeys (key i) (rpm i)) hr).admits ht hlater
  cases hr : (p.world.breaker.allow later).1 with
  | mk allowed generation =>
    rw [hr] at hadmit
    obtain rfl : allowed = true := hadmit
    exact check_admitted key' rpm' generation

end Runs

/-- Threshold one: Redis fails once, and once the timeout is over the next check is the
trial, in flight. -/
theorem limiter_recovers_trial :
    ∃ (h : History limiterI Exn Bool) (p : Pool (breakerI.sum limiterI) Exn Bool Clocked),
      p.world.breaker.state = .halfOpen ∧
      ∃ i, InFlight h p i ∧ Outstanding h i p.world.breaker.generation := by
  have r₀ : Run (guarded limiterI Exn)
      (checks 1 10 0 (fun _ : Bool => ⟨7⟩) (fun _ => 60)) [] _ := .start
  have r₁ := r₀.answer false rfl (.ok (true, 0)) ⟨.new 1 10, 0⟩ ⟨rfl, rfl⟩
  have r₂ := r₁.answer false rfl (.error (.rateLimiterUnavailable "")) ⟨.new 1 10, 0⟩ rfl
  have r₃ := r₂.answer false rfl (.ok ()) ⟨⟨1, 10, .opened, 1, 0, false, 1⟩, 0⟩ ⟨rfl, rfl⟩
  have r₄ := r₃.wait ⟨⟨1, 10, .opened, 1, 0, false, 1⟩, 10⟩ ⟨by norm_num, rfl⟩
  have probe : (⟨1, 10, .opened, 1, 0, false, 1⟩ : CircuitBreaker).allow 10 =
      ((true, 2), ⟨1, 10, .halfOpen, 1, 0, true, 2⟩) := by decide +kernel
  have r₅ := r₄.answer true rfl _ _ (guarded_allow probe)
  refine ⟨_, _, rfl, (limiter_recovers r₅ fun pre s post he hleak => ?_).1 rfl⟩
  obtain ⟨⟨key, rpm, e, hun, hev⟩, _⟩ := hleak
  have hmem : s ∈ pre ++ s :: post := by simp
  rw [← he] at hmem
  simp only [List.nil_append, List.cons_append, List.mem_cons, List.not_mem_nil, or_false] at hmem
  rcases hmem with rfl | rfl | rfl | rfl
  · cases hev
  · cases hev
    cases hun
  · cases hev
  · cases hev

/-- Threshold one. Redis fails, and once the timeout is over the check that is the trial
is cancelled while it awaits Redis: no check is in flight, and every later one goes to
the fallback. -/
theorem limiter_confined :
    ∃ (h : History limiterI Exn Bool) (p : Pool (breakerI.sum limiterI) Exn Bool Clocked),
      Run (guarded limiterI Exn) (checks 1 10 0 (fun _ => ⟨7⟩) (fun _ => 60)) h p ∧
      (∀ i, ¬ InFlight h p i) ∧ p.world.breaker.trialInFlight = true ∧
      ∀ later, (p.world.breaker.allow later).1.1 = false := by
  have r₀ : Run (guarded limiterI Exn)
      (checks 1 10 0 (fun _ : Bool => ⟨7⟩) (fun _ => 60)) [] _ := .start
  have r₁ := r₀.answer false rfl (.ok (true, 0)) ⟨.new 1 10, 0⟩ ⟨rfl, rfl⟩
  have r₂ := r₁.answer false rfl (.error (.rateLimiterUnavailable "")) ⟨.new 1 10, 0⟩ rfl
  have r₃ := r₂.answer false rfl (.ok ()) ⟨⟨1, 10, .opened, 1, 0, false, 1⟩, 0⟩ ⟨rfl, rfl⟩
  have r₄ := r₃.answer false rfl (.ok ()) ⟨⟨1, 10, .opened, 1, 0, false, 1⟩, 0⟩ rfl
  have r₅ := r₄.wait ⟨⟨1, 10, .opened, 1, 0, false, 1⟩, 10⟩ ⟨by norm_num, rfl⟩
  have probe : (⟨1, 10, .opened, 1, 0, false, 1⟩ : CircuitBreaker).allow 10 =
      ((true, 2), ⟨1, 10, .halfOpen, 1, 0, true, 2⟩) := by decide +kernel
  have r₆ := r₅.answer true rfl _ _ (guarded_allow probe)
  have r₇ := r₆.answer true rfl (.error .cancelledError) ⟨⟨1, 10, .halfOpen, 1, 0, true, 2⟩, 10⟩ rfl
  refine ⟨_, _, r₇, fun i hi => ?_, rfl, fun later => rfl⟩
  cases i with
  | false => exact hi.2 (.ok ()) rfl
  | true => exact hi.2 (.error .cancelledError) rfl

end ResilientRateLimiter
end Relayix
