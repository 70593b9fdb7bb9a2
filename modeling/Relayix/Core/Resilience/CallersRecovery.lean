import Relayix.Core.Resilience.CallersSafety

/-! Nobody is locked out for good.

Without a trial in flight, a breaker admits as soon as its timeout is over, and what it waits for
is the last trip: a straggler's report moves nothing. When every admitted call has reported there
is no trial in flight. -/
namespace Relayix
open Library

variable {J : Interface} {ε ι : Type}

/-- At this time, the timeout of the last trip is over. -/
def Cooled (resetTimeoutS : ℚ) (h : History J ε ι) (later : ℚ) : Prop :=
  ∀ pre trip mid, h = pre ++ trip :: mid → trips trip = true → (∀ m ∈ mid, trips m = false) →
    trip.before.now + resetTimeoutS ≤ later

/-- It refuses before the timeout of a trip is over, or beside a trial. -/
theorem Ledger.refuses {r later : ℚ} {h : History J ε ι} {w : Clocked} {q : ι → Client} (hl : Ledger r h w q)
    (ha : (w.breaker.allow later).1.1 = false) :
    ∃ trip ∈ h, trips trip = true ∧ (later < trip.before.now + r ∨ w.breaker.trialInFlight = true) := by
  rcases w.breaker.allow_cases later with ⟨_, h⟩ | ⟨_, _, h⟩ | ⟨_, _, h⟩ | ⟨⟨hs, hearly⟩ | ⟨hs, htrial⟩, _⟩
  · rw [h] at ha
    cases ha
  · rw [h] at ha
    cases ha
  · rw [h] at ha
    cases ha
  · obtain ⟨trip, hmem, htrip, hdate⟩ := hl.dated (by rw [hs]; decide)
    refine ⟨trip, hmem, htrip, .inl ?_⟩
    rw [hdate, ← hl.timeout]
    linarith
  · obtain ⟨trip, hmem, htrip, _⟩ := hl.dated (by rw [hs]; decide)
    exact ⟨trip, hmem, htrip, .inr htrial⟩

/-- Without a trial, and with the timeout of every trip over, the breaker admits. -/
theorem Ledger.admits {r later : ℚ} {h : History J ε ι} {w : Clocked} {q : ι → Client} (hl : Ledger r h w q)
    (ht : w.breaker.trialInFlight = false)
    (hlater : ∀ s ∈ h, trips s = true → s.before.now + r ≤ later) :
    (w.breaker.allow later).1.1 = true := by
  by_contra hrefused
  obtain ⟨trip, hmem, htrip, hearly | htrial⟩ := hl.refuses (Bool.eq_false_iff.mpr hrefused)
  · have hover := hlater trip hmem htrip
    linarith
  · rw [ht] at htrial
    cases htrial

/-- The success of a call that was just admitted closes the circuit. -/
theorem CircuitBreaker.recordSuccess_of_allow {b b' : CircuitBreaker} {later : ℚ} {generation : Nat}
    (h : b.allow later = ((true, generation), b')) :
    (b'.recordSuccess generation).state = .closed ∧ (b'.recordSuccess generation).failures = 0 := by
  have hg : generation = b'.generation := by
    rcases b.allow_cases later with ⟨_, ha⟩ | ⟨_, _, ha⟩ | ⟨_, _, ha⟩ | ⟨_, ha⟩ <;> rw [ha] at h <;> cases h <;> rfl
  subst hg
  have hreport : b'.recordSuccess b'.generation = b'.report later .success b'.generation := rfl
  rw [hreport]
  rcases b'.report_cases later .success with ⟨_, _, hr⟩ | ⟨_, hs, hr⟩ | ⟨ho, _⟩ | ⟨ho, _⟩ | ⟨ho, _⟩
  · rw [hr]
    exact ⟨rfl, rfl⟩
  · rw [hr]
    exact ⟨hs, rfl⟩
  · cases ho
  · cases ho
  · cases ho

section Runs
variable [DecidableEq ι] {failThreshold : Nat} {resetTimeoutS now : ℚ}
  {threads : ι → Prog (breakerI.sum J) ε Unit} {Q : ι → Except ε Unit → Client → Prop}
  {h : History J ε ι} {p : Pool (breakerI.sum J) ε ι Clocked}

/-- The timeout of the last trip is the last one to be over. -/
theorem cooled_all (ho : ∀ i, (threads i).Obeys client (Q i) .fresh)
    (hr : Run (guarded J ε) ⟨⟨.new failThreshold resetTimeoutS, now⟩, threads⟩ h p) {later : ℚ}
    (hlater : Cooled resetTimeoutS h later) : ∀ s ∈ h, trips s = true → s.before.now + resetTimeoutS ≤ later := by
  intro s hs htrip
  obtain ⟨pre, trip, mid, rfl, hlast, hmid⟩ := exists_last ⟨s, hs, htrip⟩
  have hover := hlater pre trip mid rfl hlast hmid
  rcases List.mem_append.mp hs with hs | hs
  · have hclock : s.before.now ≤ trip.before.now := (audited_run ho hr _ _ _ rfl).1.clock s hs
    linarith
  · rcases List.mem_cons.mp hs with rfl | hs
    · exact hover
    · rw [hmid s hs] at htrip
      cases htrip

/-- **The breaker never locks its callers out for good**: whatever they have reported and whenever,
once every admitted call has reported and the timeout of the last trip is over, `allow` admits,
and a success of that call closes the circuit. -/
theorem admits_again (ho : ∀ i, (threads i).Obeys client (Q i) .fresh)
    (hr : Run (guarded J ε) ⟨⟨.new failThreshold resetTimeoutS, now⟩, threads⟩ h p)
    (hquiet : ∀ i n, ¬ Outstanding h i n) {later : ℚ} (hlater : Cooled resetTimeoutS h later) :
    ∃ generation b, p.world.breaker.allow later = ((true, generation), b) ∧
      (b.recordSuccess generation).state = .closed ∧ (b.recordSuccess generation).failures = 0 := by
  have hl := ledger_run ho hr
  have ht : p.world.breaker.trialInFlight = false := by
    refine Bool.eq_false_iff.mpr fun htrial => ?_
    obtain ⟨_, i, hi⟩ := hl.consistent.trial.mp htrial
    exact hquiet i _ hi
  have hadmits := hl.admits ht (cooled_all ho hr hlater)
  obtain ⟨⟨⟨allowed, generation⟩, b⟩, hallow⟩ : ∃ x, p.world.breaker.allow later = x := ⟨_, rfl⟩
  rw [hallow] at hadmits
  obtain rfl : allowed = true := hadmits
  exact ⟨generation, b, hallow, CircuitBreaker.recordSuccess_of_allow hallow⟩

end Runs

/-- Threshold one. Two callers are admitted, one fails and trips the breaker, and the other fails
after it: the next one is admitted when the timeout of that trip is over. -/
theorem admits_again_straggler :
    ∃ (h : History .silent Unit Bool) (p : Pool (breakerI.sum .silent) Unit Bool Clocked),
      Run (guarded .silent Unit) ⟨⟨.new 1 30, 0⟩, fun _ => caller (some .failure)⟩ h p ∧ p.world.now = 20 ∧
      ∃ generation b, p.world.breaker.allow 30 = ((true, generation), b) ∧
        (b.recordSuccess generation).state = .closed ∧ (b.recordSuccess generation).failures = 0 := by
  let broken : CircuitBreaker := ⟨1, 30, .opened, 1, 0, false, 1⟩
  have r₀ : Run (guarded .silent Unit) ⟨⟨.new 1 30, 0⟩, fun _ : Bool => caller (some .failure)⟩ [] _ := .start
  have r₁ := r₀.answer false rfl (.ok (true, 0)) ⟨.new 1 30, 0⟩ ⟨rfl, rfl⟩
  have r₂ := r₁.answer true rfl (.ok (true, 0)) ⟨.new 1 30, 0⟩ ⟨rfl, rfl⟩
  have r₃ := r₂.answer false rfl (.ok ()) ⟨broken, 0⟩ ⟨rfl, rfl⟩
  have r₄ := r₃.wait ⟨broken, 20⟩ ⟨by norm_num, rfl⟩
  have r₅ := r₄.answer true rfl (.ok ()) ⟨broken, 20⟩ ⟨rfl, rfl⟩
  refine ⟨_, _, r₅, rfl, admits_again (fun _ => caller_obeys _) r₅ (fun i n hi => ?_) fun pre trip mid he htrip _ => ?_⟩
  · cases i <;> cases hi
  · have hmem : trip ∈ pre ++ trip :: mid := by simp
    rw [← he] at hmem
    simp only [List.nil_append, List.cons_append, List.mem_cons, List.not_mem_nil, or_false] at hmem
    rcases hmem with rfl | rfl | rfl | rfl
    · show (0 : ℚ) + 30 ≤ 30
      norm_num
    · show (0 : ℚ) + 30 ≤ 30
      norm_num
    · show (0 : ℚ) + 30 ≤ 30
      norm_num
    · exact absurd htrip (by decide +kernel)

end Relayix
