import Std.Data.String.ToInt
import Relayix.Core.RateLimit.TokenBucket
import Relayix.Infra.GlobalExceptions

/-! What a throttled client is told.

A refused check does not move the time at which its bucket has a token (`Bucket.ready`), nor does a
check on another key. So the wait that the exception carries is exact, however often the client asks
in between. What the client sees of it is rounded: up in the header, to the nearest millisecond in
the body. -/
namespace Relayix
open Library
namespace InMemoryRateLimiter

/-- Since then the key has been asked for at this limit only, and refused. -/
def RefusedSince (key : UUID) (rpm : Nat) (before : List RateCall) : List RateCall → Prop
  | [] => True
  | c :: since =>
    (c.key = key → c.rpm = rpm ∧ answered c (since ++ before) ≠ .ok ()) ∧ RefusedSince key rpm before since

section Key
variable {key : UUID} {rpm : Nat}

theorem RefusedSince.of_others {before : List RateCall} {since : List RateCall} (h : ∀ c ∈ since, c.key ≠ key) :
    RefusedSince key rpm before since := by
  induction since with
  | nil => exact trivial
  | cons c since ih =>
    obtain ⟨hc, hrest⟩ := List.forall_mem_cons.mp h
    exact ⟨fun hkey => absurd hkey hc, ih hrest⟩

theorem tokens_low {self : InMemoryRateLimiter} {c : RateCall} (hrpm : 1 ≤ c.rpm) (hno : (self.check c).1 ≠ .ok ()) :
    ¬ 1 ≤ self.tokens c := fun htoken => hno ((check_ok_iff self hrpm).mpr htoken)

theorem refused_of_raised {e : Exn} {answer : Except Exn Unit} (h : answer = .error e) : answer ≠ .ok () := by
  rw [h]
  exact fun hok => by cases hok

/-- A check that is not admitted does not move the time at which the bucket has a token. -/
theorem ready_check {self : InMemoryRateLimiter} {c : RateCall} (hrpm : 1 ≤ c.rpm) (hno : (self.check c).1 ≠ .ok ()) :
    ∃ b, (self.check c).2.buckets c.key = some b ∧
      b.ready ((c.rpm : ℚ) / 60) = (self.found c).ready ((c.rpm : ℚ) / 60) := by
  refine ⟨(self.found c).next (c.rpm : ℚ) (c.rpm / 60) c.now, ?_, ?_⟩
  · rw [check_eq self hrpm]
    exact put_self self c.key _
  · exact Bucket.ready_refused (Nat.one_le_cast.mpr hrpm) (rate_pos hrpm).ne' (tokens_low hrpm hno)

/-- What it is told is the time until then. -/
theorem wait_of_raised {self : InMemoryRateLimiter} {c : RateCall} (hrpm : 1 ≤ c.rpm) {w : ℚ}
    (hraised : (self.check c).1 = .error (.rateLimited w)) :
    0 < w ∧ (self.found c).ready ((c.rpm : ℚ) / 60) = c.now + w := by
  have hlow := tokens_low hrpm (refused_of_raised hraised)
  have hw : (1 - self.tokens c) / ((c.rpm : ℚ) / 60) = w := by
    rw [check_eq self hrpm, answer, if_neg hlow] at hraised
    injection hraised with hraised
    injection hraised
  have hwait : (1 - self.tokens c) / ((c.rpm : ℚ) / 60) = (self.found c).ready ((c.rpm : ℚ) / 60) - c.now :=
    Bucket.wait_eq (Nat.one_le_cast.mpr hrpm) (rate_pos hrpm).ne' hlow
  rw [hw] at hwait
  refine ⟨?_, by linarith⟩
  rw [← hw]
  exact div_pos (sub_pos.mpr (not_le.mp hlow)) (rate_pos hrpm)

/-- Of a key that has a bucket, the next check finds that one. -/
theorem found_of_buckets {self : InMemoryRateLimiter} {c : RateCall} {b : Bucket ℚ}
    (h : self.buckets c.key = some b) : self.found c = b := by
  rw [found, h, Option.getD_some]

/-- And so for any number of them, whatever is asked on other keys. -/
theorem ready_since {before since : List RateCall} {ready : ℚ} (hrpm : 1 ≤ rpm)
    (hbefore : ∃ b, (after before).buckets key = some b ∧ b.ready ((rpm : ℚ) / 60) = ready)
    (h : RefusedSince key rpm before since) :
    ∃ b, (after (since ++ before)).buckets key = some b ∧ b.ready ((rpm : ℚ) / 60) = ready := by
  induction since with
  | nil => exact hbefore
  | cons c since ih =>
    obtain ⟨b, hb, hready⟩ := ih h.2
    by_cases hc : c.key = key
    · obtain ⟨rfl, hno⟩ := h.1 hc
      subst hc
      obtain ⟨b', hb', hready'⟩ := ready_check hrpm hno
      rw [found_of_buckets hb, hready] at hready'
      exact ⟨b', hb', hready'⟩
    · refine ⟨b, ?_, hready⟩
      rw [← hb]
      exact check_other _ hc

/-- A check is admitted from the time on at which the bucket has a token. -/
theorem answered_ready {before : List RateCall} {b : Bucket ℚ} {t : ℚ} (hrpm : 1 ≤ rpm)
    (hb : (after before).buckets key = some b) :
    answered ⟨key, rpm, t⟩ before = .ok () ↔ b.ready ((rpm : ℚ) / 60) ≤ t := by
  have hlevel : (after before).tokens ⟨key, rpm, t⟩ = Bucket.level (rpm : ℚ) (rpm / 60) b t := by
    rw [tokens, found_of_buckets hb]
  have hcapacity : (1 : ℚ) ≤ rpm := Nat.one_le_cast.mpr hrpm
  rw [answered, check_ok_iff (c := ⟨key, rpm, t⟩) _ hrpm, hlevel, Bucket.one_le_level_iff hcapacity (rate_pos hrpm)]

variable {t w : ℚ} {earlier : List RateCall}

/-- **`retry_after_s` is the exact wait**: with no other check of the key admitted since, a check of it
is admitted when that time is over and not before, however often it was refused in between. -/
theorem retry_after_exact (hrpm : 1 ≤ rpm) (hraised : answered ⟨key, rpm, t⟩ earlier = .error (.rateLimited w)) :
    0 < w ∧ ∀ since t', RefusedSince key rpm (⟨key, rpm, t⟩ :: earlier) since →
      (answered ⟨key, rpm, t'⟩ (since ++ ⟨key, rpm, t⟩ :: earlier) = .ok () ↔ t + w ≤ t') := by
  obtain ⟨hpos, hready⟩ := wait_of_raised (c := ⟨key, rpm, t⟩) hrpm hraised
  obtain ⟨b, hb, hsame⟩ := ready_check (c := ⟨key, rpm, t⟩) hrpm (refused_of_raised hraised)
  have hafter : ∃ b, (after (⟨key, rpm, t⟩ :: earlier)).buckets key = some b ∧ b.ready ((rpm : ℚ) / 60) = t + w :=
    ⟨b, hb, hsame.trans hready⟩
  refine ⟨hpos, fun since t' hsince => ?_⟩
  obtain ⟨b', hb', hready'⟩ := ready_since hrpm hafter hsince
  rw [answered_ready hrpm hb', hready']

/-! ### What the response says -/

/-- A number of seconds that a response tells the client to wait, in its header or in its body. -/
def Tells (response : JSONResponse) (seconds : ℚ) : Prop :=
  (∃ n : ℤ, response.headers.lookup "Retry-After" = some (toString n) ∧ (n : ℚ) = seconds) ∨
    response.content.retryAfterS = some seconds

/-- After the refused check `c`, a client that waits so long, and is the only one to use the key, is
admitted by its next check. -/
def Enough (c : RateCall) (earlier : List RateCall) (seconds : ℚ) : Prop :=
  ∀ since, (∀ other ∈ since, other.key ≠ c.key) → ∀ now, c.now + seconds ≤ now →
    answered ⟨c.key, c.rpm, now⟩ (since ++ c :: earlier) = .ok ()

theorem enough_iff {c : RateCall} {seconds : ℚ} (hrpm : 1 ≤ c.rpm) (hraised : answered c earlier = .error (.rateLimited w)) :
    Enough c earlier seconds ↔ w ≤ seconds := by
  have hexact := (retry_after_exact hrpm hraised).2
  constructor
  · intro h
    have hnow := (hexact [] (c.now + seconds) trivial).mp (h [] (fun _ h => by cases h) _ (le_refl _))
    linarith
  · intro hle since hothers now hnow
    exact (hexact since now (.of_others hothers)).mpr (by linarith)

theorem tells_rateLimited {response : JSONResponse} {seconds : ℚ}
    (h : handleRateLimited (.rateLimited w) = some response) :
    Tells response seconds ↔ (⌈w⌉ : ℚ) = seconds ∨ round3 w = seconds := by
  obtain rfl : _ = response := Option.some.inj h
  refine or_congr ⟨?_, fun h => ⟨⌈w⌉, rfl, h⟩⟩ Option.some_inj
  rintro ⟨n, hheader, rfl⟩
  rw [Int.repr_injective (Option.some.inj hheader)]

theorem le_round3_iff {x : ℚ} : x ≤ round3 x ↔ RoundsUp (1000 * x) := by
  rw [round3, le_div_iff₀ (by norm_num), mul_comm x, le_roundHalfEven_iff]

/-- What is missing, in milliseconds: the time from the check until its bucket has a token. -/
def missingMs (c : RateCall) (b : Bucket ℚ) : ℚ := 1000 * (b.ready ((c.rpm : ℚ) / 60) - c.now)

/-- What the header says is always enough. -/
theorem header_enough {c : RateCall} (hrpm : 1 ≤ c.rpm) (hraised : answered c earlier = .error (.rateLimited w)) :
    Enough c earlier ⌈w⌉ := (enough_iff hrpm hraised).mpr (Int.le_ceil w)

/-- **What a throttled client is told is enough** when rounding to a millisecond does not take any
of the wait away; the header is enough in any case. -/
theorem told_enough_iff {c : RateCall} (hrpm : 1 ≤ c.rpm) (hraised : answered c earlier = .error (.rateLimited w)) :
    ∃ response, handleRateLimited (.rateLimited w) = some response ∧
      ((∀ seconds, Tells response seconds → Enough c earlier seconds) ↔
        RoundsUp (missingMs c ((after earlier).found c))) := by
  obtain ⟨response, hresponse⟩ : ∃ response, handleRateLimited (.rateLimited w) = some response := ⟨_, rfl⟩
  have hmissing : missingMs c ((after earlier).found c) = 1000 * w := by
    rw [missingMs, (wait_of_raised hrpm hraised).2, add_sub_cancel_left]
  refine ⟨response, hresponse, ?_⟩
  simp only [tells_rateLimited hresponse]
  rw [hmissing, ← le_round3_iff, ← enough_iff hrpm hraised]
  constructor
  · exact fun h => h _ (Or.inr rfl)
  · rintro hbody seconds (rfl | rfl)
    · exact header_enough hrpm hraised
    · exact hbody

end Key

/-- One a minute: the second call waits a minute, however often it is repeated before. -/
theorem retry_after_exact_slow :
    (0 : ℚ) < 60 ∧ (answered ⟨⟨7⟩, 1, 60⟩ ([⟨⟨7⟩, 1, 59⟩, ⟨⟨8⟩, 1, 20⟩] ++ [⟨⟨7⟩, 1, 0⟩, ⟨⟨7⟩, 1, 0⟩]) = .ok () ↔
      (0 : ℚ) + 60 ≤ 60) := by
  have hraised : answered ⟨⟨7⟩, 1, 0⟩ [⟨⟨7⟩, 1, 0⟩] = .error (.rateLimited 60) := by decide +kernel
  have hexact := retry_after_exact (le_refl 1) hraised
  exact ⟨hexact.1, hexact.2 [⟨⟨7⟩, 1, 59⟩, ⟨⟨8⟩, 1, 20⟩] 60 ⟨fun _ => ⟨rfl, by decide +kernel⟩, fun h => absurd h (by decide), trivial⟩⟩

/-- Seven a minute, all asked at once: the eighth waits for a seventh of a minute. -/
theorem told_enough_iff_seventh :
    ∃ response, handleRateLimited (.rateLimited (60 / 7)) = some response ∧
      ((∀ seconds, Tells response seconds → Enough ⟨⟨7⟩, 7, 0⟩ (List.replicate 7 ⟨⟨7⟩, 7, 0⟩) seconds) ↔
        RoundsUp (missingMs ⟨⟨7⟩, 7, 0⟩ ((after (List.replicate 7 ⟨⟨7⟩, 7, 0⟩)).found ⟨⟨7⟩, 7, 0⟩))) :=
  told_enough_iff (by decide) (by decide +kernel)

/-- Its body says 8.571 seconds, and after those it is refused. -/
theorem told_too_early :
    ¬ ∀ (earlier : List RateCall) (c : RateCall) (w : ℚ) (response : JSONResponse), 1 ≤ c.rpm →
      answered c earlier = .error (.rateLimited w) → handleRateLimited (.rateLimited w) = some response →
      ∀ seconds, Tells response seconds → Enough c earlier seconds := by
  intro h
  have henough := h (List.replicate 7 ⟨⟨7⟩, 7, 0⟩) ⟨⟨7⟩, 7, 0⟩ (60 / 7) _ (by decide) (by decide +kernel) rfl (8571 / 1000)
    (Or.inr (by decide +kernel))
  exact absurd (henough [] (fun _ h => by cases h) (8571 / 1000) (by norm_num)) (by decide +kernel)
end InMemoryRateLimiter
end Relayix
