import Relayix.Core.RateLimit.TokenBucket
import Relayix.Domain.Uuid
import Relayix.Library.Expiring
import Relayix.Library.Handler

/-! The Redis limiter (`infra/ratelimit/redis_limiter.py`).

The bucket of a key is a hash in Redis that one script reads and writes, with the worker's clock
as its time. Redis drops it when it was not written for two minutes. Numbers are exact, the one
that the script sends back as text included, and a limit is at least one call a minute. -/
namespace Relayix
open Library

/-- `_TOKEN_BUCKET_LUA` on the hash that `HMGET` finds: the answer, and the hash that `HSET` writes. -/
def tokenBucketLua (capacity rate now : ℚ) (state : Option (Bucket ℚ)) : (Bool × ℚ) × Bucket ℚ :=
  let tokens := state.elim capacity Bucket.tokens
  let ts := state.elim now Bucket.lastRefill
  let elapsed := now - ts
  let elapsed := if elapsed < 0 then 0 else elapsed
  let tokens := min capacity (tokens + elapsed * rate)
  if 1 ≤ tokens then ((true, 0), ⟨tokens - 1, now⟩) else ((false, (1 - tokens) / rate), ⟨tokens, now⟩)

inductive BucketCmd where
  /-- `time.time()` -/
  | time
  /-- the script, with its key and its arguments -/
  | script (name : String) (capacity rate now ttl : ℚ)
  deriving DecidableEq

@[reducible] def bucketI : Interface where
  Cmd := BucketCmd
  Ans
    | .time => ℚ
    | .script .. => Bool × ℚ

/-- The buckets in Redis. -/
abbrev RateBuckets := Expiring String (Bucket ℚ)

def RateBuckets.exec (w : RateBuckets) : (c : BucketCmd) → Except Exn (bucketI.Ans c) × RateBuckets
  | .time => (.ok w.now, w)
  | .script name capacity rate now ttl =>
    (.ok (tokenBucketLua capacity rate now (w.read name)).1,
      w.write name (tokenBucketLua capacity rate now (w.read name)).2 ttl)

def rateLimiterUnavailable : Exn := .rateLimiterUnavailable "Rate limiter backend unavailable"

namespace RedisRateLimiter

def bucketName (key : UUID) : String := "ratelimit:" ++ key.str

def ttlS : ℚ := 120

def check (key : UUID) (rpm : Nat) : Prog bucketI Exn Unit := do
  let capacity : ℚ := rpm
  let refillRate : ℚ := rpm / 60
  let now ← @Prog.perform bucketI Exn .time
  let (allowed, retryAfterS) ←
    (@Prog.perform bucketI Exn (.script (bucketName key) capacity refillRate now ttlS)).tryExcept fun e =>
      if e.isStoreFailure then .raise rateLimiterUnavailable else .raise e
  if allowed then pure () else .raise (.rateLimited retryAfterS)

theorem bucketName_injective {key key' : UUID} (h : bucketName key = bucketName key') : key = key' :=
  UUID.str_injective (String.append_right_inj _ |>.mp h)

/-! ### The script is a token bucket -/

section Script
variable {capacity rate now : ℚ} {b : Bucket ℚ}

/-- The answer of a bucket with these tokens. -/
def reply (rate tokens : ℚ) : Bool × ℚ := if 1 ≤ tokens then (true, 0) else (false, (1 - tokens) / rate)

/-- What a bucket is to a clock that is behind it: asked last just now. -/
def setBack (b : Bucket ℚ) (now : ℚ) : Bucket ℚ := ⟨b.tokens, min b.lastRefill now⟩

theorem setBack_of_le (h : b.lastRefill ≤ now) : setBack b now = b := by
  rw [setBack, min_eq_left h]

theorem setBack_le : (setBack b now).lastRefill ≤ now := min_le_right _ _

/-- The script is a request to the bucket, set back to the worker's clock. -/
theorem lua_eq : tokenBucketLua capacity rate now (some b) =
    (reply rate ((setBack b now).level capacity rate now), (setBack b now).next capacity rate now) := by
  have helapsed : (if now - b.lastRefill < 0 then 0 else now - b.lastRefill) = now - (setBack b now).lastRefill := by
    by_cases h : now - b.lastRefill < 0
    · rw [if_pos h, setBack, min_eq_right (sub_neg.mp h).le, sub_self]
    · rw [if_neg h, setBack_of_le (sub_nonneg.mp (not_lt.mp h))]
  have hlua : tokenBucketLua capacity rate now (some b) =
      if 1 ≤ (setBack b now).level capacity rate now then ((true, 0), ⟨(setBack b now).level capacity rate now - 1, now⟩)
      else ((false, (1 - (setBack b now).level capacity rate now) / rate), ⟨(setBack b now).level capacity rate now, now⟩) := by
    unfold tokenBucketLua
    dsimp only [Option.elim]
    rw [helapsed]
    rfl
  rw [hlua, reply]
  by_cases hok : 1 ≤ (setBack b now).level capacity rate now
  · rw [if_pos hok, if_pos hok, Bucket.next_admitted hok]
  · rw [if_neg hok, if_neg hok, Bucket.next_refused hok]

theorem lua_some (h : b.lastRefill ≤ now) :
    tokenBucketLua capacity rate now (some b) = (reply rate (b.level capacity rate now), b.next capacity rate now) := by
  rw [lua_eq, setBack_of_le h]

theorem lua_none : tokenBucketLua capacity rate now none = tokenBucketLua capacity rate now (some (.fresh capacity now)) := rfl

theorem lua_lastRefill (state : Option (Bucket ℚ)) : (tokenBucketLua capacity rate now state).2.lastRefill = now := by
  cases state with
  | none => rw [lua_none, lua_eq, Bucket.next_lastRefill]
  | some b => rw [lua_eq, Bucket.next_lastRefill]

/-- A bucket that has had the time to fill is like a new one. -/
theorem lua_refilled (hfull : capacity ≤ b.tokens + (now - b.lastRefill) * rate) (hrate : 0 ≤ rate)
    (hlast : b.lastRefill ≤ now) : tokenBucketLua capacity rate now none = tokenBucketLua capacity rate now (some b) := by
  have hlevel : (Bucket.fresh capacity now).level capacity rate now = b.level capacity rate now := by
    rw [Bucket.level_fresh hrate (le_refl now), Bucket.level_full hfull]
  have hnext : (Bucket.fresh capacity now).next capacity rate now = b.next capacity rate now := by
    rw [Bucket.next, Bucket.next, hlevel]
  rw [lua_none, lua_some (le_refl now), lua_some hlast, hlevel, hnext]

variable {w : RateBuckets} {name : String}

theorem lua_read_absent (h : w.entries name = none) :
    tokenBucketLua capacity rate now (w.read name) = tokenBucketLua capacity rate now none := by
  have hread : w.read name = none := by
    refine Expiring.read_eq_none.mpr (Expiring.find_eq_none.mpr fun e he => ?_)
    rw [h] at he
    cases he
  rw [hread]

/-- What the script finds of a bucket is the bucket, or as good as that, if it had the time to fill
when it expired. -/
theorem lua_read_entry {e : Expires (Bucket ℚ)} (he : w.entries name = some e) (hrate : 0 ≤ rate)
    (hlast : e.value.lastRefill ≤ now)
    (hfull : e.deadline ≤ w.now → capacity ≤ e.value.tokens + (now - e.value.lastRefill) * rate) :
    tokenBucketLua capacity rate now (w.read name) = tokenBucketLua capacity rate now (some e.value) := by
  by_cases hlive : w.now < e.deadline
  · have hread : w.read name = some e.value :=
      Expiring.read_eq_some.mpr ⟨e, Expiring.find_eq_some.mpr ⟨he, hlive⟩, rfl⟩
    rw [hread]
  · have hread : w.read name = none := by
      refine Expiring.read_eq_none.mpr (Expiring.find_eq_none.mpr fun e' he' => ?_)
      rw [he] at he'
      cases he'
      exact not_lt.mp hlive
    rw [hread]
    exact lua_refilled (hfull (not_lt.mp hlive)) hrate hlast

end Script

/-- What a check makes of the answer. -/
def heeded (r : Bool × ℚ) : Except Exn Unit := if r.1 then .ok () else .error (.rateLimited r.2)

/-- A check against Redis, all at one time. -/
theorem check_against (key : UUID) (rpm : Nat) (w : RateBuckets) :
    (check key rpm).against RateBuckets.exec w =
      (heeded (tokenBucketLua rpm (rpm / 60) w.now (w.read (bucketName key))).1,
        w.write (bucketName key) (tokenBucketLua rpm (rpm / 60) w.now (w.read (bucketName key))).2 ttlS) := by
  show Prog.against _ (if (tokenBucketLua rpm (rpm / 60) w.now (w.read (bucketName key))).1.1 then _ else _) _ = _
  by_cases hallowed : (tokenBucketLua rpm (rpm / 60) w.now (w.read (bucketName key))).1.1 = true
  · rw [if_pos hallowed, heeded, if_pos hallowed]
    rfl
  · rw [if_neg hallowed, heeded, if_neg hallowed]
    rfl

/-- The answer of a token bucket is the answer of a check. -/
theorem heeded_reply (rpm : Nat) (tokens : ℚ) : heeded (reply (rpm / 60) tokens) = InMemoryRateLimiter.answer rpm tokens := by
  unfold reply heeded InMemoryRateLimiter.answer
  by_cases h : 1 ≤ tokens
  · rw [if_pos h, if_pos h]
    rfl
  · rw [if_neg h, if_neg h]
    rfl

/-! ### Both limiters -/

/-- Redis after these checks, the last one first, each at its own time. -/
def after : List RateCall → RateBuckets
  | [] => ⟨0, fun _ => none⟩
  | c :: earlier => ((check c.key c.rpm).against RateBuckets.exec { after earlier with now := c.now }).2

/-- What the last of these checks is answered. -/
def answered (c : RateCall) (earlier : List RateCall) : Except Exn Unit :=
  ((check c.key c.rpm).against RateBuckets.exec { after earlier with now := c.now }).1

/-- Redis has what the other limiter has, until two minutes after it was last asked for it. -/
def Mirrors (w : RateBuckets) (limiter : InMemoryRateLimiter) : Prop :=
  ∀ key, w.entries (bucketName key) = (limiter.buckets key).map fun b => ⟨b, b.lastRefill + ttlS⟩

/-- Buckets owe nothing, and were last asked by this time. -/
def Settled (limiter : InMemoryRateLimiter) (now : ℚ) : Prop :=
  ∀ key b, limiter.buckets key = some b → 0 ≤ b.tokens ∧ b.lastRefill ≤ now

/-- What the script finds is what the other limiter finds, or as good as that. -/
theorem lua_read {w : RateBuckets} {limiter : InMemoryRateLimiter} {c : RateCall} (hw : Mirrors w limiter)
    (hsettled : Settled limiter c.now) (hnow : w.now = c.now) :
    tokenBucketLua c.rpm (c.rpm / 60) c.now (w.read (bucketName c.key)) =
      (reply (c.rpm / 60) (limiter.tokens c), (limiter.found c).next (c.rpm : ℚ) (c.rpm / 60) c.now) := by
  have hrate : (0 : ℚ) ≤ c.rpm / 60 := by positivity
  have hentry := hw c.key
  cases hb : limiter.buckets c.key with
  | none =>
    rw [hb] at hentry
    have hfound : limiter.found c = .fresh c.rpm c.now := by
      rw [InMemoryRateLimiter.found, hb]
      rfl
    have hnew : (Bucket.fresh (c.rpm : ℚ) c.now).lastRefill ≤ c.now := le_refl c.now
    rw [lua_read_absent hentry, lua_none, lua_some hnew, InMemoryRateLimiter.tokens, hfound]
  | some b =>
    rw [hb] at hentry
    obtain ⟨htokens, hlast⟩ := hsettled c.key b hb
    have hfound : limiter.found c = b := by
      rw [InMemoryRateLimiter.found, hb]
      rfl
    have hfull : b.lastRefill + ttlS ≤ w.now → (c.rpm : ℚ) ≤ b.tokens + (c.now - b.lastRefill) * (c.rpm / 60) := by
      intro hover
      rw [hnow] at hover
      have hidle : 120 ≤ c.now - b.lastRefill := le_sub_iff_add_le'.mpr hover
      have hrefilled : 120 * ((c.rpm : ℚ) / 60) ≤ (c.now - b.lastRefill) * (c.rpm / 60) :=
        mul_le_mul_of_nonneg_right hidle hrate
      linarith
    rw [lua_read_entry hentry hrate hlast hfull, lua_some hlast, InMemoryRateLimiter.tokens, hfound]

/-- Asked the same at the same time, both limiters answer the same, and stay alike. -/
theorem check_mirrors {w : RateBuckets} {limiter : InMemoryRateLimiter} {c : RateCall} (hrpm : 1 ≤ c.rpm)
    (hw : Mirrors w limiter) (hsettled : Settled limiter c.now) (hnow : w.now = c.now) :
    ((check c.key c.rpm).against RateBuckets.exec w).1 = (limiter.check c).1 ∧
      Mirrors ((check c.key c.rpm).against RateBuckets.exec w).2 (limiter.check c).2 := by
  rw [check_against, hnow, lua_read hw hsettled hnow, InMemoryRateLimiter.check_eq limiter hrpm]
  refine ⟨heeded_reply _ _, fun key => ?_⟩
  by_cases hkey : key = c.key
  · rw [hkey, Expiring.write_entries_self, InMemoryRateLimiter.put_self, hnow]
    rfl
  · have hname : bucketName key ≠ bucketName c.key := fun h => hkey (bucketName_injective h)
    rw [Expiring.write_entries_ne hname, InMemoryRateLimiter.put_ne hkey]
    exact hw key

/-- A check leaves the buckets settled. -/
theorem check_settled {limiter : InMemoryRateLimiter} {c : RateCall} (hrpm : 1 ≤ c.rpm) (h : Settled limiter c.now) :
    Settled (limiter.check c).2 c.now := by
  have hfound : 0 ≤ (limiter.found c).tokens ∧ (limiter.found c).lastRefill ≤ c.now := by
    cases hb : limiter.buckets c.key with
    | none =>
      rw [InMemoryRateLimiter.found, hb]
      exact ⟨Nat.cast_nonneg c.rpm, le_refl c.now⟩
    | some b =>
      rw [InMemoryRateLimiter.found, hb]
      exact h c.key b hb
  rw [InMemoryRateLimiter.check_eq limiter hrpm]
  intro key b hb
  by_cases hkey : key = c.key
  · rw [hkey, InMemoryRateLimiter.put_self] at hb
    cases hb
    have hrate : (0 : ℚ) ≤ c.rpm / 60 := (InMemoryRateLimiter.rate_pos hrpm).le
    exact ⟨Bucket.next_tokens_nonneg (Nat.cast_nonneg c.rpm) hrate hfound.1 hfound.2, le_refl c.now⟩
  · rw [InMemoryRateLimiter.put_ne hkey] at hb
    exact h key b hb

theorem Settled.later {limiter : InMemoryRateLimiter} {s t : ℚ} (h : Settled limiter s) (hst : s ≤ t) : Settled limiter t :=
  fun key b hb => ⟨(h key b hb).1, (h key b hb).2.trans hst⟩

/-- After the same calls, the limiters are alike. -/
theorem after_mirrors {calls : List RateCall} (hrpm : ∀ c ∈ calls, 1 ≤ c.rpm)
    (hsorted : calls.Pairwise fun later earlier => earlier.now ≤ later.now) :
    Mirrors (after calls) (InMemoryRateLimiter.after calls) ∧
      ∀ t, (∀ c ∈ calls, c.now ≤ t) → Settled (InMemoryRateLimiter.after calls) t := by
  induction calls with
  | nil => exact ⟨fun _ => rfl, fun _ _ _ _ hb => by cases hb⟩
  | cons c earlier ih =>
    obtain ⟨hc, hearlier⟩ := List.forall_mem_cons.mp hrpm
    obtain ⟨hlast, hrest⟩ := List.pairwise_cons.mp hsorted
    obtain ⟨hmirrors, hsettled⟩ := ih hearlier hrest
    have hnow := hsettled c.now hlast
    refine ⟨(check_mirrors hc (w := { after earlier with now := c.now }) hmirrors hnow rfl).2, fun t ht => ?_⟩
    exact (check_settled hc hnow).later (ht c List.mem_cons_self)

/-- The limiters answer every call alike, after any calls. -/
theorem limiters_agree {c : RateCall} {earlier : List RateCall} (hrpm : ∀ c' ∈ c :: earlier, 1 ≤ c'.rpm)
    (hsorted : (c :: earlier).Pairwise fun later earlier => earlier.now ≤ later.now) :
    answered c earlier = InMemoryRateLimiter.answered c earlier := by
  obtain ⟨hc, hearlier⟩ := List.forall_mem_cons.mp hrpm
  obtain ⟨hlast, hrest⟩ := List.pairwise_cons.mp hsorted
  obtain ⟨hmirrors, hsettled⟩ := after_mirrors hearlier hrest
  exact (check_mirrors hc (w := { after earlier with now := c.now }) hmirrors (hsettled c.now hlast) rfl).1

/-- A key that spent its only call, idle for longer than Redis keeps it, its limit raised meanwhile. -/
theorem limiters_agree_raised :
    answered ⟨⟨7⟩, 100, 150⟩ [⟨⟨7⟩, 1, 20⟩, ⟨⟨8⟩, 5, 20⟩, ⟨⟨7⟩, 1, 0⟩] =
      InMemoryRateLimiter.answered ⟨⟨7⟩, 100, 150⟩ [⟨⟨7⟩, 1, 20⟩, ⟨⟨8⟩, 5, 20⟩, ⟨⟨7⟩, 1, 0⟩] :=
  limiters_agree (by decide) (by decide)

/-! ### Clocks that disagree -/

/-- The hash after these invocations, by their `now`, the last one first. -/
def invoked (rpm : Nat) : List ℚ → Option (Bucket ℚ)
  | [] => none
  | now :: earlier => some (tokenBucketLua rpm (rpm / 60) now (invoked rpm earlier)).2

/-- How many of them were allowed. -/
def allowed (rpm : Nat) : List ℚ → Nat
  | [] => 0
  | now :: earlier => allowed rpm earlier + if (tokenBucketLua rpm (rpm / 60) now (invoked rpm earlier)).1.1 then 1 else 0

/-- No more are allowed than the limit, and the refill of the time that the clocks show. -/
def Limited (rpm : Nat) (nows : List ℚ) : Prop :=
  ∀ first last : ℚ, first ≤ last → (∀ now ∈ nows, first ≤ now ∧ now ≤ last) →
    (allowed rpm nows : ℚ) ≤ rpm + rpm / 60 * (last - first)

/-- The way that the clocks have gone forward, from each invocation to the next. -/
def climbed : List ℚ → ℚ
  | now :: before :: earlier => max 0 (now - before) + climbed (before :: earlier)
  | _ => 0

/-- What is credited lies between two readings, no stretch of it twice. -/
def CreditedOnce (nows : List ℚ) : Prop :=
  ∀ first last, first ≤ last → (∀ t ∈ nows, first ≤ t ∧ t ≤ last) → climbed nows ≤ last - first

theorem reply_allowed (rate tokens : ℚ) : (reply rate tokens).1 = true ↔ 1 ≤ tokens := by
  unfold reply
  split <;> simp [*]

/-- One invocation takes what it allows from what there was and what it credits. -/
theorem lua_credits {rpm : Nat} (now : ℚ) {b : Bucket ℚ} (hb : 0 ≤ b.tokens) (n : Nat) :
    0 ≤ (tokenBucketLua rpm (rpm / 60) now (some b)).2.tokens ∧
      ((n + if (tokenBucketLua rpm (rpm / 60) now (some b)).1.1 then 1 else 0 : Nat) : ℚ) +
        (tokenBucketLua rpm (rpm / 60) now (some b)).2.tokens ≤ n + b.tokens + rpm / 60 * max 0 (now - b.lastRefill) := by
  have hcapacity : (0 : ℚ) ≤ rpm := Nat.cast_nonneg rpm
  have hrate : (0 : ℚ) ≤ rpm / 60 := by positivity
  have hstep : now - (setBack b now).lastRefill = max 0 (now - b.lastRefill) := by
    rcases le_total b.lastRefill now with h | h
    · rw [setBack_of_le h, max_eq_right (sub_nonneg.mpr h)]
    · rw [setBack, min_eq_right h, sub_self, max_eq_left (sub_nonpos.mpr h)]
  have hspends : ((setBack b now).next (rpm : ℚ) (rpm / 60) now).tokens + _ ≤ b.tokens + _ := Bucket.next_spends
  rw [hstep, mul_comm] at hspends
  rw [lua_eq]
  refine ⟨Bucket.next_tokens_nonneg hcapacity hrate hb setBack_le, ?_⟩
  simp only [reply_allowed, Nat.cast_add, Nat.cast_ite, Nat.cast_one, Nat.cast_zero]
  linarith

/-- Every step forward is credited, whether or not the clocks had been there before. -/
theorem allowed_le_climbed (rpm : Nat) (now : ℚ) (earlier : List ℚ) :
    ∃ b, invoked rpm (now :: earlier) = some b ∧ b.lastRefill = now ∧ 0 ≤ b.tokens ∧
      allowed rpm (now :: earlier) + b.tokens ≤ rpm + rpm / 60 * climbed (now :: earlier) := by
  induction earlier generalizing now with
  | nil =>
    obtain ⟨hnonneg, hcredits⟩ := lua_credits now (b := .fresh (rpm : ℚ) now) (Nat.cast_nonneg rpm) 0
    refine ⟨_, rfl, lua_lastRefill none, hnonneg, hcredits.trans ?_⟩
    show ((0 : Nat) : ℚ) + rpm + rpm / 60 * max 0 (now - now) ≤ rpm + rpm / 60 * 0
    rw [sub_self, max_self, Nat.cast_zero, zero_add]
  | cons before earlier ih =>
    obtain ⟨b, hinvoked, hbefore, hb, hsum⟩ := ih before
    obtain ⟨hnonneg, hcredits⟩ := lua_credits now hb (allowed rpm (before :: earlier))
    rw [hbefore, ← hinvoked] at hcredits
    rw [← hinvoked] at hnonneg
    refine ⟨_, rfl, lua_lastRefill _, hnonneg, ?_⟩
    rw [climbed, mul_add]
    refine hcredits.trans ?_
    linarith

theorem climbed_sorted {now first : ℚ} {earlier : List ℚ}
    (hsorted : (now :: earlier).Pairwise fun later earlier => earlier ≤ later) (hfirst : ∀ t ∈ now :: earlier, first ≤ t) :
    climbed (now :: earlier) ≤ now - first := by
  induction earlier generalizing now with
  | nil => exact sub_nonneg.mpr (hfirst now List.mem_cons_self)
  | cons before earlier ih =>
    obtain ⟨hnow, hrest⟩ := List.pairwise_cons.mp hsorted
    have hbefore := ih hrest fun t ht => hfirst t (List.mem_cons_of_mem now ht)
    rw [climbed, max_eq_right (sub_nonneg.mpr (hnow before List.mem_cons_self))]
    linarith

theorem creditedOnce_of_forward {nows : List ℚ} (h : nows.Pairwise fun later earlier => earlier ≤ later) : CreditedOnce nows := by
  intro first last hle hwithin
  cases nows with
  | nil => exact sub_nonneg.mpr hle
  | cons now earlier =>
    have hclimbed := climbed_sorted h fun t ht => (hwithin t ht).1
    have hnow := (hwithin now List.mem_cons_self).2
    linarith

/-- With clocks that do not go back, the bucket keeps its limit, and credits no time twice. -/
theorem limited_of_forward {rpm : Nat} {nows : List ℚ} (h : nows.Pairwise fun later earlier => earlier ≤ later) :
    Limited rpm nows ∧ CreditedOnce nows := by
  have honce := creditedOnce_of_forward h
  refine ⟨fun first last hle hwithin => ?_, honce⟩
  have hrate : (0 : ℚ) ≤ rpm / 60 := by positivity
  cases nows with
  | nil =>
    have hrefilled : (0 : ℚ) ≤ rpm / 60 * (last - first) := mul_nonneg hrate (sub_nonneg.mpr hle)
    rw [allowed, Nat.cast_zero]
    positivity
  | cons now earlier =>
    obtain ⟨b, _, _, hb, hsum⟩ := allowed_le_climbed rpm now earlier
    have hcredited : (rpm : ℚ) / 60 * climbed (now :: earlier) ≤ rpm / 60 * (last - first) :=
      mul_le_mul_of_nonneg_left (honce first last hle hwithin) hrate
    linarith

theorem limited_of_forward_steady : Limited 1 [120, 60, 60, 0] ∧ CreditedOnce [120, 60, 60, 0] :=
  limited_of_forward (by decide)

/-- Two workers, a minute apart, that take turns: the minute is credited twice. -/
theorem alternating_unlimited : ¬ ∀ rpm nows, 1 ≤ rpm → Limited rpm nows := by
  intro hall
  have hthree : allowed 1 [60, 0, 60, 0, 60] = 3 := by decide +kernel
  have hlimited := hall 1 [60, 0, 60, 0, 60] (le_refl 1) 0 60 (by norm_num) (by simp)
  rw [hthree] at hlimited
  norm_num at hlimited

end RedisRateLimiter
end Relayix
