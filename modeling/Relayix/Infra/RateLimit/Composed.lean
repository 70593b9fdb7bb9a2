import Relayix.Core.RateLimit.Resilient
import Relayix.Infra.RateLimit.RedisLimiter

/-! The rate limiter of a process (`main.py`): Redis, the in-memory limiter and the breaker.

The checks of one process run in any interleaving: each reads the clock, awaits Redis, and goes on
with what came back. A script whose reply is lost runs at once, later, or never. `Forward` are the
moments at which a script credits no stretch of clock time that was credited before, and
`throttled_of_forward` is what holds of every run whose scripts run at such moments. -/
namespace Relayix
open Library

inductive MemoryCmd where
  | check (key : UUID) (rpm : Nat)
  deriving DecidableEq

@[reducible] def memoryI : Interface := ⟨MemoryCmd, fun _ => Unit⟩

/-- What the rate limiter is made of. -/
@[reducible] def limitersI : Interface := breakerI.sum (bucketI.sum memoryI)

namespace ResilientRateLimiter

/-- The primary is `RedisRateLimiter`, the fallback `InMemoryRateLimiter`. -/
def parts : (c : (breakerI.sum limiterI).Cmd) → Prog limitersI Exn ((breakerI.sum limiterI).Ans c)
  | .inl c => @Prog.perform limitersI Exn (.inl c)
  | .inr (.primary key rpm) => (RedisRateLimiter.check key rpm).inl.inr
  | .inr (.fallback key rpm) => @Prog.perform limitersI Exn (.inr (.inr (.check key rpm)))

/-- `rate_limiter.check(key, rpm)` -/
def composed (key : UUID) (rpm : Nat) : Prog limitersI Exn Unit := (check key rpm).via parts

/-! ### The process -/

/-- The state of the process, Redis with it. There is one clock, the one that Redis has. -/
structure Process where
  breaker : CircuitBreaker
  redis : RateBuckets
  memory : InMemoryRateLimiter
  /-- the scripts that were sent and not answered -/
  lost : List BucketCmd

/-- The process, the bucket of the key in Redis being its own. Redis runs a script where `runs` lets it. -/
def process (key : UUID) (runs : RateBuckets → BucketCmd → Prop) : World limitersI Exn Process where
  answers
    | w, .inl c, a, w' => a = .ok (w.breaker.exec w.redis.now c).1 ∧
        w' = { w with breaker := (w.breaker.exec w.redis.now c).2 }
    | w, .inr (.inl .time), a, w' => a = .ok w.redis.now ∧ w' = w
    | w, .inr (.inl (.script name capacity rate now ttl)), a, w' =>
        (runs w.redis (.script name capacity rate now ttl) ∧ a = (w.redis.exec (.script name capacity rate now ttl)).1 ∧
          w' = { w with redis := (w.redis.exec (.script name capacity rate now ttl)).2 }) ∨
        ((∃ e, a = .error e) ∧ w' = { w with lost := .script name capacity rate now ttl :: w.lost })
    | w, .inr (.inr (.check key rpm)), a, w' => a = (w.memory.check ⟨key, rpm, w.redis.now⟩).1 ∧
        w' = { w with memory := (w.memory.check ⟨key, rpm, w.redis.now⟩).2 }
  elapses w w' :=
    -- time passes, and other processes write their own buckets
    (∃ redis, w' = { w with redis := redis } ∧ w.redis.now ≤ redis.now ∧
      redis.entries (RedisRateLimiter.bucketName key) = w.redis.entries (RedisRateLimiter.bucketName key)) ∨
    -- a lost script runs after all
    ∃ c ∈ w.lost, runs w.redis c ∧ w' = { w with redis := (w.redis.exec c).2, lost := w.lost.erase c }

/-- The script does not credit what was credited before: it reads the clock no earlier than the
bucket was last refilled, and a minute later if the bucket has expired. -/
def Forward (key : UUID) (redis : RateBuckets) : BucketCmd → Prop
  | .time => True
  | .script name _ _ now _ => name = RedisRateLimiter.bucketName key → ∀ e, redis.entries name = some e →
      e.value.lastRefill ≤ now ∧ (e.deadline ≤ redis.now → e.value.lastRefill + 60 ≤ now)

theorem forward_absent {key : UUID} {redis : RateBuckets} (h : redis.entries (RedisRateLimiter.bucketName key) = none)
    (c : BucketCmd) : Forward key redis c := by
  cases c with
  | time => trivial
  | script name capacity rate now ttl =>
    rintro rfl e he
    rw [h] at he
    cases he

/-- The checks of one process, on new limiters and a new breaker. -/
abbrev serving {ι : Type} (failThreshold : Nat) (resetTimeoutS : ℚ) (redis : RateBuckets) (key : ι → UUID) (rpm : ι → Nat) :
    Pool limitersI Exn ι Process :=
  ⟨⟨.new failThreshold resetTimeoutS, redis, .new, []⟩, fun i => composed (key i) (rpm i)⟩

/-! ### One check -/

/-- Who has answered a check. -/
inductive Phase where
  | asking
  | primary (answer : Bool × ℚ)
  | fallback (answer : Except Exn Unit)

structure Watch where
  key : UUID
  rpm : Nat
  phase : Phase

/-- A check asks the primary at most once, and the fallback at most once, if the primary has not answered. -/
def own : Monitor limitersI Exn Watch where
  next
    | s, .inr (.inl (.script _ _ _ _ _)), .ok x => { s with phase := .primary x }
    | s, .inr (.inr _), a => { s with phase := .fallback a }
    | s, _, _ => s
  allowed
    | _, .inl _ => True
    | s, .inr (.inl .time) => s.phase = .asking
    | s, .inr (.inl (.script name capacity rate _ ttl)) => s.phase = .asking ∧ name = RedisRateLimiter.bucketName s.key ∧
        capacity = s.rpm ∧ rate = s.rpm / 60 ∧ ttl = RedisRateLimiter.ttlS
    | s, .inr (.inr (.check key rpm)) => s.phase = .asking ∧ key = s.key ∧ rpm = s.rpm
  expects
    -- the breaker's methods return
    | .inl _, a => ∃ r, a = .ok r
    | .inr (.inl _), _ => True
    | .inr (.inr _), a => ∀ e, a = .error e → e.isRateLimiterUnavailable = false

/-- What a check ends in, by who has answered it. -/
def Settles : Except Exn Unit → Phase → Prop
  | o, .asking => ∃ e, o = .error e ∧ e.isRateLimiterUnavailable = false
  | o, .primary x => o = RedisRateLimiter.heeded x
  | o, .fallback a => o = a ∧ ∀ e, a = .error e → e.isRateLimiterUnavailable = false

theorem heeded_available {x : Bool × ℚ} {e : Exn} (h : RedisRateLimiter.heeded x = .error e) :
    e.isRateLimiterUnavailable = false := by
  unfold RedisRateLimiter.heeded at h
  split at h
  · cases h
  · cases h
    rfl

/-- What the primary leaves: its answer, or an exception before there was one. -/
def Tried (o : Except Exn Unit) (s : Watch) : Prop :=
  (s.phase = .asking ∧ ∃ e, o = .error e) ∨ ∃ x, s.phase = .primary x ∧ o = RedisRateLimiter.heeded x

/-- Who has answered, by the reply of the script. -/
def Phase.replied : Except Exn (Bool × ℚ) → Phase
  | .ok x => .primary x
  | .error _ => .asking

theorem script_obeys (key : UUID) (rpm : Nat) (now : ℚ) :
    ((@Prog.perform bucketI Exn (.script (RedisRateLimiter.bucketName key) rpm (rpm / 60) now RedisRateLimiter.ttlS)).tryExcept
      fun e => if e.isStoreFailure then .raise rateLimiterUnavailable else .raise e).Obeys own.onRight.onLeft
      (fun r s => s = ⟨key, rpm, .replied r⟩) ⟨key, rpm, .asking⟩ := by
  have hreply : (@Prog.perform bucketI Exn (.script (RedisRateLimiter.bucketName key) rpm (rpm / 60) now
      RedisRateLimiter.ttlS)).Obeys own.onRight.onLeft (fun r s => s = ⟨key, rpm, .replied r⟩) ⟨key, rpm, .asking⟩ := by
    refine Prog.Obeys.perform ⟨rfl, rfl, rfl, rfl, rfl⟩ fun r _ => ?_
    cases r <;> rfl
  refine hreply.tryExcept (fun _ _ hs => hs) fun e s hs => ?_
  split
  · exact hs
  · exact hs

theorem primary_obeys (key : UUID) (rpm : Nat) :
    (parts (.inr (.primary key rpm))).Obeys own (fun o s => s.key = key ∧ s.rpm = rpm ∧ Tried o s) ⟨key, rpm, .asking⟩ := by
  apply Prog.Obeys.inr
  apply Prog.Obeys.inl
  have htime : (@Prog.perform bucketI Exn .time).Obeys own.onRight.onLeft (fun _ s => s = ⟨key, rpm, .asking⟩)
      ⟨key, rpm, .asking⟩ := Prog.Obeys.perform rfl fun _ _ => rfl
  refine htime.bind (fun now s hs => ?_) fun e s hs => ?_
  · subst hs
    refine (script_obeys key rpm now).bind (fun x s hs => ?_) fun e s hs => ?_
    · subst hs
      obtain ⟨allowed, retryAfterS⟩ := x
      cases allowed with
      | false => exact ⟨rfl, rfl, .inr ⟨(false, retryAfterS), rfl, rfl⟩⟩
      | true => exact ⟨rfl, rfl, .inr ⟨(true, retryAfterS), rfl, rfl⟩⟩
    · subst hs
      exact ⟨rfl, rfl, .inl ⟨rfl, e, rfl⟩⟩
  · subst hs
    exact ⟨rfl, rfl, .inl ⟨rfl, e, rfl⟩⟩

theorem fallback_obeys {s : Watch} (hs : s.phase = .asking) :
    (((limiter (.fallback s.key s.rpm)) : Prog (breakerI.sum limiterI) Exn Unit).via parts).Obeys own
      (fun o s => Settles o s.phase) s := by
  refine ⟨⟨hs, rfl, rfl⟩, fun a ha => ?_⟩
  cases a with
  | ok _ => exact ⟨rfl, ha⟩
  | error e => exact ⟨rfl, ha⟩

/-- A report changes nothing for the check. -/
theorem report_parts {s : Watch} {x : Outcome} {generation : Nat} {p : Prog (breakerI.sum limiterI) Exn Unit}
    (h : (p.via parts).Obeys own (fun o s => Settles o s.phase) s) :
    (((report x generation).bind fun _ => p).via parts).Obeys own (fun o s => Settles o s.phase) s := by
  refine ⟨trivial, fun a ha => ?_⟩
  obtain ⟨r, rfl⟩ := ha
  exact h

theorem failed_parts {s : Watch} {generation : Nat} {e : Exn} (ht : Tried (.error e) s) :
    ((failed s.key s.rpm generation e).via parts).Obeys own (fun o s => Settles o s.phase) s := by
  have hraise : e.isRateLimiterUnavailable = false → Settles (.error e) s.phase := by
    intro he
    rcases ht with ⟨hs, _⟩ | ⟨x, hs, hx⟩
    · rw [hs]
      exact ⟨e, rfl, he⟩
    · rw [hs]
      exact hx
  unfold failed
  split
  · refine report_parts (hraise ?_)
    cases e <;> first | rfl | contradiction
  · split
    · rename_i hunavailable
      refine report_parts (fallback_obeys ?_)
      rcases ht with ⟨hs, _⟩ | ⟨x, _, hx⟩
      · exact hs
      · rw [heeded_available hx.symm] at hunavailable
        cases hunavailable
    · rename_i hother
      exact hraise (by simpa using hother)

/-- A check ends as it was answered, whoever answered it. -/
theorem composed_obeys (key : UUID) (rpm : Nat) :
    (composed key rpm).Obeys own (fun o s => Settles o s.phase) ⟨key, rpm, .asking⟩ := by
  refine ⟨trivial, fun a ha => ?_⟩
  obtain ⟨⟨allowed, generation⟩, rfl⟩ := ha
  cases allowed with
  | false => exact fallback_obeys (s := ⟨key, rpm, .asking⟩) rfl
  | true =>
    refine (primary_obeys key rpm).attempt_bind fun o s hs => ?_
    obtain ⟨rfl, rfl, htried⟩ := hs
    cases o with
    | error e => exact failed_parts htried
    | ok u =>
      refine ⟨trivial, fun a ha => ?_⟩
      obtain ⟨r, rfl⟩ := ha
      rcases htried with ⟨_, e, he⟩ | ⟨x, hs, hx⟩
      · cases he
      · show Settles (.ok ()) s.phase
        rw [hs]
        exact hx

/-- What the state of a check remembers of its answers. -/
structure Recalls (t : Trace limitersI Exn) (s : Watch) : Prop where
  primary : ∀ x, s.phase = .primary x →
    ∃ now, ⟨.inr (.inl (.script (RedisRateLimiter.bucketName s.key) s.rpm (s.rpm / 60) now RedisRateLimiter.ttlS)), .ok x⟩ ∈ t
  fallback : ∀ a, s.phase = .fallback a → ⟨.inr (.inr (.check s.key s.rpm)), a⟩ ∈ t
  answered : ∀ name capacity rate now ttl x, ⟨.inr (.inl (.script name capacity rate now ttl)), .ok x⟩ ∈ t → s.phase = .primary x
  consulted : ∀ key rpm a, ⟨.inr (.inr (.check key rpm)), a⟩ ∈ t → s.phase = .fallback a

/-- Nothing to remember. -/
theorem Recalls.quiet {t : Trace limitersI Exn} {s : Watch} {e : Event limitersI Exn} (h : Recalls t s)
    (hscript : ∀ name capacity rate now ttl x, e ≠ ⟨.inr (.inl (.script name capacity rate now ttl)), .ok x⟩)
    (hcheck : ∀ key rpm a, e ≠ ⟨.inr (.inr (.check key rpm)), a⟩) : Recalls (t ++ [e]) s where
  primary x hs := by
    obtain ⟨now, hmem⟩ := h.primary x hs
    exact ⟨now, List.mem_append_left _ hmem⟩
  fallback a hs := List.mem_append_left _ (h.fallback a hs)
  answered name capacity rate now ttl x hmem := by
    rcases List.mem_append.mp hmem with hmem | hmem
    · exact h.answered name capacity rate now ttl x hmem
    · exact absurd (List.mem_singleton.mp hmem).symm (hscript name capacity rate now ttl x)
  consulted key rpm a hmem := by
    rcases List.mem_append.mp hmem with hmem | hmem
    · exact h.consulted key rpm a hmem
    · exact absurd (List.mem_singleton.mp hmem).symm (hcheck key rpm a)

theorem Recalls.replies {t : Trace limitersI Exn} {s : Watch} {now : ℚ} {x : Bool × ℚ} (h : Recalls t s)
    (hs : s.phase = .asking) :
    Recalls (t ++ [⟨.inr (.inl (.script (RedisRateLimiter.bucketName s.key) s.rpm (s.rpm / 60) now RedisRateLimiter.ttlS)), .ok x⟩])
      { s with phase := .primary x } where
  primary y hy := by
    cases hy
    exact ⟨now, List.mem_append_right _ List.mem_cons_self⟩
  fallback a ha := by cases ha
  answered name capacity rate now' ttl y hmem := by
    rcases List.mem_append.mp hmem with hmem | hmem
    · have hy := h.answered _ _ _ _ _ _ hmem
      rw [hs] at hy
      cases hy
    · cases List.mem_singleton.mp hmem
      rfl
  consulted key rpm a hmem := by
    rcases List.mem_append.mp hmem with hmem | hmem
    · have ha := h.consulted _ _ _ hmem
      rw [hs] at ha
      cases ha
    · cases List.mem_singleton.mp hmem

theorem Recalls.falls {t : Trace limitersI Exn} {s : Watch} {a : Except Exn Unit} (h : Recalls t s) (hs : s.phase = .asking) :
    Recalls (t ++ [⟨.inr (.inr (.check s.key s.rpm)), a⟩]) { s with phase := .fallback a } where
  primary x hx := by cases hx
  fallback b hb := by
    cases hb
    exact List.mem_append_right _ List.mem_cons_self
  answered name capacity rate now ttl x hmem := by
    rcases List.mem_append.mp hmem with hmem | hmem
    · have hx := h.answered _ _ _ _ _ _ hmem
      rw [hs] at hx
      cases hx
    · cases List.mem_singleton.mp hmem
  consulted key rpm b hmem := by
    rcases List.mem_append.mp hmem with hmem | hmem
    · have hb := h.consulted _ _ _ hmem
      rw [hs] at hb
      cases hb
    · cases List.mem_singleton.mp hmem
      rfl

theorem recalls_step {t : Trace limitersI Exn} {s : Watch} {c : limitersI.Cmd} {a : Except Exn (limitersI.Ans c)}
    (h : Recalls t s) (hc : own.allowed s c) : Recalls (t ++ [⟨c, a⟩]) (own.next s c a) := by
  cases c with
  | inl c => exact h.quiet (fun _ _ _ _ _ _ he => by cases he) fun _ _ _ he => by cases he
  | inr c =>
    cases c with
    | inl c =>
      cases c with
      | time => exact h.quiet (fun _ _ _ _ _ _ he => by cases he) fun _ _ _ he => by cases he
      | script name capacity rate now ttl =>
        obtain ⟨hs, rfl, rfl, rfl, rfl⟩ := hc
        cases a with
        | error e => exact h.quiet (fun _ _ _ _ _ _ he => by cases he) fun _ _ _ he => by cases he
        | ok x => exact h.replies hs
    | inr c =>
      obtain ⟨key, rpm⟩ := c
      obtain ⟨hs, rfl, rfl⟩ := hc
      exact h.falls hs

theorem own_next (s : Watch) (c : limitersI.Cmd) (a : Except Exn (limitersI.Ans c)) :
    (own.next s c a).key = s.key ∧ (own.next s c a).rpm = s.rpm := by
  cases c with
  | inl c => exact ⟨rfl, rfl⟩
  | inr c =>
    cases c with
    | inl c => cases c <;> cases a <;> exact ⟨rfl, rfl⟩
    | inr c => exact ⟨rfl, rfl⟩

theorem own_run (s : Watch) (t : Trace limitersI Exn) : (own.run s t).key = s.key ∧ (own.run s t).rpm = s.rpm := by
  induction t generalizing s with
  | nil => exact ⟨rfl, rfl⟩
  | cons e t ih =>
    obtain ⟨hkey, hrpm⟩ := own_next s e.cmd e.answer
    obtain ⟨hkey', hrpm'⟩ := ih (own.next s e.cmd e.answer)
    exact ⟨hkey'.trans hkey, hrpm'.trans hrpm⟩

/-- The in-memory limiter is always available. -/
theorem memory_available {limiter : InMemoryRateLimiter} {c : RateCall} {e : Exn} (h : (limiter.check c).1 = .error e) :
    e.isRateLimiterUnavailable = false := by
  unfold InMemoryRateLimiter.check at h
  dsimp only at h
  split at h
  · cases h
  · split at h
    · cases h
      rfl
    · cases h
      rfl

theorem process_meets {K : UUID} {runs : RateBuckets → BucketCmd → Prop} : (process K runs).Meets own := by
  intro w c a w' ha
  cases c with
  | inl c => exact ⟨_, ha.1⟩
  | inr c =>
    cases c with
    | inl c => trivial
    | inr c =>
      obtain ⟨key, rpm⟩ := c
      intro e he
      exact memory_available (ha.1.symm.trans he)

/-! ### What the buckets have admitted -/

/-- The bucket, absent at first, and what it has admitted. -/
structure Metered (rpm : Nat) (bucket : Option (Bucket ℚ)) (admitted : List ℚ) : Prop where
  windowed : Bucket.Windowed (rpm : ℚ) (rpm / 60) admitted
  accounts : bucket.elim (admitted = []) fun b => b.Accounts (rpm : ℚ) (rpm / 60) admitted

/-- The bucket that a request finds, or begins with. -/
def begun (rpm : Nat) (bucket : Option (Bucket ℚ)) (now : ℚ) : Bucket ℚ := bucket.getD (.fresh rpm now)

section Key
variable {K : UUID} {rpm : Nat} {bucket : Option (Bucket ℚ)} {admitted : List ℚ} {now : ℚ}

theorem metered_none (rpm : Nat) : Metered rpm none [] where
  windowed := Bucket.windowed_nil (Nat.cast_nonneg rpm) (by positivity)
  accounts := rfl

theorem Metered.begun (h : Metered rpm bucket admitted) (hlast : ∀ b, bucket = some b → b.lastRefill ≤ now) :
    (begun rpm bucket now).Accounts (rpm : ℚ) (rpm / 60) admitted ∧ (begun rpm bucket now).lastRefill ≤ now := by
  cases bucket with
  | none =>
    obtain rfl : admitted = [] := h.accounts
    exact ⟨Bucket.accounts_fresh (Nat.cast_nonneg rpm) (by positivity), le_refl now⟩
  | some b => exact ⟨h.accounts, hlast b rfl⟩

/-- A request leaves the bucket metered. -/
theorem Metered.next (h : Metered rpm bucket admitted) (hlast : ∀ b, bucket = some b → b.lastRefill ≤ now) :
    Metered rpm (some ((ResilientRateLimiter.begun rpm bucket now).next (rpm : ℚ) (rpm / 60) now))
      (if 1 ≤ (ResilientRateLimiter.begun rpm bucket now).level (rpm : ℚ) (rpm / 60) now then now :: admitted else admitted) := by
  obtain ⟨haccounts, hle⟩ := h.begun hlast
  have hcapacity : (0 : ℚ) ≤ rpm := Nat.cast_nonneg rpm
  have hrate : (0 : ℚ) ≤ rpm / 60 := by positivity
  have hnext := haccounts.next hcapacity hrate hle
  refine ⟨hnext.windowed hcapacity hrate ?_ h.windowed, hnext⟩
  split
  · exact .inr rfl
  · exact .inl rfl

/-- The bucket of the key that Redis has, expired or not. -/
def kept (K : UUID) (redis : RateBuckets) : Option (Bucket ℚ) :=
  (redis.entries (RedisRateLimiter.bucketName K)).map Expires.value

/-- A script for this key is for this limit. -/
def Proper (K : UUID) (rpm : Nat) : BucketCmd → Prop
  | .time => True
  | .script name capacity rate _ _ => name = RedisRateLimiter.bucketName K → capacity = rpm ∧ rate = rpm / 60

/-- The reading of the clock on which Redis allowed it, by its answer. -/
def allowedAt (K : UUID) (name : String) (now : ℚ) (answer : Bool × ℚ) : Option ℚ :=
  if name = RedisRateLimiter.bucketName K ∧ answer.1 = true then some now else none

/-- What the script finds is the bucket, or as good as that. -/
theorem lua_forward {redis : RateBuckets} {rate ttl : ℚ} (h : Metered rpm (kept K redis) admitted)
    (hforward : Forward K redis (.script (RedisRateLimiter.bucketName K) rpm rate now ttl)) :
    (∀ b, kept K redis = some b → b.lastRefill ≤ now) ∧
      tokenBucketLua rpm (rpm / 60) now (redis.read (RedisRateLimiter.bucketName K)) =
        (RedisRateLimiter.reply (rpm / 60) ((begun rpm (kept K redis) now).level (rpm : ℚ) (rpm / 60) now),
          (begun rpm (kept K redis) now).next (rpm : ℚ) (rpm / 60) now) := by
  have hrate : (0 : ℚ) ≤ rpm / 60 := by positivity
  cases he : redis.entries (RedisRateLimiter.bucketName K) with
  | none =>
    have hkept : kept K redis = none := by rw [kept, he, Option.map_none]
    rw [hkept, RedisRateLimiter.lua_read_absent he, RedisRateLimiter.lua_none]
    refine ⟨fun b hb => ?_, RedisRateLimiter.lua_some (b := .fresh (rpm : ℚ) now) (le_refl now)⟩
    cases hb
  | some e =>
    have hkept : kept K redis = some e.value := by rw [kept, he, Option.map_some]
    obtain ⟨hlast, hidle⟩ := hforward rfl e he
    rw [hkept] at h ⊢
    have hfull : e.deadline ≤ redis.now → (rpm : ℚ) ≤ e.value.tokens + (now - e.value.lastRefill) * (rpm / 60) := by
      intro hover
      have htokens : 0 ≤ e.value.tokens := h.accounts.nonneg
      have hminute : 60 ≤ now - e.value.lastRefill := le_sub_iff_add_le'.mpr (hidle hover)
      have hrefilled : 60 * ((rpm : ℚ) / 60) ≤ (now - e.value.lastRefill) * (rpm / 60) :=
        mul_le_mul_of_nonneg_right hminute hrate
      linarith
    rw [RedisRateLimiter.lua_read_entry he hrate hlast hfull]
    refine ⟨fun b hb => ?_, RedisRateLimiter.lua_some hlast⟩
    cases hb
    exact hlast

/-- A script leaves the bucket metered. -/
theorem script_metered {redis : RateBuckets} {name : String} {capacity rate ttl : ℚ} (h : Metered rpm (kept K redis) admitted)
    (hproper : Proper K rpm (.script name capacity rate now ttl)) (hforward : Forward K redis (.script name capacity rate now ttl)) :
    Metered rpm (kept K (redis.exec (.script name capacity rate now ttl)).2)
      ((allowedAt K name now (tokenBucketLua capacity rate now (redis.read name)).1).toList ++ admitted) := by
  by_cases hname : name = RedisRateLimiter.bucketName K
  · subst hname
    obtain ⟨rfl, rfl⟩ := hproper rfl
    obtain ⟨hlast, hlua⟩ := lua_forward h hforward
    have hnext := h.next hlast
    have hkept : kept K (redis.exec (.script (RedisRateLimiter.bucketName K) rpm (rpm / 60) now ttl)).2 =
        some ((begun rpm (kept K redis) now).next (rpm : ℚ) (rpm / 60) now) := by
      show (Expiring.entries (redis.write _ _ ttl) _).map Expires.value = _
      rw [Expiring.write_entries_self, hlua]
      rfl
    rw [hkept, hlua, allowedAt]
    simp only [true_and, RedisRateLimiter.reply_allowed]
    by_cases hok : 1 ≤ (begun rpm (kept K redis) now).level (rpm : ℚ) (rpm / 60) now
    · rw [if_pos hok] at hnext ⊢
      exact hnext
    · rw [if_neg hok] at hnext ⊢
      exact hnext
  · have hkept : kept K (redis.exec (.script name capacity rate now ttl)).2 = kept K redis := by
      show (Expiring.entries (redis.write _ _ ttl) _).map Expires.value = _
      rw [Expiring.write_entries_ne (Ne.symm hname), kept]
    rw [hkept, allowedAt, if_neg fun hboth => hname hboth.1]
    exact h

/-- The reading of the clock on which the in-memory limiter let it through, by its answer. -/
def returnedAt (K key : UUID) (now : ℚ) : Except Exn Unit → Option ℚ
  | .ok () => if key = K then some now else none
  | .error _ => none

/-- A call leaves the bucket metered. -/
theorem check_metered {limiter : InMemoryRateLimiter} {key : UUID} {limit : Nat} (h : Metered limit (limiter.buckets K) admitted)
    (hlimit : 1 ≤ limit) (hrpm : key = K → rpm = limit) (hlast : ∀ b, limiter.buckets K = some b → b.lastRefill ≤ now) :
    Metered limit ((limiter.check ⟨key, rpm, now⟩).2.buckets K)
      ((returnedAt K key now (limiter.check ⟨key, rpm, now⟩).1).toList ++ admitted) ∧
    ∀ b, (limiter.check ⟨key, rpm, now⟩).2.buckets K = some b → b.lastRefill ≤ now := by
  by_cases hkey : key = K
  · obtain rfl := hrpm hkey
    subst hkey
    have hnext := h.next hlast
    rw [InMemoryRateLimiter.check_eq limiter (c := ⟨key, rpm, now⟩) hlimit]
    refine ⟨?_, fun b hb => ?_⟩
    · show Metered rpm ((InMemoryRateLimiter.put _ _ _).buckets key) ((returnedAt key key now (InMemoryRateLimiter.answer rpm
        ((begun rpm (limiter.buckets key) now).level (rpm : ℚ) (rpm / 60) now))).toList ++ admitted)
      rw [InMemoryRateLimiter.put_self, InMemoryRateLimiter.answer]
      by_cases hok : 1 ≤ (begun rpm (limiter.buckets key) now).level (rpm : ℚ) (rpm / 60) now
      · rw [if_pos hok] at hnext ⊢
        rw [returnedAt, if_pos rfl]
        exact hnext
      · rw [if_neg hok] at hnext ⊢
        exact hnext
    · rw [InMemoryRateLimiter.put_self] at hb
      cases hb
      exact le_refl now
  · rw [InMemoryRateLimiter.check_other (c := ⟨key, rpm, now⟩) limiter hkey]
    refine ⟨?_, hlast⟩
    have hnone : returnedAt K key now (limiter.check ⟨key, rpm, now⟩).1 = none := by
      unfold returnedAt
      split
      · exact if_neg hkey
      · rfl
    rw [hnone]
    exact h

end Key

/-! ### Every run -/

section Runs
variable {ι : Type} {K : UUID} {limit : Nat} {h : List (Step limitersI Exn ι Process)} {w w' : Process} {A A' B B' : List ℚ}

/-- The reading of the clock on which the step let a check of the key through. -/
def passed (K : UUID) (s : Step limitersI Exn ι Process) : Option ℚ :=
  match s.event with
  | ⟨.inr (.inl (.script name _ _ now _)), .ok x⟩ => allowedAt K name now x
  | ⟨.inr (.inr (.check key _)), a⟩ => returnedAt K key s.before.redis.now a
  | _ => none

theorem passed_snoc (h : List (Step limitersI Exn ι Process)) (s : Step limitersI Exn ι Process) :
    (h ++ [s]).filterMap (passed K) = h.filterMap (passed K) ++ (passed K s).toList := by
  rw [List.filterMap_append]
  cases hs : passed K s with
  | none => rw [List.filterMap_cons_none hs, List.filterMap_nil, Option.toList_none]
  | some t => rw [List.filterMap_cons_some hs, List.filterMap_nil, Option.toList_some]

/-- Each check that was let through is charged to one of the two buckets. -/
structure Charged (K : UUID) (limit : Nat) (h : List (Step limitersI Exn ι Process)) (w : Process) (A B : List ℚ) : Prop where
  redis : Metered limit (kept K w.redis) A
  memory : Metered limit (w.memory.buckets K) B
  clock : ∀ b, w.memory.buckets K = some b → b.lastRefill ≤ w.redis.now
  lost : ∀ c ∈ w.lost, Proper K limit c
  through : ∀ P : ℚ → Bool, (h.filterMap (passed K)).countP P ≤ A.countP P + B.countP P

/-- Nothing happens to the buckets of the key. -/
theorem Charged.frame (hch : Charged K limit h w A B) (hredis : kept K w'.redis = kept K w.redis) (hnow : w.redis.now ≤ w'.redis.now)
    (hmemory : w'.memory = w.memory) (hlost : ∀ c ∈ w'.lost, Proper K limit c) : Charged K limit h w' A B where
  redis := hredis ▸ hch.redis
  memory := hmemory ▸ hch.memory
  clock b hb := (hch.clock b (hmemory ▸ hb)).trans hnow
  lost := hlost
  through := hch.through

theorem Charged.quiet (hch : Charged K limit h w A B) {s : Step limitersI Exn ι Process} (hs : passed K s = none) :
    Charged K limit (h ++ [s]) w A B where
  redis := hch.redis
  memory := hch.memory
  clock := hch.clock
  lost := hch.lost
  through P := by
    rw [passed_snoc, hs, Option.toList_none, List.append_nil]
    exact hch.through P

/-- Redis runs a script, and its reply comes back. -/
theorem Charged.script (hch : Charged K limit h w A B) (i : ι) {name : String} {capacity rate now ttl : ℚ}
    (hproper : Proper K limit (.script name capacity rate now ttl)) (hforward : Forward K w.redis (.script name capacity rate now ttl)) :
    Charged K limit
      (h ++ [⟨w, i, ⟨.inr (.inl (.script name capacity rate now ttl)), (w.redis.exec (.script name capacity rate now ttl)).1⟩⟩])
      { w with redis := (w.redis.exec (.script name capacity rate now ttl)).2 }
      ((allowedAt K name now (tokenBucketLua capacity rate now (w.redis.read name)).1).toList ++ A) B where
  redis := script_metered hch.redis hproper hforward
  memory := hch.memory
  clock := hch.clock
  lost := hch.lost
  through P := by
    have hthrough := hch.through P
    rw [passed_snoc, List.countP_append, List.countP_append]
    show _ + (allowedAt K name now (tokenBucketLua capacity rate now (w.redis.read name)).1).toList.countP P ≤ _
    omega

/-- A lost script runs after all. -/
theorem Charged.late (hch : Charged K limit h w A B) {c : BucketCmd} (hc : c ∈ w.lost) (hforward : Forward K w.redis c) :
    ∃ A', Charged K limit h { w with redis := (w.redis.exec c).2, lost := w.lost.erase c } A' B := by
  have hlost : ∀ c' ∈ w.lost.erase c, Proper K limit c' := fun c' hc' => hch.lost c' (List.mem_of_mem_erase hc')
  cases c with
  | time => exact ⟨A, hch.frame rfl (le_refl _) rfl hlost⟩
  | script name capacity rate now ttl =>
    refine ⟨_, script_metered hch.redis (hch.lost _ hc) hforward, hch.memory, hch.clock, hlost, fun P => ?_⟩
    have hthrough := hch.through P
    rw [List.countP_append]
    omega

/-- The in-memory limiter answers. -/
theorem Charged.check (hch : Charged K limit h w A B) (hlimit : 1 ≤ limit) (i : ι) {key : UUID} {rpm : Nat}
    (hrpm : key = K → rpm = limit) :
    Charged K limit (h ++ [⟨w, i, ⟨.inr (.inr (.check key rpm)), (w.memory.check ⟨key, rpm, w.redis.now⟩).1⟩⟩])
      { w with memory := (w.memory.check ⟨key, rpm, w.redis.now⟩).2 } A
      ((returnedAt K key w.redis.now (w.memory.check ⟨key, rpm, w.redis.now⟩).1).toList ++ B) where
  redis := hch.redis
  memory := (check_metered hch.memory hlimit hrpm hch.clock).1
  clock := (check_metered hch.memory hlimit hrpm hch.clock).2
  lost := hch.lost
  through P := by
    have hthrough := hch.through P
    rw [passed_snoc, List.countP_append, List.countP_append]
    show _ + (returnedAt K key w.redis.now (w.memory.check ⟨key, rpm, w.redis.now⟩).1).toList.countP P ≤ _
    omega

/-- One command of a check. -/
theorem charged_step {i : ι} {s : Watch} {c : limitersI.Cmd} {a : Except Exn (limitersI.Ans c)}
    (hch : Charged K limit h w A B) (hlimit : 1 ≤ limit) (hs : s.key = K → s.rpm = limit) (hc : own.allowed s c)
    (ha : (process K (Forward K)).answers w c a w') : ∃ A' B', Charged K limit (h ++ [⟨w, i, ⟨c, a⟩⟩]) w' A' B' := by
  cases c with
  | inl c =>
    obtain ⟨rfl, rfl⟩ := ha
    have hquiet := hch.quiet (s := ⟨w, i, ⟨.inl c, .ok (w.breaker.exec w.redis.now c).1⟩⟩) rfl
    exact ⟨A, B, hquiet.frame rfl (le_refl _) rfl hquiet.lost⟩
  | inr c =>
    cases c with
    | inl c =>
      cases c with
      | time =>
        obtain ⟨rfl, rfl⟩ := ha
        exact ⟨A, B, hch.quiet rfl⟩
      | script name capacity rate now ttl =>
        obtain ⟨_, hname, rfl, rfl, rfl⟩ := hc
        have hproper : Proper K limit (.script name s.rpm (s.rpm / 60) now RedisRateLimiter.ttlS) := by
          intro hK
          rw [hs (RedisRateLimiter.bucketName_injective (hname.symm.trans hK))]
          exact ⟨rfl, rfl⟩
        rcases ha with ⟨hforward, rfl, rfl⟩ | ⟨⟨e, rfl⟩, rfl⟩
        · exact ⟨_, B, hch.script i hproper hforward⟩
        · have hquiet := hch.quiet (s := ⟨w, i, ⟨.inr (.inl (.script name s.rpm (s.rpm / 60) now RedisRateLimiter.ttlS)), .error e⟩⟩) rfl
          exact ⟨A, B, hquiet.frame rfl (le_refl _) rfl (List.forall_mem_cons.mpr ⟨hproper, hquiet.lost⟩)⟩
    | inr c =>
      obtain ⟨key, rpm⟩ := c
      obtain ⟨_, rfl, rfl⟩ := hc
      obtain ⟨rfl, rfl⟩ := ha
      exact ⟨A, _, hch.check hlimit i hs⟩

variable [DecidableEq ι] {key : ι → UUID} {rpm : ι → Nat} {failThreshold : Nat} {resetTimeoutS : ℚ} {redis : RateBuckets}
  {p : Pool limitersI Exn ι Process}

/-- Where each check stands after a run. -/
def checking (key : ι → UUID) (rpm : ι → Nat) (h : List (Step limitersI Exn ι Process)) : ι → Watch :=
  watched own (fun i => ⟨key i, rpm i, .asking⟩) h

/-- Every check let through is charged, and every check of the key is for its limit. -/
def Balanced (K : UUID) (limit : Nat) (h : List (Step limitersI Exn ι Process)) (w : Process) (g : ι → Watch) : Prop :=
  (∃ A B, Charged K limit h w A B) ∧ ∀ i, (g i).key = K → (g i).rpm = limit

theorem balanced_run (hr : Run (process K (Forward K)) (serving failThreshold resetTimeoutS redis key rpm) h p)
    (hlimit : 1 ≤ limit) (hrpm : ∀ i, key i = K → rpm i = limit)
    (hnew : redis.entries (RedisRateLimiter.bucketName K) = none) : Balanced K limit h p.world (checking key rpm h) := by
  have hstart : Charged K limit ([] : List (Step limitersI Exn ι Process)) ⟨.new failThreshold resetTimeoutS, redis, .new, []⟩ [] [] := by
    have hkept : kept K redis = none := by rw [kept, hnew, Option.map_none]
    refine ⟨?_, metered_none limit, fun b hb => ?_, fun c hc => ?_, fun P => le_refl 0⟩
    · show Metered limit (kept K redis) []
      rw [hkept]
      exact metered_none limit
    · cases hb
    · cases hc
  refine Run.always process_meets (fun i => composed_obeys (key i) (rpm i)) ⟨⟨[], [], hstart⟩, hrpm⟩ ?_ ?_ hr
  · rintro h w g i c a w' ⟨⟨A, B, hch⟩, hg⟩ hc ha
    refine ⟨charged_step hch hlimit (hg i) hc ha, fun j hj => ?_⟩
    by_cases hij : j = i
    · subst hij
      rw [Function.update_self, (own_next (g j) c a).1] at hj
      rw [Function.update_self, (own_next (g j) c a).2]
      exact hg j hj
    · rw [Function.update_of_ne hij] at hj ⊢
      exact hg j hj
  · rintro h w g w' ⟨⟨A, B, hch⟩, hg⟩ (⟨redis, rfl, hnow, hentries⟩ | ⟨c, hc, hforward, rfl⟩)
    · refine ⟨⟨A, B, hch.frame ?_ hnow rfl hch.lost⟩, hg⟩
      show (redis.entries _).map _ = (w.redis.entries _).map _
      rw [hentries]
    · obtain ⟨A', hlate⟩ := hch.late hc hforward
      exact ⟨⟨A', B, hlate⟩, hg⟩

/-- The check was let through on this reading of the clock. -/
def ThroughAt (K : UUID) (h : List (Step limitersI Exn ι Process)) (i : ι) (t : ℚ) : Prop :=
  ∃ s ∈ h, s.thread = i ∧ passed K s = some t

/-- The check has returned, with the answer to its last command, at this time. -/
def ReturnsAt (h : List (Step limitersI Exn ι Process)) (p : Pool limitersI Exn ι Process) (i : ι) (t : ℚ) : Prop :=
  p.threads i = .ret () ∧ (h.filter fun s => s.thread = i).getLast?.map (fun s => s.before.redis.now) = some t

/-- No time passes between the reading of the clock that lets a check of the key through and its return. -/
def Prompt (K : UUID) (key : ι → UUID) (h : List (Step limitersI Exn ι Process)) (p : Pool limitersI Exn ι Process) : Prop :=
  ∀ i t, key i = K → ReturnsAt h p i t → ThroughAt K h i t

/-- What the limiter owes the key, whose limit this is, after a run. -/
structure Throttled (K : UUID) (limit : Nat) (key : ι → UUID) (h : List (Step limitersI Exn ι Process))
    (p : Pool limitersI Exn ι Process) : Prop where
  /-- In any window no more checks return than two buckets admit. -/
  limited : ∀ (R : Finset ι) (s T : ℚ), 0 ≤ T → (∀ i ∈ R, key i = K ∧ ∃ t, ReturnsAt h p i t ∧ s ≤ t ∧ t ≤ s + T) →
    (R.card : ℚ) ≤ 2 * (limit + limit * T / 60)
  available : ∀ i e, p.threads i = .raise e → e.isRateLimiterUnavailable = false
  /-- The answer of the primary is the result, and the check has left the fallback as it was. -/
  answered : ∀ i name capacity rate now ttl x, ⟨.inr (.inl (.script name capacity rate now ttl)), .ok x⟩ ∈ log i h →
    (∀ o, p.threads i = .ofExcept o → o = RedisRateLimiter.heeded x) ∧
      ∀ s ∈ h, s.thread = i → ∀ runs w', (process K runs).answers s.before s.event.cmd s.event.answer w' →
        w'.memory = s.before.memory

omit [DecidableEq ι] in
/-- A check is counted once. -/
theorem card_le_through {R : Finset ι} {P : ℚ → Bool} (hR : ∀ i ∈ R, ∃ t, ThroughAt K h i t ∧ P t = true) :
    R.card ≤ (h.filterMap (passed K)).countP P := by
  classical
  rw [List.countP_filterMap, List.countP_eq_length_filter]
  have hsub : R ⊆ ((h.filter fun s => ((passed K s).map P).getD false).map Step.thread).toFinset := by
    intro i hi
    obtain ⟨t, ⟨s, hs, hthread, ht⟩, hP⟩ := hR i hi
    refine List.mem_toFinset.mpr (List.mem_map.mpr ⟨s, List.mem_filter.mpr ⟨hs, ?_⟩, hthread⟩)
    rw [ht, Option.map_some, Option.getD_some]
    exact hP
  calc R.card ≤ _ := Finset.card_le_card hsub
    _ ≤ _ := List.toFinset_card_le _
    _ = _ := List.length_map _

/-- The reading of a step is in the check's own log. -/
theorem recalls_run {runs : RateBuckets → BucketCmd → Prop}
    (hr : Run (process K runs) (serving failThreshold resetTimeoutS redis key rpm) h p) (i : ι) :
    Recalls (log i h) (checking key rpm h i) := by
  refine Run.each process_meets (fun i => composed_obeys (key i) (rpm i)) (fun i => ?_) ?_ hr i
  · refine ⟨fun x hx => ?_, fun a ha => ?_, fun _ _ _ _ _ _ hmem => ?_, fun _ _ _ hmem => ?_⟩
    · cases hx
    · cases ha
    · cases hmem
    · cases hmem
  · exact fun t s w c a w' hrecalls hc _ => recalls_step hrecalls hc

/-- A check that ended was settled by whoever answered it. -/
theorem settles_run {runs : RateBuckets → BucketCmd → Prop}
    (hr : Run (process K runs) (serving failThreshold resetTimeoutS redis key rpm) h p) {i : ι} {o : Except Exn Unit}
    (ho : p.threads i = .ofExcept o) : Settles o (checking key rpm h i).phase :=
  (composed_obeys (key i) (rpm i)).ends (hr.ends ho) (hr.expected process_meets i)

/-- Only the in-memory limiter changes its buckets. -/
theorem answers_memory {runs : RateBuckets → BucketCmd → Prop} {c : limitersI.Cmd} {a : Except Exn (limitersI.Ans c)}
    (hc : ∀ key rpm, c ≠ .inr (.inr (.check key rpm))) (ha : (process K runs).answers w c a w') : w'.memory = w.memory := by
  cases c with
  | inl c =>
    obtain ⟨_, rfl⟩ := ha
    rfl
  | inr c =>
    cases c with
    | inl c =>
      cases c with
      | time =>
        obtain ⟨_, rfl⟩ := ha
        rfl
      | script name capacity rate now ttl =>
        rcases ha with ⟨_, _, rfl⟩ | ⟨_, rfl⟩
        · rfl
        · rfl
    | inr c => exact absurd rfl (hc c.1 c.2)

/-- A check was let through where Redis allowed it. -/
theorem through_of_allowed {i : ι} {capacity rate now ttl : ℚ} {x : Bool × ℚ}
    (hmem : ⟨.inr (.inl (.script (RedisRateLimiter.bucketName K) capacity rate now ttl)), .ok x⟩ ∈ log i h)
    (hx : x.1 = true) : ThroughAt K h i now := by
  obtain ⟨s, hs, hthread, hevent⟩ := mem_log.mp hmem
  refine ⟨s, hs, hthread, ?_⟩
  rw [passed, hevent]
  exact if_pos ⟨rfl, hx⟩

/-- A check that returned was let through by one of the limiters. -/
theorem through_of_returned {runs : RateBuckets → BucketCmd → Prop}
    (hr : Run (process K runs) (serving failThreshold resetTimeoutS redis key rpm) h p) {i : ι} (hi : key i = K)
    (hret : p.threads i = .ret ()) : ∃ t, ThroughAt K h i t := by
  have hsettles := settles_run hr (o := .ok ()) hret
  have hrecalls := recalls_run hr i
  have hkey : (checking key rpm h i).key = K := (own_run _ _).1.trans hi
  cases hphase : (checking key rpm h i).phase with
  | asking =>
    rw [hphase] at hsettles
    obtain ⟨e, he, _⟩ := hsettles
    cases he
  | primary x =>
    rw [hphase] at hsettles
    obtain ⟨now, hmem⟩ := hrecalls.primary x hphase
    rw [hkey] at hmem
    refine ⟨now, through_of_allowed hmem ?_⟩
    by_contra hno
    rw [Settles, RedisRateLimiter.heeded, if_neg hno] at hsettles
    cases hsettles
  | fallback a =>
    rw [hphase] at hsettles
    obtain ⟨rfl, _⟩ := hsettles
    obtain ⟨s, hs, hthread, hevent⟩ := mem_log.mp (hrecalls.fallback _ hphase)
    refine ⟨s.before.redis.now, s, hs, hthread, ?_⟩
    rw [passed, hevent]
    exact if_pos hkey

/-- Whatever Redis, the breaker and the scheduler do, the limiter is available, and it heeds the primary. -/
theorem unavailable_never {runs : RateBuckets → BucketCmd → Prop}
    (hr : Run (process K runs) (serving failThreshold resetTimeoutS redis key rpm) h p) {i : ι} {e : Exn}
    (he : p.threads i = .raise e) : e.isRateLimiterUnavailable = false := by
  have hsettles := settles_run hr (o := .error e) he
  cases hphase : (checking key rpm h i).phase with
  | asking =>
    rw [hphase] at hsettles
    obtain ⟨x, hx, hno⟩ := hsettles
    cases hx
    exact hno
  | primary x =>
    rw [hphase] at hsettles
    exact heeded_available hsettles.symm
  | fallback a =>
    rw [hphase] at hsettles
    exact hsettles.2 e hsettles.1.symm

theorem Metered.count_le {bucket : Option (Bucket ℚ)} (hm : Metered limit bucket A) {s e : ℚ} (hse : s ≤ e) :
    ((A.countP fun t => s ≤ t ∧ t ≤ e : Nat) : ℚ) ≤ limit + limit * (e - s) / 60 := by
  refine (hm.windowed s e hse).trans (le_of_eq ?_)
  ring

/-- What the primary answered is what the check ends in, and the fallback is not asked. -/
theorem primary_heeded {runs : RateBuckets → BucketCmd → Prop}
    (hr : Run (process K runs) (serving failThreshold resetTimeoutS redis key rpm) h p) {i : ι} {name : String}
    {capacity rate now ttl : ℚ} {x : Bool × ℚ}
    (hx : ⟨.inr (.inl (.script name capacity rate now ttl)), .ok x⟩ ∈ log i h) :
    (∀ o, p.threads i = .ofExcept o → o = RedisRateLimiter.heeded x) ∧
      ∀ s ∈ h, s.thread = i → ∀ runs w', (process K runs).answers s.before s.event.cmd s.event.answer w' →
        w'.memory = s.before.memory := by
  have hrecalls := recalls_run hr i
  have hphase := hrecalls.answered _ _ _ _ _ _ hx
  refine ⟨fun o ho => ?_, fun s hs hi runs w' ha => answers_memory (fun key rpm hc => ?_) ha⟩
  · have hsettles := settles_run hr ho
    rw [hphase] at hsettles
    exact hsettles
  · have hmem := mem_log.mpr ⟨s, hs, hi, rfl⟩
    obtain ⟨before, thread, cmd, a⟩ := s
    obtain rfl : cmd = _ := hc
    have hother := hrecalls.consulted _ _ _ hmem
    rw [hphase] at hother
    cases hother

/-- The checks of the key that were let through in a window. -/
theorem card_le_window (hr : Run (process K (Forward K)) (serving failThreshold resetTimeoutS redis key rpm) h p)
    (hlimit : 1 ≤ limit) (hrpm : ∀ i, key i = K → rpm i = limit)
    (hnew : redis.entries (RedisRateLimiter.bucketName K) = none) {R : Finset ι} {s T : ℚ} (hT : 0 ≤ T)
    (hR : ∀ i ∈ R, ∃ t, ThroughAt K h i t ∧ s ≤ t ∧ t ≤ s + T) : (R.card : ℚ) ≤ 2 * (limit + limit * T / 60) := by
  obtain ⟨⟨A, B, hch⟩, _⟩ := balanced_run hr hlimit hrpm hnew
  have hcard : R.card ≤ (A.countP fun t => s ≤ t ∧ t ≤ s + T) + B.countP fun t => s ≤ t ∧ t ≤ s + T := by
    refine (card_le_through fun i hi => ?_).trans (hch.through _)
    obtain ⟨t, hthrough, hs, ht⟩ := hR i hi
    exact ⟨t, hthrough, decide_eq_true ⟨hs, ht⟩⟩
  have hwindow : s ≤ s + T := le_add_of_nonneg_right hT
  have hredis := hch.redis.count_le hwindow
  have hmemory := hch.memory.count_le hwindow
  rw [add_sub_cancel_left] at hredis hmemory
  calc (R.card : ℚ) ≤ ((A.countP fun t => s ≤ t ∧ t ≤ s + T : Nat) : ℚ) + (B.countP fun t => s ≤ t ∧ t ≤ s + T : Nat) := by
        exact_mod_cast hcard
    _ ≤ 2 * (limit + limit * T / 60) := by linarith

end Runs

/-- A minute in, Redis having just written this bucket. -/
def minuteIn (b : Bucket ℚ) : Process :=
  ⟨.new 5 30, (⟨60, fun _ => none⟩ : RateBuckets).write (RedisRateLimiter.bucketName ⟨7⟩) b RedisRateLimiter.ttlS, .new, []⟩

theorem minuteIn_script {b b' : Bucket ℚ} {now : ℚ} {x : Bool × ℚ}
    (hlua : tokenBucketLua (1 : Nat) ((1 : Nat) / 60) now (some b) = (x, b')) :
    (process ⟨7⟩ fun _ _ => True).answers (minuteIn b)
      (.inr (.inl (.script (RedisRateLimiter.bucketName ⟨7⟩) (1 : Nat) ((1 : Nat) / 60) now RedisRateLimiter.ttlS))) (.ok x)
      (minuteIn b') := by
  have hread : (minuteIn b).redis.read (RedisRateLimiter.bucketName ⟨7⟩) = some b := by
    refine (Expiring.Waits.refl _).kept ?_
    show (60 : ℚ) < 60 + 120
    norm_num
  refine .inl ⟨trivial, ?_, ?_⟩
  · rw [RateBuckets.exec, hread, hlua]
  · rw [RateBuckets.exec, hread, hlua, minuteIn, minuteIn, Expiring.write_write]

end ResilientRateLimiter
end Relayix
