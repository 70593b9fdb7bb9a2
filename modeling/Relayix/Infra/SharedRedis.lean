import Relayix.Infra.RateLimit.Composed
import Relayix.Library.Projection
import Relayix.Services.IdempotencyTenants

/-! The Redis of a process (`main.py`, `infra/ratelimit/redis_client.py`).

The limiter and the idempotency store are given one client, so they share one keyspace: a key holds
a hash or a string, and a command that finds the other kind is answered `WRONGTYPE`. The names keep
them apart. `sharedWorld` is a process with this Redis and `apartWorld` the same with a Redis for
each; nobody who uses the names of the store and of the limiter can tell which of them it is in. -/
namespace Relayix
open Library

/-- The value of a key. -/
inductive Stored where
  | string (record : Record)
  | hash (bucket : Bucket ℚ)

def Stored.record? : Stored → Option Record
  | .string record => some record
  | .hash _ => none

def Stored.bucket? : Stored → Option (Bucket ℚ)
  | .string _ => none
  | .hash bucket => some bucket

theorem Stored.eq_string {v : Stored} (h : v.bucket? = none) : ∃ record, v = .string record := by
  cases v with
  | string record => exact ⟨record, rfl⟩
  | hash bucket => cases h

theorem Stored.eq_hash {v : Stored} (h : v.record? = none) : ∃ bucket, v = .hash bucket := by
  cases v with
  | string record => cases h
  | hash bucket => exact ⟨bucket, rfl⟩

abbrev SharedRedis := Expiring String Stored

def wrongType : Exn := .redisError "WRONGTYPE Operation against a key holding the wrong kind of value"

namespace SharedRedis

/-- A command of the store. `SET` and `DEL` take a key of either kind. -/
def exec (w : SharedRedis) : (c : RedisCmd) → Except Exn (redisI.Ans c) × SharedRedis
  | .set name value nx ex =>
    if ex ≤ 0 then (.error invalidExpire, w)
    else if nx && (w.read name).isSome then (.ok false, w)
    else (.ok true, w.write name (.string value) ex)
  | .get name =>
    match w.read name with
    | none => (.ok none, w)
    | some (.string record) => (.ok (some record), w)
    | some (.hash _) => (.error wrongType, w)
  | .delete name => (.ok (if (w.read name).isSome then 1 else 0), w.erase name)

/-- A command of the limiter. The script ends at its `HMGET` where that raises. -/
def run (w : SharedRedis) : (c : BucketCmd) → Except Exn (bucketI.Ans c) × SharedRedis
  | .time => (.ok w.now, w)
  | .script name capacity rate now ttl =>
    match w.read name with
    | none => (.ok (tokenBucketLua capacity rate now none).1, w.write name (.hash (tokenBucketLua capacity rate now none).2) ttl)
    | some (.hash b) =>
      (.ok (tokenBucketLua capacity rate now (some b)).1, w.write name (.hash (tokenBucketLua capacity rate now (some b)).2) ttl)
    | some (.string _) => (.error wrongType, w)

/-- What the store has there, and what the limiter has. -/
abbrev records (w : SharedRedis) : Redis := w.narrow Stored.record?
abbrev buckets (w : SharedRedis) : RateBuckets := w.narrow Stored.bucket?

/-- The names of records hold no bucket, and those of buckets no record. -/
structure Typed (w : SharedRedis) : Prop where
  records : ∀ slot : Slot, w.buckets.entries slot.name = none
  buckets : ∀ key : UUID, w.records.entries (RedisRateLimiter.bucketName key) = none

/-! ### Names -/

theorem slot_name_ne (slot : Slot) (key : UUID) : slot.name ≠ RedisRateLimiter.bucketName key := by
  intro h
  have hlist := congrArg String.toList h
  simp only [Slot.name, redisKey, RedisRateLimiter.bucketName, String.toList_append] at hlist
  exact absurd (congrArg List.head? hlist) (by simp)

section Commands
variable {w : SharedRedis}

/-- Under the name of a record there is a record, or nothing. -/
theorem read_record (h : w.Typed) (slot : Slot) : w.read slot.name = (w.records.read slot.name).map .string := by
  rw [Expiring.narrow_read]
  cases hread : w.read slot.name with
  | none => rfl
  | some v =>
    obtain ⟨record, rfl⟩ := Stored.eq_string (Expiring.read_not_of_kind (h.records slot) hread)
    rfl

theorem read_bucket (h : w.Typed) (key : UUID) :
    w.read (RedisRateLimiter.bucketName key) = (w.buckets.read (RedisRateLimiter.bucketName key)).map .hash := by
  rw [Expiring.narrow_read]
  cases hread : w.read (RedisRateLimiter.bucketName key) with
  | none => rfl
  | some v =>
    obtain ⟨bucket, rfl⟩ := Stored.eq_hash (Expiring.read_not_of_kind (h.buckets key) hread)
    rfl

/-- The store finds its own Redis, and leaves the limiter's as it was. -/
theorem exec_apart (h : w.Typed) {c : RedisCmd} {slot : Slot} (hc : c.name = slot.name) :
    (w.exec c).1 = (w.records.exec c).1 ∧ (w.exec c).2.records = (w.records.exec c).2 ∧
      (w.exec c).2.buckets = w.buckets := by
  have hread := read_record h slot
  cases c with
  | set name value nx ex =>
    obtain rfl : name = slot.name := hc
    have hseen : (w.read slot.name).isSome = (w.records.read slot.name).isSome := by rw [hread, Option.isSome_map]
    simp only [exec, Redis.exec, hseen]
    by_cases hex : ex ≤ 0
    · simp only [if_pos hex, and_self]
    · simp only [if_neg hex]
      by_cases hnx : (nx && (w.records.read slot.name).isSome) = true
      · simp only [if_pos hnx, and_self]
      · simp only [if_neg hnx]
        exact ⟨trivial, Expiring.narrow_write_of_kind rfl, Expiring.narrow_write_of_other rfl (h.records slot)⟩
  | get name =>
    obtain rfl : name = slot.name := hc
    simp only [exec, Redis.exec, hread]
    cases w.records.read slot.name with
    | none => exact ⟨rfl, rfl, rfl⟩
    | some record => exact ⟨rfl, rfl, rfl⟩
  | delete name =>
    obtain rfl : name = slot.name := hc
    simp only [exec, Redis.exec, hread, Option.isSome_map]
    exact ⟨trivial, Expiring.narrow_erase, Expiring.narrow_erase.trans (Expiring.erase_of_none (h.records slot))⟩

/-- A claim that finds something is refused, and a record that is there is read. -/
theorem exec_refused {name : String} {record : Record} {v : Stored} {ttl : Int} (h : w.read name = some v)
    (httl : 0 < ttl) : w.exec (.set name record true ttl) = (.ok false, w) := by
  simp [exec, h, not_le.mpr httl]

theorem exec_read {name : String} {record : Record} (h : w.read name = some (.string record)) :
    w.exec (.get name) = (.ok (some record), w) := by
  simp [exec, h]

end Commands
end SharedRedis

/-- A command on a bucket. -/
def OfBucket : BucketCmd → Prop
  | .time => True
  | .script name _ _ _ _ => ∃ key, name = RedisRateLimiter.bucketName key

namespace SharedRedis
variable {w : SharedRedis}

/-- The limiter finds its own Redis, and leaves the store's as it was. -/
theorem run_apart (h : w.Typed) {c : BucketCmd} (hc : OfBucket c) :
    (w.run c).1 = (w.buckets.exec c).1 ∧ (w.run c).2.buckets = (w.buckets.exec c).2 ∧ (w.run c).2.records = w.records := by
  cases c with
  | time => exact ⟨rfl, rfl, rfl⟩
  | script name capacity rate now ttl =>
    obtain ⟨key, rfl⟩ := hc
    simp only [run, RateBuckets.exec, read_bucket h key]
    cases w.buckets.read (RedisRateLimiter.bucketName key) with
    | none =>
      exact ⟨rfl, Expiring.narrow_write_of_kind rfl, Expiring.narrow_write_of_other rfl (h.buckets key)⟩
    | some bucket =>
      exact ⟨rfl, Expiring.narrow_write_of_kind rfl, Expiring.narrow_write_of_other rfl (h.buckets key)⟩

theorem typed_exec (h : w.Typed) {c : RedisCmd} {slot : Slot} (hc : c.name = slot.name) : (w.exec c).2.Typed := by
  obtain ⟨_, hrecords, hbuckets⟩ := exec_apart h hc
  refine ⟨fun slot' => ?_, fun key => ?_⟩
  · rw [hbuckets]
    exact h.records slot'
  · rw [hrecords, exec_entries_ne (hc ▸ (slot_name_ne slot key).symm)]
    exact h.buckets key

theorem buckets_entries_ne {v : RateBuckets} {c : BucketCmd} (hc : OfBucket c) (slot : Slot) :
    (v.exec c).2.entries slot.name = v.entries slot.name := by
  cases c with
  | time => rfl
  | script name capacity rate now ttl =>
    obtain ⟨key, rfl⟩ := hc
    exact Expiring.write_entries_ne (slot_name_ne slot key)

theorem typed_run (h : w.Typed) {c : BucketCmd} (hc : OfBucket c) : (w.run c).2.Typed := by
  obtain ⟨_, hbuckets, hrecords⟩ := run_apart h hc
  refine ⟨fun slot => ?_, fun key => ?_⟩
  · rw [hbuckets, buckets_entries_ne hc]
    exact h.records slot
  · rw [hrecords]
    exact h.buckets key

theorem typed_waits (h : w.Typed) {w' : SharedRedis} (hw : Expiring.Waits w w') : w'.Typed := by
  refine ⟨fun slot => ?_, fun key => ?_⟩
  · rw [buckets, hw.narrow.entries]
    exact h.records slot
  · rw [records, hw.narrow.entries]
    exact h.buckets key

theorem typed_empty (now : ℚ) : SharedRedis.Typed ⟨now, fun _ => none⟩ := ⟨fun _ => rfl, fun _ => rfl⟩

end SharedRedis

/-! ### A process -/

/-- A process, its Redis with it. There is one clock, the one that Redis has. -/
structure Worker where
  breaker : CircuitBreaker
  redis : SharedRedis
  memory : InMemoryRateLimiter
  /-- the scripts that were sent and not answered -/
  lost : List BucketCmd

namespace Worker

/-- What the limiter has of the process. -/
def limiters (w : Worker) : ResilientRateLimiter.Process := ⟨w.breaker, w.redis.buckets, w.memory, w.lost⟩

/-- The process with a Redis for each. -/
def apart (w : Worker) : ResilientRateLimiter.Process × Redis := (w.limiters, w.redis.records)

theorem apart_eq {w : Worker} {x : ResilientRateLimiter.Process × Redis} (hlimiters : x.1 = w.limiters)
    (hrecords : x.2 = w.redis.records) : w.apart = x := (Prod.ext hlimiters hrecords).symm

structure Proper (w : Worker) : Prop where
  typed : w.redis.Typed
  lost : ∀ c ∈ w.lost, OfBucket c

end Worker

section Worlds
variable (runs : RateBuckets → BucketCmd → Prop) (J : Interface)

/-- A process and its Redis, among other surroundings `J`. A script runs where `runs` lets it, or its
reply is lost; a command of the store runs, or it fails and Redis ran it or did not. -/
def sharedWorld : World (limitersI.sum (redisI.sum J)) Exn Worker where
  answers
    | w, .inl (.inl c), a, w' => a = .ok (w.breaker.exec w.redis.now c).1 ∧
        w' = { w with breaker := (w.breaker.exec w.redis.now c).2 }
    | w, .inl (.inr (.inl .time)), a, w' => a = .ok w.redis.now ∧ w' = w
    | w, .inl (.inr (.inl (.script name capacity rate now ttl))), a, w' =>
        (runs w.redis.buckets (.script name capacity rate now ttl) ∧ a = (w.redis.run (.script name capacity rate now ttl)).1 ∧
          w' = { w with redis := (w.redis.run (.script name capacity rate now ttl)).2 }) ∨
        ((∃ e, a = .error e) ∧ w' = { w with lost := .script name capacity rate now ttl :: w.lost })
    | w, .inl (.inr (.inr (.check key rpm))), a, w' => a = (w.memory.check ⟨key, rpm, w.redis.now⟩).1 ∧
        w' = { w with memory := (w.memory.check ⟨key, rpm, w.redis.now⟩).2 }
    | w, .inr (.inl c), a, w' => (a = (w.redis.exec c).1 ∧ w' = { w with redis := (w.redis.exec c).2 }) ∨
        ∃ e, a = .error e ∧ (w' = w ∨ w' = { w with redis := (w.redis.exec c).2 })
    | w, .inr (.inr _), _, w' => w' = w
  elapses w w' :=
    (∃ now, w.redis.now ≤ now ∧ w' = { w with redis := { w.redis with now := now } }) ∨
    -- a lost script runs after all
    ∃ c ∈ w.lost, runs w.redis.buckets c ∧ w' = { w with redis := (w.redis.run c).2, lost := w.lost.erase c }

/-- The same with two of them, which have one clock. -/
def apartWorld : World (limitersI.sum (redisI.sum J)) Exn (ResilientRateLimiter.Process × Redis) where
  answers
    -- the limiters are those of any key
    | x, .inl c, a, x' => (ResilientRateLimiter.process ⟨0⟩ runs).answers x.1 c a x'.1 ∧ x'.2 = x.2
    | x, .inr c, a, x' => (served J).answers x.2 c a x'.2 ∧ x'.1 = x.1
  elapses x x' :=
    (∃ now, x.1.redis.now ≤ now ∧ x.2.now ≤ now ∧
      x' = ({ x.1 with redis := { x.1.redis with now := now } }, { x.2 with now := now })) ∨
    ∃ c ∈ x.1.lost, runs x.1.redis c ∧
      x' = ({ x.1 with redis := (x.1.redis.exec c).2, lost := x.1.lost.erase c }, x.2)

/-- The commands that have the names of the limiter and of the store. -/
def WellNamed : (limitersI.sum (redisI.sum J)).Cmd → Prop
  | .inl (.inr (.inl c)) => OfBucket c
  | .inr (.inl c) => ∃ slot : Slot, c.name = slot.name
  | _ => True

/-- A check has the names of the limiter. -/
theorem composed_wellNamed (key : UUID) (rpm : Nat) :
    (ResilientRateLimiter.composed key rpm).Asks fun c => WellNamed J (.inl c) := by
  have primary : ∀ key rpm, (RedisRateLimiter.check key rpm).Asks OfBucket := by
    intro key rpm
    refine Prog.Asks.bind (Prog.Asks.perform trivial) fun now => ?_
    have script : (@Prog.perform bucketI Exn (.script (RedisRateLimiter.bucketName key) rpm (rpm / 60) now
        RedisRateLimiter.ttlS)).Asks OfBucket := Prog.Asks.perform ⟨key, rfl⟩
    refine (script.tryExcept fun e => ?_).bind fun x => ?_
    · split <;> trivial
    · dsimp only
      split <;> trivial
  refine Prog.Obeys.via (fun c _ => ?_) _ ()
  match c with
  | .inl c => exact Prog.Asks.perform trivial
  | .inr (.primary key' rpm') =>
    exact Prog.Asks.inr (Prog.Asks.inl ((primary key' rpm').imp fun c hc => hc))
  | .inr (.fallback key' rpm') => exact Prog.Asks.perform trivial

end Worlds

section Steps
variable {runs : RateBuckets → BucketCmd → Prop} {J : Interface} {w w' : Worker} {c : (limitersI.sum (redisI.sum J)).Cmd}
  {a : Except Exn ((limitersI.sum (redisI.sum J)).Ans c)} {x' : ResilientRateLimiter.Process × Redis}

/-- A command answered by one Redis is answered so by two. -/
theorem apart_of_shared (hw : w.Proper) (hc : WellNamed J c) (h : (sharedWorld runs J).answers w c a w') :
    w'.Proper ∧ (apartWorld runs J).answers w.apart c a w'.apart := by
  match c, a, hc, h with
  | .inl (.inl c), a, _, h =>
    obtain ⟨rfl, rfl⟩ := h
    exact ⟨⟨hw.typed, hw.lost⟩, ⟨rfl, rfl⟩, rfl⟩
  | .inl (.inr (.inl .time)), a, _, h =>
    obtain ⟨rfl, rfl⟩ := h
    exact ⟨hw, ⟨rfl, rfl⟩, rfl⟩
  | .inl (.inr (.inl (.script name capacity rate now ttl))), a, hc, h =>
    have hc : OfBucket (.script name capacity rate now ttl) := hc
    obtain ⟨hanswer, hbuckets, hrecords⟩ := SharedRedis.run_apart hw.typed hc
    rcases h with ⟨hruns, rfl, rfl⟩ | ⟨hlost, rfl⟩
    · refine ⟨⟨SharedRedis.typed_run hw.typed hc, hw.lost⟩, .inl ⟨hruns, hanswer, ?_⟩, hrecords⟩
      exact congrArg (fun redis => (⟨w.breaker, redis, w.memory, w.lost⟩ : ResilientRateLimiter.Process)) hbuckets
    · exact ⟨⟨hw.typed, List.forall_mem_cons.mpr ⟨hc, hw.lost⟩⟩, .inr ⟨hlost, rfl⟩, rfl⟩
  | .inl (.inr (.inr (.check key rpm))), a, _, h =>
    obtain ⟨rfl, rfl⟩ := h
    exact ⟨⟨hw.typed, hw.lost⟩, ⟨rfl, rfl⟩, rfl⟩
  | .inr (.inl c), a, ⟨slot, hc⟩, h =>
    obtain ⟨hanswer, hrecords, hbuckets⟩ := SharedRedis.exec_apart hw.typed hc
    have hlimiters : ({ w with redis := (w.redis.exec c).2 } : Worker).limiters = w.limiters :=
      congrArg (fun redis => (⟨w.breaker, redis, w.memory, w.lost⟩ : ResilientRateLimiter.Process)) hbuckets
    have hran : ({ w with redis := (w.redis.exec c).2 } : Worker).Proper := ⟨SharedRedis.typed_exec hw.typed hc, hw.lost⟩
    rcases h with ⟨rfl, rfl⟩ | ⟨e, rfl, rfl | rfl⟩
    · exact ⟨hran, .inl (Prod.ext hanswer hrecords), hlimiters⟩
    · exact ⟨hw, .inr ⟨e, rfl, .inl rfl⟩, rfl⟩
    · exact ⟨hran, .inr ⟨e, rfl, .inr hrecords⟩, hlimiters⟩
  | .inr (.inr c), a, _, h =>
    obtain rfl : w' = w := h
    exact ⟨hw, rfl, rfl⟩

theorem apart_of_shared_elapses (hw : w.Proper) (h : (sharedWorld runs J).elapses w w') :
    w'.Proper ∧ (apartWorld runs J).elapses w.apart w'.apart := by
  rcases h with ⟨now, hnow, rfl⟩ | ⟨c, hc, hruns, rfl⟩
  · exact ⟨⟨SharedRedis.typed_waits hw.typed ⟨hnow, rfl⟩, hw.lost⟩, .inl ⟨now, hnow, hnow, rfl⟩⟩
  · have hof := hw.lost c hc
    obtain ⟨_, hbuckets, hrecords⟩ := SharedRedis.run_apart hw.typed hof
    refine ⟨⟨SharedRedis.typed_run hw.typed hof, fun c' hc' => hw.lost c' (List.mem_of_mem_erase hc')⟩, .inr ⟨c, hc, hruns, ?_⟩⟩
    exact Prod.ext (congrArg (fun redis => (⟨w.breaker, redis, w.memory, w.lost.erase c⟩ : ResilientRateLimiter.Process)) hbuckets)
      hrecords

/-- A command answered by two is answered so by one. -/
theorem shared_of_apart (hw : w.Proper) (hc : WellNamed J c) (h : (apartWorld runs J).answers w.apart c a x') :
    ∃ w', (sharedWorld runs J).answers w c a w' ∧ w'.apart = x' := by
  match c, a, hc, h with
  | .inl (.inl c), a, _, ⟨⟨ha, hlimiters⟩, hrecords⟩ =>
    exact ⟨{ w with breaker := (w.breaker.exec w.redis.now c).2 }, ⟨ha, rfl⟩, Worker.apart_eq hlimiters hrecords⟩
  | .inl (.inr (.inl .time)), a, _, ⟨⟨ha, hlimiters⟩, hrecords⟩ => exact ⟨w, ⟨ha, rfl⟩, Worker.apart_eq hlimiters hrecords⟩
  | .inl (.inr (.inl (.script name capacity rate now ttl))), a, hc, ⟨h, hrecords⟩ =>
    have hc : OfBucket (.script name capacity rate now ttl) := hc
    obtain ⟨hanswer, hbuckets, hkept⟩ := SharedRedis.run_apart hw.typed hc
    rcases h with ⟨hruns, ha, hlimiters⟩ | ⟨hlost, hlimiters⟩
    · refine ⟨{ w with redis := (w.redis.run (.script name capacity rate now ttl)).2 }, .inl ⟨hruns, ha.trans hanswer.symm, rfl⟩, ?_⟩
      refine Worker.apart_eq (hlimiters.trans ?_) (hrecords.trans hkept.symm)
      exact congrArg (fun redis => (⟨w.breaker, redis, w.memory, w.lost⟩ : ResilientRateLimiter.Process)) hbuckets.symm
    · exact ⟨{ w with lost := .script name capacity rate now ttl :: w.lost }, .inr ⟨hlost, rfl⟩, Worker.apart_eq hlimiters hrecords⟩
  | .inl (.inr (.inr (.check key rpm))), a, _, ⟨⟨ha, hlimiters⟩, hrecords⟩ =>
    exact ⟨{ w with memory := (w.memory.check ⟨key, rpm, w.redis.now⟩).2 }, ⟨ha, rfl⟩, Worker.apart_eq hlimiters hrecords⟩
  | .inr (.inl c), a, ⟨slot, hc⟩, ⟨h, hlimiters⟩ =>
    obtain ⟨hanswer, hkept, hbuckets⟩ := SharedRedis.exec_apart hw.typed hc
    have hran : ({ w with redis := (w.redis.exec c).2 } : Worker).limiters = w.limiters :=
      congrArg (fun redis => (⟨w.breaker, redis, w.memory, w.lost⟩ : ResilientRateLimiter.Process)) hbuckets
    rcases h with h | ⟨e, ha, hrecords | hrecords⟩
    · refine ⟨_, .inl ⟨(congrArg Prod.fst h).trans hanswer.symm, rfl⟩, Worker.apart_eq (hlimiters.trans hran.symm) ?_⟩
      exact (congrArg Prod.snd h).trans hkept.symm
    · exact ⟨w, .inr ⟨e, ha, .inl rfl⟩, Worker.apart_eq hlimiters hrecords⟩
    · exact ⟨_, .inr ⟨e, ha, .inr rfl⟩, Worker.apart_eq (hlimiters.trans hran.symm) (hrecords.trans hkept.symm)⟩
  | .inr (.inr c), a, _, ⟨hrecords, hlimiters⟩ => exact ⟨w, rfl, Worker.apart_eq hlimiters hrecords⟩

theorem shared_of_apart_elapses (hw : w.Proper) (h : (apartWorld runs J).elapses w.apart x') :
    ∃ w', (sharedWorld runs J).elapses w w' ∧ w'.apart = x' := by
  rcases h with ⟨now, hnow, _, rfl⟩ | ⟨c, hc, hruns, rfl⟩
  · exact ⟨{ w with redis := { w.redis with now := now } }, .inl ⟨now, hnow, rfl⟩, rfl⟩
  · obtain ⟨_, hbuckets, hrecords⟩ := SharedRedis.run_apart hw.typed (hw.lost c hc)
    refine ⟨_, .inr ⟨c, hc, hruns, rfl⟩, Prod.ext ?_ hrecords⟩
    exact congrArg (fun redis => (⟨w.breaker, redis, w.memory, w.lost.erase c⟩ : ResilientRateLimiter.Process)) hbuckets

/-! ### Every run -/

/-- Nobody asks beside them. -/
def nothing : (limitersI.sum (redisI.sum J)).Cmd → Prop := fun _ => False

def sharedSimulation (runs : RateBuckets → BucketCmd → Prop) (J : Interface) :
    Simulation (sharedWorld runs J) (apartWorld runs J) (WellNamed J) nothing where
  same w x := w.Proper ∧ x = w.apart
  within := by
    rintro w _ w' c a hc ⟨hw, rfl⟩ ha
    obtain ⟨hw', ha'⟩ := apart_of_shared hw hc ha
    exact ⟨w'.apart, ha', hw', rfl⟩
  beside hc := absurd hc id
  elapses := by
    rintro w _ w' ⟨hw, rfl⟩ he
    obtain ⟨hw', he'⟩ := apart_of_shared_elapses hw he
    exact ⟨w'.apart, he', hw', rfl⟩

def apartSimulation (runs : RateBuckets → BucketCmd → Prop) (J : Interface) :
    Simulation (apartWorld runs J) (sharedWorld runs J) (WellNamed J) nothing where
  same x w := w.Proper ∧ x = w.apart
  within := by
    rintro _ w x' c a hc ⟨hw, rfl⟩ ha
    obtain ⟨w', ha', rfl⟩ := shared_of_apart hw hc ha
    exact ⟨w', ha', (apart_of_shared hw hc ha').1, rfl⟩
  beside hc := absurd hc id
  elapses := by
    rintro _ w x' ⟨hw, rfl⟩ he
    obtain ⟨w', he', rfl⟩ := shared_of_apart_elapses hw he
    exact ⟨w', he', (apart_of_shared_elapses hw he').1, rfl⟩

end Steps

section Runs
variable {runs : RateBuckets → BucketCmd → Prop} {J : Interface} {ι : Type} [DecidableEq ι]
  {start : Pool (limitersI.sum (redisI.sum J)) Exn ι Worker}

/-- **One Redis is as good as two.** Whoever uses the names of the store and of the limiter is told the
same by one, and the same threads come to the same point. -/
theorem shared_iff_apart (hasks : ∀ i, (start.threads i).Asks (WellNamed J)) (hproper : start.world.Proper)
    (events : List (ι × Event (limitersI.sum (redisI.sum J)) Exn)) (threads : ι → Prog (limitersI.sum (redisI.sum J)) Exn Unit) :
    (∃ h w, Run (sharedWorld runs J) start h ⟨w, threads⟩ ∧ told h = events) ↔
      ∃ h x, Run (apartWorld runs J) ⟨start.world.apart, start.threads⟩ h ⟨x, threads⟩ ∧ told h = events := by
  constructor
  · rintro ⟨h, w, hr, rfl⟩
    obtain ⟨h₁, ⟨x, _⟩, hr₁, halike, _, rfl⟩ := hr.simulated (sharedSimulation runs J) hasks ⟨hproper, rfl⟩
    exact ⟨h₁, x, hr₁, Simulation.told_eq halike⟩
  · rintro ⟨h, x, hr, rfl⟩
    obtain ⟨h₁, ⟨w, _⟩, hr₁, halike, _, rfl⟩ := hr.simulated (apartSimulation runs J) hasks ⟨hproper, rfl⟩
    exact ⟨h₁, w, hr₁, Simulation.told_eq halike⟩

end Runs

/-! ### On one process -/

/-- One thread checks a limit, another drops a record. -/
def trialThreads : Bool → Prog (limitersI.sum (redisI.sum Interface.silent)) Exn Unit
  | true => (ResilientRateLimiter.composed ⟨7⟩ 60).inl
  | false => (RedisIdempotencyStore.release ⟨7⟩ "k1").inl.inr

abbrev trialWorker : Worker := ⟨.new 5 30, ⟨0, fun _ => none⟩, .new, []⟩

theorem trialThreads_wellNamed (i : Bool) : (trialThreads i).Asks (WellNamed Interface.silent) := by
  cases i with
  | true => exact Prog.Asks.inl (composed_wellNamed _ _ _)
  | false =>
    refine Prog.Asks.inr (Prog.Asks.inl ?_)
    refine Prog.Asks.tryExcept (Prog.Asks.bind (Prog.Asks.perform ⟨⟨⟨7⟩, "k1"⟩, rfl⟩) fun _ => trivial) fun e => ?_
    split <;> trivial

/-- What two answer, one answers. -/
theorem shared_iff_apart_trial : ∃ (h : List (Step (limitersI.sum (redisI.sum Interface.silent)) Exn Bool Worker)) (w : Worker)
    (threads : Bool → Prog (limitersI.sum (redisI.sum Interface.silent)) Exn Unit),
    Run (sharedWorld (fun _ _ => True) Interface.silent) ⟨trialWorker, trialThreads⟩ h ⟨w, threads⟩ ∧
      told h = [(true, ⟨.inl (.inl .allow), .ok (true, 0)⟩), (false, ⟨.inr (.inl (.delete (redisKey ⟨7⟩ "k1"))), .ok 0⟩),
        (true, ⟨.inl (.inr (.inl .time)), .ok 0⟩)] := by
  have r₀ : Run (apartWorld (fun _ _ => True) Interface.silent) ⟨trialWorker.apart, trialThreads⟩ [] _ := .start
  have r₁ := r₀.answer true rfl (.ok (true, 0)) trialWorker.apart ⟨⟨rfl, rfl⟩, rfl⟩
  have r₂ := r₁.answer false rfl (.ok 0) (trialWorker.limiters, _) ⟨.inl rfl, rfl⟩
  have r₃ := r₂.answer true rfl (.ok 0) (trialWorker.limiters, _) ⟨⟨rfl, rfl⟩, rfl⟩
  have hproper : Worker.Proper trialWorker := ⟨SharedRedis.typed_empty 0, fun c hc => absurd hc List.not_mem_nil⟩
  obtain ⟨h, w, hr, htold⟩ := (@shared_iff_apart (fun _ _ => True) Interface.silent Bool _ ⟨trialWorker, trialThreads⟩
    trialThreads_wellNamed hproper _ _).mpr ⟨_, _, r₃, rfl⟩
  exact ⟨h, w, _, hr, htold⟩

end Relayix
