import Relayix.Core.Exceptions
import Relayix.Library.Expiring
import Relayix.Library.Pool

/-! The idempotency records in Redis (`infra/idempotency/redis_store.py`,
`models/domain/idempotency.py`).

A record is the JSON object that the store writes and reads back; `json.loads` undoes
`json.dumps` on it, so Redis keeps the record itself. The four methods are programs
over single Redis commands, and `Redis.exec` is what one command does. `served` is the
server as a client sees it: a command may also fail, whether or not Redis ran it. -/
namespace Relayix
open Library

/-- What `IdempotencyService._serialize` puts into a record. -/
structure ResponseBody where
  provider : String
  model : String
  content : String
  tokensIn : Int
  tokensOut : Int
  finishReason : String
  requestId : String
  deriving DecidableEq, Repr

structure Record where
  status : String
  fingerprint : String
  response : Option ResponseBody
  error : Option String := none
  deriving DecidableEq, Repr

inductive RedisCmd where
  | set (name : String) (value : Record) (nx : Bool) (ex : Int)
  | get (name : String)
  | delete (name : String)
  deriving DecidableEq

/-- The key that a command is about. -/
def RedisCmd.name : RedisCmd → String
  | .set name _ _ _ => name
  | .get name => name
  | .delete name => name

@[reducible] def redisI : Interface where
  Cmd := RedisCmd
  Ans
    | .set _ _ _ _ => Bool
    | .get _ => Option Record
    | .delete _ => Nat

/-- The commands on one key, and everything that is no store command. -/
def Named (J : Interface) (name : String) : (redisI.sum J).Cmd → Prop
  | .inl c => c.name = name
  | .inr _ => True

abbrev Redis := Expiring String Record

def invalidExpire : Exn := .redisError "invalid expire time in 'set' command"

/-- One command, as Redis runs it. -/
def Redis.exec (w : Redis) : (c : RedisCmd) → Except Exn (redisI.Ans c) × Redis
  | .set name value nx ex =>
    if ex ≤ 0 then (.error invalidExpire, w)
    else if nx && (w.read name).isSome then (.ok false, w)
    else (.ok true, w.write name value ex)
  | .get name => (.ok (w.read name), w)
  | .delete name => (.ok (if (w.read name).isSome then 1 else 0), w.erase name)

/-- What a `SET` does. -/
theorem Redis.exec_set (w : Redis) (name : String) (value : Record) (nx : Bool) (ex : Int) :
    w.exec (.set name value nx ex) = (.error invalidExpire, w) ∨ w.exec (.set name value nx ex) = (.ok false, w) ∨
      ((nx = true → w.find name = none) ∧ w.exec (.set name value nx ex) = (.ok true, w.write name value ex)) := by
  unfold Redis.exec
  by_cases hex : ex ≤ 0
  · exact .inl (if_pos hex)
  · simp only [if_neg hex]
    by_cases hseen : (nx && (w.read name).isSome) = true
    · exact .inr (.inl (if_pos hseen))
    · refine .inr (.inr ⟨fun hnx => ?_, if_neg hseen⟩)
      rw [hnx, Bool.true_and] at hseen
      exact Expiring.read_eq_none.mp (Option.not_isSome_iff_eq_none.mp hseen)

def idempotencyStoreUnavailable : Exn :=
  .idempotencyStoreUnavailable "Idempotency store is unavailable, retry the request"

/-- `ReservationOutcome` -/
structure ReservationOutcome where
  acquired : Bool
  status : Option String := none
  requestFingerprint : Option String := none
  responseBody : Option ResponseBody := none
  error : Option String := none
  deriving DecidableEq

def reserveAttempts : Nat := 3

structure RedisIdempotencyStore where
  /-- lock lifetime while the original request runs -/
  inflightTtlS : Int
  /-- how long a completed response stays replayable -/
  completedTtlS : Int

/-- The records that the store writes. -/
def Record.claimed (fingerprint : String) : Record :=
  ⟨IdempotencyStatus.inProgress.value, fingerprint, none, none⟩

def Record.completed (fingerprint : String) (responseBody : ResponseBody) : Record :=
  ⟨IdempotencyStatus.completed.value, fingerprint, some responseBody, none⟩

def Record.parked (fingerprint error : String) : Record :=
  ⟨IdempotencyStatus.ambiguous.value, fingerprint, none, some error⟩

/-- `_key`: the same key from two tenants stays independent. -/
def redisKey (apiKeyId : UUID) (key : String) : String := "idem:" ++ apiKeyId.str ++ ":" ++ key

namespace RedisIdempotencyStore
variable (self : RedisIdempotencyStore) (apiKeyId : UUID) (key fingerprint : String)

/-- The loop of `reserve`; `none` when every attempt lost its race to expiry. -/
def tryReserve : Nat → Prog redisI Exn (Option ReservationOutcome)
  | 0 => pure none
  | attempts + 1 => do
    let acquired ← @Prog.perform redisI Exn
      (.set (redisKey apiKeyId key) (.claimed fingerprint) true self.inflightTtlS)
    if acquired then pure (some { acquired := true })
    else
      match ← @Prog.perform redisI Exn (.get (redisKey apiKeyId key)) with
      | none => tryReserve attempts
      | some existing =>
        pure (some
          { acquired := false
            status := some existing.status
            requestFingerprint := some existing.fingerprint
            responseBody := existing.response
            error := existing.error })

def reserve : Prog redisI Exn ReservationOutcome := do
  let outcome ← (self.tryReserve apiKeyId key fingerprint reserveAttempts).tryExcept fun e =>
    if e.isStoreFailure then .raise idempotencyStoreUnavailable else .raise e
  match outcome with
  | some outcome => pure outcome
  | none => .raise idempotencyStoreUnavailable

/-- A `SET` of the record that ends the claim, with the longer retention. -/
def keep (record : Record) : Prog redisI Exn Unit := do
  let _ ← @Prog.perform redisI Exn
    (.set (redisKey apiKeyId key) record false self.completedTtlS)

def complete (responseBody : ResponseBody) : Prog redisI Exn Unit :=
  (self.keep apiKeyId key (.completed fingerprint responseBody)).tryExcept fun e =>
    if e.isStoreFailure then .raise idempotencyStoreUnavailable else .raise e

/-- Best effort: a store failure does not replace the upstream's error. -/
def markAmbiguous (error : String) : Prog redisI Exn Unit :=
  (self.keep apiKeyId key (.parked fingerprint error)).tryExcept fun e =>
    if e.isStoreFailure then pure () else .raise e

def release : Prog redisI Exn Unit :=
  Prog.tryExcept
    (do let _ ← @Prog.perform redisI Exn (.delete (redisKey apiKeyId key)))
    fun e => if e.isStoreFailure then pure () else .raise e

/-! ### Runs of the settling methods -/

section Runs
variable {self apiKeyId key fingerprint} {t : Trace redisI Exn} {o : Except Exn Unit}

/-- One `SET`, and what is made of its answer. -/
theorem keep_ends {record : Record} {f : Exn → Except Exn Unit} {handler : Exn → Prog redisI Exn Unit}
    (hf : ∀ e, handler e = .ofExcept (f e))
    (h : Ends ((self.keep apiKeyId key record).tryExcept handler) t o) :
    ∃ a : Except Exn Bool, t = [⟨.set (redisKey apiKeyId key) record false self.completedTtlS, a⟩] ∧
      o = match a with
        | .ok _ => .ok ()
        | .error e => f e := by
  rcases ends_tryExcept.mp h with ⟨_, rfl, hk⟩ | ⟨e, t₁, t₂, rfl, hk, hh⟩
  · rcases ends_perform_bind.mp hk with ⟨b, rest, rfl, hr⟩ | ⟨e, _, he⟩
    · obtain ⟨rfl, _⟩ := ends_ret.mp hr
      exact ⟨.ok b, rfl, rfl⟩
    · cases he
  · rw [hf] at hh
    obtain ⟨rfl, rfl⟩ := ends_ofExcept.mp hh
    rcases ends_perform_bind.mp hk with ⟨b, rest, rfl, hr⟩ | ⟨e', rfl, he⟩
    · cases (ends_ret.mp hr).2
    · cases he
      exact ⟨.error e, rfl, rfl⟩

theorem complete_ends {responseBody : ResponseBody}
    (h : Ends (self.complete apiKeyId key fingerprint responseBody) t o) :
    ∃ a : Except Exn Bool, t = [⟨.set (redisKey apiKeyId key) (.completed fingerprint responseBody) false
        self.completedTtlS, a⟩] ∧
      o = match a with
        | .ok _ => .ok ()
        | .error e => .error (if e.isStoreFailure then idempotencyStoreUnavailable else e) := by
  refine keep_ends (f := fun e => .error (if e.isStoreFailure then idempotencyStoreUnavailable else e))
    (fun e => ?_) h
  by_cases he : e.isStoreFailure <;> simp [he]

theorem markAmbiguous_ends {error : String}
    (h : Ends (self.markAmbiguous apiKeyId key fingerprint error) t o) :
    ∃ a : Except Exn Bool, t = [⟨.set (redisKey apiKeyId key) (.parked fingerprint error) false
        self.completedTtlS, a⟩] ∧
      o = match a with
        | .ok _ => .ok ()
        | .error e => if e.isStoreFailure then .ok () else .error e := by
  refine keep_ends (f := fun e => if e.isStoreFailure then .ok () else .error e) (fun e => ?_) h
  by_cases he : e.isStoreFailure <;> simp [he]

theorem release_ends (h : Ends (release apiKeyId key) t o) :
    ∃ a : Except Exn Nat, t = [⟨.delete (redisKey apiKeyId key), a⟩] ∧
      o = match a with
        | .ok _ => .ok ()
        | .error e => if e.isStoreFailure then .ok () else .error e := by
  rcases ends_tryExcept.mp h with ⟨_, rfl, hk⟩ | ⟨e, t₁, t₂, rfl, hk, hf⟩
  · rcases ends_perform_bind.mp hk with ⟨b, rest, rfl, hr⟩ | ⟨e, _, he⟩
    · obtain ⟨rfl, _⟩ := ends_ret.mp hr
      exact ⟨.ok b, rfl, rfl⟩
    · cases he
  · rcases ends_perform_bind.mp hk with ⟨b, rest, rfl, hr⟩ | ⟨e', rfl, he⟩
    · cases (ends_ret.mp hr).2
    · cases he
      refine ⟨.error e, ?_⟩
      by_cases hs : e.isStoreFailure
      · simp only [hs, if_true] at hf
        obtain ⟨rfl, rfl⟩ := ends_ret.mp hf
        simp [hs]
      · simp only [hs] at hf
        obtain ⟨rfl, rfl⟩ := ends_raise.mp hf
        simp [hs]

end Runs
end RedisIdempotencyStore

/-- The server among other surroundings `J`: a command runs, or it fails and Redis ran it
or did not; what `J` answers leaves Redis as it was. -/
def served (J : Interface) : World (redisI.sum J) Exn Redis where
  answers w c a w' :=
    match c, a with
    | .inl c, a => (a, w') = w.exec c ∨ ∃ e, a = .error e ∧ (w' = w ∨ w' = (w.exec c).2)
    | .inr _, _ => w' = w
  elapses := Expiring.Waits

/-- The server in good health: it runs every command that it gets and says so. A caller may
be cancelled while it waits, before or after its command was run. -/
def healthy (J : Interface) : World (redisI.sum J) Exn Redis where
  answers w c a w' :=
    match c, a with
    | .inl c, a => (a, w') = w.exec c ∨ (a = .error .cancelledError ∧ (w' = w ∨ w' = (w.exec c).2))
    | .inr _, _ => w' = w
  elapses := Expiring.Waits

/-- The same, and nobody is cancelled while it waits. -/
def sound (J : Interface) : World (redisI.sum J) Exn Redis where
  answers w c a w' :=
    match c, a with
    | .inl c, a => (a, w') = w.exec c
    | .inr _, _ => w' = w
  elapses := Expiring.Waits

theorem healthy_of_sound {J : Interface} {w w' : Redis} {c : (redisI.sum J).Cmd}
    {a : Except Exn ((redisI.sum J).Ans c)} (h : (sound J).answers w c a w') :
    (healthy J).answers w c a w' := by
  obtain c | c := c
  · exact .inl h
  · exact h

theorem served_of_healthy {J : Interface} {w w' : Redis} {c : (redisI.sum J).Cmd}
    {a : Except Exn ((redisI.sum J).Ans c)} (h : (healthy J).answers w c a w') :
    (served J).answers w c a w' := by
  obtain c | c := c
  · rcases h with h | ⟨ha, hw⟩
    · exact .inl h
    · exact .inr ⟨_, ha, hw⟩
  · exact h

end Relayix
