import Relayix.Infra.Database.Session
import Relayix.Library.Sessions
import Relayix.Services.ApiKeyService

/-! Admin requests in their database sessions (`api/v1/api_keys.py`, `services/api_key_service.py`,
`repositories/api_key_repo.py`).

`ApiKeyService.step` is one operation at a time. Here each request has a session of its own, and any
number of them run in any interleaving against one table: a session reads what is committed, what it
writes is its own until it commits, and a write that conflicts with what another session has open is
not answered before that one has ended. A response is sent when the endpoint has returned, and the
session commits after it. -/
namespace Relayix
open Library

inductive KeyCmd where
  /-- `session.get(Api_Key, api_key_id)` -/
  | get (apiKeyId : UUID)
  /-- the flush of an added row -/
  | insert (row : ApiKeyRow)
  /-- the flush of `is_active = False` -/
  | deactivate (apiKeyId : UUID)
  /-- the response -/
  | reply (outcome : ApiKeyService.Outcome)
  deriving DecidableEq

@[reducible] def keyI : Interface where
  Cmd := KeyCmd
  Ans
    | .get _ => Option ApiKeyRow
    | .insert _ | .deactivate _ | .reply _ => Unit

/-- An admin request's session: its rows are those of `keyI`, and nothing else is added to it. -/
@[reducible] def adminI : Interface := keyI.sum (sessionI Empty)

namespace ApiKeyRepo

/-- `create`, in a session. -/
def add (apiKey : ApiKey) : Prog keyI Exn Unit := @Prog.perform keyI Exn (.insert (ofDomain apiKey))

/-- The flush after `row.is_active = False`. A row that is inactive already has no change to flush. -/
def flush (row : ApiKeyRow) : Prog keyI Exn Unit :=
  if row.isActive then @Prog.perform keyI Exn (.deactivate row.id) else pure ()

/-- `revoke`, in a session. -/
def deactivate (apiKeyId : UUID) : Prog keyI Exn (Option ApiKey) := do
  match ← @Prog.perform keyI Exn (.get apiKeyId) with
  | none => pure none
  | some row => do
    flush row
    pure (some (toDomain row.deactivate))

end ApiKeyRepo

namespace ApiKeyService
open ApiKeyRepo (ofDomain toDomain)

section Service
variable (sha256 : ByteArray → String)

def create (draws : Draws) (name : String) (rateLimitRpm monthlyTokenQuota : Option Int) : Prog keyI Exn (ApiKey × String) := do
  let token := generateApiKey draws.token
  let apiKey ← Prog.ofExcept (ApiKey.create draws.id draws.now (hashApiKey sha256 token) name rateLimitRpm monthlyTokenQuota)
  ApiKeyRepo.add apiKey
  pure (apiKey, token)

def revoke (apiKeyId : UUID) : Prog keyI Exn ApiKey := do
  match ← ApiKeyRepo.deactivate apiKeyId with
  | none => .raise apiKeyNotFound
  | some apiKey => pure apiKey

/-- The endpoint of an operation, and its response. -/
def endpoint : Operation → Prog keyI Exn Unit
  | .create draws name rateLimitRpm monthlyTokenQuota => do
    let (apiKey, token) ← create sha256 draws name rateLimitRpm monthlyTokenQuota
    @Prog.perform keyI Exn (.reply (.created apiKey token))
  | .revoke apiKeyId => do
    let apiKey ← revoke apiKeyId
    @Prog.perform keyI Exn (.reply (.revoked apiKey))

def request (op : Operation) : Prog adminI Exn Unit := getSession (endpoint sha256 op).inl

end Service

/-! ### The database -/

/-- What a session has written and not committed. -/
inductive Write where
  | inserted (row : ApiKeyRow)
  | deactivated (apiKeyId : UUID)

/-- The committed table, and what each session has open. -/
structure Keys (σ : Type) where
  table : ApiKeyTable
  open? : σ → Option Write

/-- The two would touch one row, or one place in an index. -/
def Conflict : Write → Write → Prop
  | .inserted row, .inserted row' => row.id = row'.id ∨ row.keyHash = row'.keyHash
  | .deactivated id, .deactivated id' => id = id'
  | .inserted row, .deactivated id | .deactivated id, .inserted row => row.id = id

section Database
variable {σ : Type} [DecidableEq σ] (columns : ApiKeyRow → Except Exn Unit) (outage : Exn → Prop)

/-- The table with a write in it. -/
def Write.apply (table : ApiKeyTable) : Write → ApiKeyTable
  | .inserted row => match table.insert columns row with
    | .ok table => table
    | .error _ => table
  | .deactivated apiKeyId => table.revoke apiKeyId

namespace Keys
variable (db : Keys σ) (s : σ)

def hold (w : Write) : Keys σ := { db with open? := Function.update db.open? s (some w) }
def drop : Keys σ := { db with open? := Function.update db.open? s none }

/-- The session's write is committed. -/
def publish : Keys σ :=
  { db.drop s with table := match db.open? s with
      | none => db.table
      | some w => w.apply columns db.table }

/-- No other session has a write open that conflicts with this one. -/
def Free (w : Write) : Prop := ∀ s', s' ≠ s → ∀ w', db.open? s' = some w' → ¬ Conflict w w'

end Keys

/-- The database. Any command may fail by an `outage`, a commit then having taken place or not; a
session that has rolled back or is closed has nothing open. -/
def keyWorld : World (adminI.tagged σ) Exn (Keys σ) where
  answers
    | db, (_, .inl (.get apiKeyId)), a, db' =>
        db' = db ∧ (a = .ok (db.table.rows.find? fun row => row.id = apiKeyId) ∨ ∃ e, a = .error e ∧ outage e)
    | db, (s, .inl (.insert row)), a, db' =>
        (db.Free s (.inserted row) ∧
          match db.table.insert columns row with
          | .ok _ => a = .ok () ∧ db' = db.hold s (.inserted row)
          | .error e => a = .error e ∧ db' = db) ∨
        ∃ e, a = .error e ∧ outage e ∧ db' = db
    | db, (s, .inl (.deactivate apiKeyId)), a, db' =>
        (db.Free s (.deactivated apiKeyId) ∧ a = .ok () ∧ db' = db.hold s (.deactivated apiKeyId)) ∨
        ∃ e, a = .error e ∧ outage e ∧ db' = db
    | db, (_, .inl (.reply _)), a, db' => a = .ok () ∧ db' = db
    | db, (s, .inr .commit), a, db' =>
        (a = .ok () ∧ db' = db.publish columns s) ∨
        ∃ e, a = .error e ∧ outage e ∧ (db' = db.publish columns s ∨ db' = db.drop s)
    | db, (s, .inr .rollback), a, db' | db, (s, .inr .close), a, db' =>
        (∀ e, a = .error e → outage e) ∧ db' = db.drop s
  elapses _ _ := False

end Database
end ApiKeyService
end Relayix
