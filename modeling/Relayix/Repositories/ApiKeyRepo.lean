import Mathlib.Data.List.Nodup
import Relayix.Domain.ApiKey

/-! The table of API keys (`repositories/api_key_repo.py`, `models/db/api_key.py`).

Ids and hashes are unique in the table, so an `ApiKeyTable` holds that they are. What its columns do
not hold, a name that is too long or a number that is too large, is refused by `columns`, and an
insert that raises inserts nothing. -/
namespace Relayix

/-- A row of `api_key`. -/
structure ApiKeyRow where
  id : UUID
  keyHash : String
  name : String
  rateLimitRpm : Option Int
  monthlyTokenQuota : Option Int
  isActive : Bool
  createdAt : DateTime
  deriving DecidableEq

structure ApiKeyTable where
  rows : List ApiKeyRow
  primaryKey : (rows.map ApiKeyRow.id).Nodup
  uniqueHash : (rows.map ApiKeyRow.keyHash).Nodup

def integrityError (index : String) : Exn :=
  .exception "IntegrityError" ("duplicate key value violates unique constraint \"" ++ index ++ "\"")

namespace ApiKeyRow

def deactivate (row : ApiKeyRow) : ApiKeyRow := { row with isActive := false }

/-- The row, deactivated if it has the id. -/
def revoke (id : UUID) (row : ApiKeyRow) : ApiKeyRow := if row.id = id then row.deactivate else row

@[simp] theorem revoke_id (id : UUID) (row : ApiKeyRow) : (row.revoke id).id = row.id := by
  unfold revoke
  split <;> rfl

@[simp] theorem revoke_keyHash (id : UUID) (row : ApiKeyRow) : (row.revoke id).keyHash = row.keyHash := by
  unfold revoke
  split <;> rfl

theorem revoke_of_ne {id : UUID} {row : ApiKeyRow} (h : row.id ≠ id) : row.revoke id = row := if_neg h

end ApiKeyRow

namespace ApiKeyTable

def empty : ApiKeyTable := ⟨[], List.nodup_nil, List.nodup_nil⟩

def insert (columns : ApiKeyRow → Except Exn Unit) (table : ApiKeyTable) (row : ApiKeyRow) : Except Exn ApiKeyTable := do
  columns row
  if hid : row.id ∈ table.rows.map ApiKeyRow.id then throw (integrityError "api_key_pkey")
  else if hhash : row.keyHash ∈ table.rows.map ApiKeyRow.keyHash then throw (integrityError "ix_api_key_key_hash")
  else
    pure
      { rows := table.rows ++ [row]
        primaryKey := by
          rw [List.map_append]
          exact table.primaryKey.append (List.nodup_singleton _) (List.disjoint_singleton.mpr hid)
        uniqueHash := by
          rw [List.map_append]
          exact table.uniqueHash.append (List.nodup_singleton _) (List.disjoint_singleton.mpr hhash) }

/-- The update of one row, by its primary key. -/
def revoke (table : ApiKeyTable) (id : UUID) : ApiKeyTable where
  rows := table.rows.map (ApiKeyRow.revoke id)
  primaryKey := by
    have hids : ApiKeyRow.id ∘ ApiKeyRow.revoke id = ApiKeyRow.id := funext (ApiKeyRow.revoke_id id)
    rw [List.map_map, hids]
    exact table.primaryKey
  uniqueHash := by
    have hhashes : ApiKeyRow.keyHash ∘ ApiKeyRow.revoke id = ApiKeyRow.keyHash := funext (ApiKeyRow.revoke_keyHash id)
    rw [List.map_map, hhashes]
    exact table.uniqueHash

theorem insert_rows {columns : ApiKeyRow → Except Exn Unit} {table table' : ApiKeyTable} {row : ApiKeyRow}
    (h : table.insert columns row = .ok table') : table'.rows = table.rows ++ [row] := by
  obtain ⟨_, _, h⟩ := ok_of_bind h
  split_ifs at h
  exact congrArg ApiKeyTable.rows (Except.ok.inj h).symm

/-- No two rows have one id, or one hash. -/
theorem eq_of_id {table : ApiKeyTable} {row row' : ApiKeyRow} (h : row ∈ table.rows) (h' : row' ∈ table.rows)
    (hid : row.id = row'.id) : row = row' := List.inj_on_of_nodup_map table.primaryKey h h' hid

theorem eq_of_keyHash {table : ApiKeyTable} {row row' : ApiKeyRow} (h : row ∈ table.rows) (h' : row' ∈ table.rows)
    (hhash : row.keyHash = row'.keyHash) : row = row' := List.inj_on_of_nodup_map table.uniqueHash h h' hhash

theorem mem_revoke_of_ne {table : ApiKeyTable} {id : UUID} {row : ApiKeyRow} (h : row.id ≠ id) :
    row ∈ (table.revoke id).rows ↔ row ∈ table.rows := by
  constructor
  · intro hmem
    obtain ⟨before, hbefore, rfl⟩ := List.mem_map.mp hmem
    rw [ApiKeyRow.revoke_id] at h
    rwa [ApiKeyRow.revoke_of_ne h]
  · intro hmem
    exact List.mem_map.mpr ⟨row, hmem, ApiKeyRow.revoke_of_ne h⟩

end ApiKeyTable

namespace ApiKeyRepo

def ofDomain (apiKey : ApiKey) : ApiKeyRow where
  id := apiKey.id
  keyHash := apiKey.keyHash
  name := apiKey.name
  rateLimitRpm := apiKey.rateLimitRpm
  monthlyTokenQuota := apiKey.monthlyTokenQuota
  isActive := apiKey.isActive
  createdAt := apiKey.createdAt

def toDomain (row : ApiKeyRow) : ApiKey where
  id := row.id
  keyHash := row.keyHash
  name := row.name
  rateLimitRpm := row.rateLimitRpm
  monthlyTokenQuota := row.monthlyTokenQuota
  isActive := row.isActive
  createdAt := row.createdAt

def create (columns : ApiKeyRow → Except Exn Unit) (table : ApiKeyTable) (apiKey : ApiKey) : Except Exn ApiKeyTable :=
  table.insert columns (ofDomain apiKey)

def revoke (table : ApiKeyTable) (apiKeyId : UUID) : Option (ApiKey × ApiKeyTable) :=
  match table.rows.find? (fun row => row.id = apiKeyId) with
  | none => none
  | some row => some (toDomain row.deactivate, table.revoke apiKeyId)

/-- A key that is read is the one that was written. -/
theorem toDomain_ofDomain (apiKey : ApiKey) : toDomain (ofDomain apiKey) = apiKey := rfl

end ApiKeyRepo
end Relayix
