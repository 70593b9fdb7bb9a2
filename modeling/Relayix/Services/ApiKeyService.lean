import Mathlib.Data.List.Induction
import Relayix.Infra.Security.Crypto
import Relayix.Repositories.ApiKeyRepo

/-! The keys that are issued and revoked (`services/api_key_service.py`).

Each operation is one request, whose session commits what it did or, where it raised, nothing. The
table after a run is what the run says: a row for each key that was issued, active while no later
operation revoked it. -/
namespace Relayix
namespace ApiKeyService
open ApiKeyRepo (ofDomain toDomain)

/-- What a creation draws. -/
structure Draws where
  token : UrlSafe
  id : UUID
  now : DateTime
  deriving DecidableEq

inductive Operation where
  | create (draws : Draws) (name : String) (rateLimitRpm monthlyTokenQuota : Option Int)
  | revoke (apiKeyId : UUID)
  deriving DecidableEq

inductive Outcome where
  | created (apiKey : ApiKey) (token : String)
  | revoked (apiKey : ApiKey)
  | raised (e : Exn)
  deriving DecidableEq

section Service
variable (sha256 : ByteArray → String) (columns : ApiKeyRow → Except Exn Unit)

def createApiKey (table : ApiKeyTable) (draws : Draws) (name : String) (rateLimitRpm monthlyTokenQuota : Option Int) :
    Except Exn ((ApiKey × String) × ApiKeyTable) := do
  let token := generateApiKey draws.token
  let apiKey ← ApiKey.create draws.id draws.now (hashApiKey sha256 token) name rateLimitRpm monthlyTokenQuota
  let table ← ApiKeyRepo.create columns table apiKey
  pure ((apiKey, token), table)

def revokeApiKey (table : ApiKeyTable) (apiKeyId : UUID) : Except Exn (ApiKey × ApiKeyTable) :=
  match ApiKeyRepo.revoke table apiKeyId with
  | none => throw apiKeyNotFound
  | some revoked => pure revoked

/-- An operation in the session of its request. -/
def step (table : ApiKeyTable) : Operation → Outcome × ApiKeyTable
  | .create draws name rateLimitRpm monthlyTokenQuota =>
    match createApiKey sha256 columns table draws name rateLimitRpm monthlyTokenQuota with
    | .ok ((apiKey, token), table) => (.created apiKey token, table)
    | .error e => (.raised e, table)
  | .revoke apiKeyId =>
    match revokeApiKey table apiKeyId with
    | .ok (apiKey, table) => (.revoked apiKey, table)
    | .error e => (.raised e, table)

def tableAfter (ops : List Operation) : ApiKeyTable := ops.foldl (fun table op => (step sha256 columns table op).2) .empty

/-- A key and the token that an operation of the run answered with, and the operations since. -/
def Issued (ops : List Operation) (apiKey : ApiKey) (token : String) (later : List Operation) : Prop :=
  ∃ before op, ops = before ++ op :: later ∧ (step sha256 columns (tableAfter sha256 columns before) op).1 = .created apiKey token

end Service

/-! ### One operation -/

/-- What an operation does to the rows that are there. -/
def effect : Operation → ApiKeyRow → ApiKeyRow
  | .create _ _ _ _, row => row
  | .revoke apiKeyId, row => row.revoke apiKeyId

/-- The row that it inserts. -/
def inserted : Outcome → List ApiKeyRow
  | .created apiKey _ => [ofDomain apiKey]
  | .revoked _ | .raised _ => []

section Step
variable {sha256 : ByteArray → String} {columns : ApiKeyRow → Except Exn Unit} {table : ApiKeyTable} {draws : Draws}
  {name : String} {rateLimitRpm monthlyTokenQuota : Option Int} {apiKey : ApiKey} {token : String}

theorem createApiKey_ok {table' : ApiKeyTable}
    (h : createApiKey sha256 columns table draws name rateLimitRpm monthlyTokenQuota = .ok ((apiKey, token), table')) :
    token = generateApiKey draws.token ∧ table'.rows = table.rows ++ [ofDomain apiKey] ∧
      apiKey = ⟨draws.id, hashApiKey sha256 token, name, rateLimitRpm, monthlyTokenQuota, true, draws.now⟩ := by
  obtain ⟨created, hcreate, h⟩ := ok_of_bind h
  obtain ⟨inserted, hinsert, h⟩ := ok_of_bind h
  cases h
  exact ⟨rfl, ApiKeyTable.insert_rows hinsert, ApiKey.create_eq_ok hcreate⟩

/-- A creation issues the key that was drawn, and inserts its row, or changes nothing. -/
theorem step_create (table : ApiKeyTable) (draws : Draws) (name : String) (rateLimitRpm monthlyTokenQuota : Option Int) :
    (∃ apiKey table', step sha256 columns table (.create draws name rateLimitRpm monthlyTokenQuota) =
        (.created apiKey (generateApiKey draws.token), table') ∧ table'.rows = table.rows ++ [ofDomain apiKey] ∧
      apiKey = ⟨draws.id, hashApiKey sha256 (generateApiKey draws.token), name, rateLimitRpm, monthlyTokenQuota, true,
        draws.now⟩) ∨
    ∃ e, step sha256 columns table (.create draws name rateLimitRpm monthlyTokenQuota) = (.raised e, table) := by
  cases hcreate : createApiKey sha256 columns table draws name rateLimitRpm monthlyTokenQuota with
  | ok created =>
    obtain ⟨⟨apiKey, token⟩, table'⟩ := created
    obtain ⟨rfl, hrows, hkey⟩ := createApiKey_ok hcreate
    exact .inl ⟨apiKey, table', by simp only [step, hcreate], hrows, hkey⟩
  | error e => exact .inr ⟨e, by simp only [step, hcreate]⟩

/-- A revoke deactivates the row with the id; where there is none it raises. -/
theorem step_revoke (table : ApiKeyTable) (apiKeyId : UUID) :
    (∃ row ∈ table.rows, row.id = apiKeyId ∧
      step sha256 columns table (.revoke apiKeyId) = (.revoked (toDomain row.deactivate), table.revoke apiKeyId)) ∨
    ((∀ row ∈ table.rows, row.id ≠ apiKeyId) ∧
      step sha256 columns table (.revoke apiKeyId) = (.raised apiKeyNotFound, table)) := by
  cases hfind : table.rows.find? fun row => row.id = apiKeyId with
  | some row =>
    have hid : row.id = apiKeyId := by simpa using List.find?_some hfind
    exact .inl ⟨row, List.mem_of_find?_eq_some hfind, hid, by simp only [step, revokeApiKey, ApiKeyRepo.revoke, hfind]; rfl⟩
  | none =>
    refine .inr ⟨fun row hrow hid => ?_, by simp only [step, revokeApiKey, ApiKeyRepo.revoke, hfind]; rfl⟩
    exact List.find?_eq_none.mp hfind row hrow (decide_eq_true hid)

/-- Whether there is a row with the id or not. -/
theorem step_revoke_rows (table : ApiKeyTable) (apiKeyId : UUID) :
    (step sha256 columns table (.revoke apiKeyId)).2.rows = (table.revoke apiKeyId).rows := by
  rcases step_revoke table apiKeyId with ⟨row, _, _, hstep⟩ | ⟨hnone, hstep⟩
  · rw [hstep]
  · rw [hstep]
    show table.rows = table.rows.map _
    rw [List.map_congr_left fun row hrow => ApiKeyRow.revoke_of_ne (hnone row hrow), List.map_id']

/-- **One operation**: the rows that were there, revoked or not, and the one it inserts. -/
theorem step_rows (table : ApiKeyTable) (op : Operation) : (step sha256 columns table op).2.rows =
    table.rows.map (effect op) ++ inserted (step sha256 columns table op).1 := by
  cases op with
  | create draws name rateLimitRpm monthlyTokenQuota =>
    have hkept : table.rows.map (effect (.create draws name rateLimitRpm monthlyTokenQuota)) = table.rows := List.map_id _
    rw [hkept]
    rcases step_create table draws name rateLimitRpm monthlyTokenQuota with ⟨apiKey, table', hstep, hrows, _⟩ | ⟨e, hstep⟩
    · rw [hstep]
      exact hrows
    · rw [hstep]
      exact (List.append_nil _).symm
  | revoke apiKeyId =>
    have hnone : inserted (step sha256 columns table (.revoke apiKeyId)).1 = [] := by
      rcases step_revoke table apiKeyId with ⟨row, _, _, hstep⟩ | ⟨_, hstep⟩ <;> rw [hstep] <;> rfl
    rw [step_revoke_rows, hnone, List.append_nil]
    rfl

/-- An issued key is the one that was drawn, active and under the hash of its token. -/
theorem step_created {op : Operation} (h : (step sha256 columns table op).1 = .created apiKey token) :
    (∃ drawn, token = generateApiKey drawn) ∧ apiKey.keyHash = hashApiKey sha256 token ∧ apiKey.isActive = true := by
  cases op with
  | create draws name rateLimitRpm monthlyTokenQuota =>
    rcases step_create table draws name rateLimitRpm monthlyTokenQuota with ⟨created, _, hstep, _, rfl⟩ | ⟨e, hstep⟩
    · rw [hstep] at h
      cases h
      exact ⟨⟨draws.token, rfl⟩, rfl, rfl⟩
    · rw [hstep] at h
      cases h
  | revoke apiKeyId =>
    rcases step_revoke table apiKeyId with ⟨row, _, _, hstep⟩ | ⟨_, hstep⟩ <;> rw [hstep] at h <;> cases h

end Step

/-! ### A run -/

/-- The row of a key after the operations since it was issued. -/
def stored (apiKey : ApiKey) (later : List Operation) : ApiKeyRow :=
  later.foldl (fun row op => effect op row) (ofDomain apiKey)

theorem stored_append (apiKey : ApiKey) (later : List Operation) (op : Operation) :
    stored apiKey (later ++ [op]) = effect op (stored apiKey later) := List.foldl_append ..

/-- It is the row that was inserted, active while its key is not revoked. -/
theorem stored_eq {apiKey : ApiKey} (h : apiKey.isActive = true) (later : List Operation) :
    stored apiKey later = { ofDomain apiKey with isActive := decide (.revoke apiKey.id ∉ later) } := by
  induction later using List.reverseRecOn with
  | nil =>
    show ofDomain apiKey = _
    rw [ofDomain, h]
    rfl
  | append_singleton later op ih =>
    rw [stored_append, ih]
    cases op with
    | create draws name rateLimitRpm monthlyTokenQuota => simp [effect]
    | revoke apiKeyId =>
      by_cases hid : apiKey.id = apiKeyId
      · subst hid
        simp [effect, ApiKeyRow.revoke, ApiKeyRow.deactivate, ofDomain]
      · have hkept : ∀ row : ApiKeyRow, row.id = apiKey.id → effect (.revoke apiKeyId) row = row := fun row hrow =>
          ApiKeyRow.revoke_of_ne (hrow ▸ hid)
        rw [hkept _ rfl]
        simp [hid]

section Run
variable {sha256 : ByteArray → String} {columns : ApiKeyRow → Except Exn Unit} {ops later : List Operation} {apiKey : ApiKey}
  {token : String}

theorem tableAfter_append (ops : List Operation) (op : Operation) :
    tableAfter sha256 columns (ops ++ [op]) = (step sha256 columns (tableAfter sha256 columns ops) op).2 := List.foldl_append ..

theorem Issued.append (h : Issued sha256 columns ops apiKey token later) (more : List Operation) :
    Issued sha256 columns (ops ++ more) apiKey token (later ++ more) := by
  obtain ⟨before, op, rfl, hop⟩ := h
  exact ⟨before, op, by rw [List.append_assoc, List.cons_append], hop⟩

/-- One operation more: what was issued before it, and what it issues. -/
theorem issued_append {op : Operation} : Issued sha256 columns (ops ++ [op]) apiKey token later ↔
    (∃ later', later = later' ++ [op] ∧ Issued sha256 columns ops apiKey token later') ∨
      (later = [] ∧ (step sha256 columns (tableAfter sha256 columns ops) op).1 = .created apiKey token) := by
  constructor
  · rintro ⟨before, op', hops, hop'⟩
    rcases List.eq_nil_or_concat' later with rfl | ⟨later', last, rfl⟩
    · obtain ⟨rfl, hlast⟩ := List.append_inj' hops rfl
      cases hlast
      exact .inr ⟨rfl, hop'⟩
    · rw [← List.cons_append, ← List.append_assoc] at hops
      obtain ⟨rfl, hlast⟩ := List.append_inj' hops rfl
      cases hlast
      exact .inl ⟨later', rfl, before, op', rfl, hop'⟩
  · rintro (⟨later', rfl, h⟩ | ⟨rfl, hop⟩)
    · exact h.append [op]
    · exact ⟨ops, op, rfl, hop⟩

theorem Issued.created (h : Issued sha256 columns ops apiKey token later) :
    (∃ drawn, token = generateApiKey drawn) ∧ apiKey.keyHash = hashApiKey sha256 token ∧ apiKey.isActive = true := by
  obtain ⟨before, op, _, hop⟩ := h
  exact step_created hop

theorem mem_inserted {outcome : Outcome} {row : ApiKeyRow} :
    row ∈ inserted outcome ↔ ∃ apiKey token, outcome = .created apiKey token ∧ row = ofDomain apiKey := by
  cases outcome with
  | created apiKey token => simp [inserted]
  | revoked apiKey => simp [inserted]
  | raised e => simp [inserted]

/-- **The rows after a run** are those of the keys that it issued. -/
theorem mem_tableAfter {row : ApiKeyRow} : row ∈ (tableAfter sha256 columns ops).rows ↔
    ∃ apiKey token later, Issued sha256 columns ops apiKey token later ∧ row = stored apiKey later := by
  induction ops using List.reverseRecOn generalizing row with
  | nil =>
    constructor
    · intro h
      exact absurd h List.not_mem_nil
    · rintro ⟨_, _, _, ⟨_, _, hops, _⟩, _⟩
      exact absurd hops (List.append_ne_nil_of_right_ne_nil _ (List.cons_ne_nil _ _)).symm
  | append_singleton ops op ih =>
    rw [tableAfter_append, step_rows, List.mem_append, List.mem_map, mem_inserted]
    constructor
    · rintro (⟨row, hrow, rfl⟩ | ⟨apiKey, token, hop, rfl⟩)
      · obtain ⟨apiKey, token, later, h, rfl⟩ := ih.mp hrow
        exact ⟨apiKey, token, later ++ [op], h.append [op], (stored_append apiKey later op).symm⟩
      · exact ⟨apiKey, token, [], issued_append.mpr (.inr ⟨rfl, hop⟩), rfl⟩
    · rintro ⟨apiKey, token, later, h, rfl⟩
      rcases issued_append.mp h with ⟨later', rfl, h'⟩ | ⟨rfl, hop⟩
      · exact .inl ⟨stored apiKey later', ih.mpr ⟨apiKey, token, later', h', rfl⟩, (stored_append apiKey later' op).symm⟩
      · exact .inr ⟨apiKey, token, hop, rfl⟩

end Run

end ApiKeyService
end Relayix
