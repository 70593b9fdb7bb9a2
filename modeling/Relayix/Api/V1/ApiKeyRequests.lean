import Relayix.Api.V1.ApiKeys

/-! What an admin request asks, and what its open write is.

A request goes through its phases whatever it is answered (`request_obeys`). Where it has written and
not committed, its operation, taken on the table as it is, would have the outcome that it was told
(`Prepared`), and no other session ends this: what it commits does not conflict with the open write. -/
namespace Relayix
open Library
namespace ApiKeyService
open ApiKeyRepo (ofDomain toDomain)

/-! ### One request -/

/-- The key that a creation draws, where its checks pass. -/
def drawnKey (sha256 : ByteArray → String) (draws : Draws) (name : String) (rateLimitRpm monthlyTokenQuota : Option Int) :
    Except Exn ApiKey :=
  ApiKey.create draws.id draws.now (hashApiKey sha256 (generateApiKey draws.token)) name rateLimitRpm monthlyTokenQuota

/-- What a creation is refused with before it asks anything. -/
def refusal (sha256 : ByteArray → String) : Operation → Option Exn
  | .create draws name rateLimitRpm monthlyTokenQuota =>
    match drawnKey sha256 draws name rateLimitRpm monthlyTokenQuota with
    | .ok _ => none
    | .error e => some e
  | .revoke _ => none

/-- How far a request has come. -/
inductive Phase where
  | begun
  | found (row : ApiKeyRow)
  | written (outcome : Outcome)
  | replied (outcome : Outcome)
  | committed
  | failed (e : Exn)

/-- The token that a creation answers with. -/
def drawnToken : Operation → String
  | .create draws _ _ _ => generateApiKey draws.token
  | .revoke _ => ""

/-- What an answer makes of a request. -/
def advance (sha256 : ByteArray → String) (op : Operation) : Phase → (c : adminI.Cmd) → adminI.Ans c → Phase
  | .begun, .inl (.get _), none => .failed apiKeyNotFound
  | .begun, .inl (.get _), some row => if row.isActive then .found row else .written (.revoked (toDomain row.deactivate))
  | .begun, .inl (.insert row), _ => .written (.created (toDomain row) (drawnToken op))
  | .found row, .inl (.deactivate _), _ => .written (.revoked (toDomain row.deactivate))
  | .written outcome, .inl (.reply _), _ => .replied outcome
  | .replied _, .inr .commit, _ => .committed
  | .begun, .inr _, _ => match refusal sha256 op with
    | some e => .failed e
    | none => .begun
  | s, _, _ => s

/-- The key that a creation inserts. -/
def Drawn (sha256 : ByteArray → String) (op : Operation) (apiKey : ApiKey) : Prop :=
  ∃ draws name rateLimitRpm monthlyTokenQuota, op = .create draws name rateLimitRpm monthlyTokenQuota ∧
    drawnKey sha256 draws name rateLimitRpm monthlyTokenQuota = .ok apiKey

/-- The commands of a request, in their order. -/
def client (sha256 : ByteArray → String) : Monitor adminI Exn (Operation × Phase) where
  next
    | s, c, .ok a => (s.1, advance sha256 s.1 s.2 c a)
    | s, _, .error e => (s.1, .failed e)
  allowed s c := match s.2, c with
    | .begun, .inl (.get id) => s.1 = .revoke id
    | .begun, .inl (.insert row) => ∃ apiKey, Drawn sha256 s.1 apiKey ∧ row = ofDomain apiKey
    | .found row, .inl (.deactivate id) => id = row.id
    | .written outcome, .inl (.reply outcome') => outcome' = outcome
    | .replied _, .inr .commit => True
    | .begun, .inr .rollback | .begun, .inr .close => refusal sha256 s.1 ≠ none
    | .failed _, .inr .rollback | .failed _, .inr .close | .committed, .inr .close => True
    | _, _ => False
  expects
    | .inl (.reply _), a => a = .ok ()
    | _, _ => True

/-- The exception is what the request has failed with, or it is refused by it. -/
def Fails (sha256 : ByteArray → String) (op : Operation) (e : Exn) (s : Operation × Phase) : Prop :=
  s = (op, .failed e) ∨ (s = (op, .begun) ∧ refusal sha256 op = some e)

/-- How an endpoint leaves its request. -/
def Left (sha256 : ByteArray → String) (op : Operation) (o : Except Exn Unit) (s : Operation × Phase) : Prop :=
  match o with
  | .ok () => ∃ outcome, s = (op, .replied outcome)
  | .error e => Fails sha256 op e s

section Request
variable {sha256 : ByteArray → String} {op : Operation} {outcome : Outcome}

theorem reply_obeys {Q : Except Exn Unit → Operation × Phase → Prop} (hQ : Q (.ok ()) (op, .replied outcome)) :
    (@Prog.perform keyI Exn (.reply outcome)).Obeys (client sha256).onLeft Q (op, .written outcome) := by
  refine Prog.Obeys.perform rfl fun a ha => ?_
  have ha : a = .ok () := ha
  rw [ha]
  exact hQ

theorem endpoint_create {draws : Draws} {name : String} {rateLimitRpm monthlyTokenQuota : Option Int} {apiKey : ApiKey}
    (hkey : drawnKey sha256 draws name rateLimitRpm monthlyTokenQuota = .ok apiKey) :
    endpoint sha256 (.create draws name rateLimitRpm monthlyTokenQuota) =
      ((ApiKeyRepo.add apiKey).bind fun _ => .ret (apiKey, generateApiKey draws.token)).bind fun created =>
        @Prog.perform keyI Exn (.reply (.created created.1 created.2)) := by
  simp only [endpoint, create]
  rw [show ApiKey.create _ _ _ _ _ _ = _ from hkey]
  rfl

theorem endpoint_revoke (apiKeyId : UUID) : endpoint sha256 (.revoke apiKeyId) = .await (.get apiKeyId) fun a => match a with
    | .error e => .raise e
    | .ok none => .raise apiKeyNotFound
    | .ok (some row) => (((ApiKeyRepo.flush row).bind fun _ => .ret (some (toDomain row.deactivate))).bind fun
        | none => .raise apiKeyNotFound
        | some apiKey => .ret apiKey).bind fun apiKey => @Prog.perform keyI Exn (.reply (.revoked apiKey)) := by
  refine congrArg (Prog.await _) (funext fun a => ?_)
  rcases a with e | _ | row
  · rfl
  · rfl
  · rfl

theorem endpoint_obeys (op : Operation) : (endpoint sha256 op).Obeys (client sha256).onLeft (Left sha256 op) (op, .begun) := by
  cases op with
  | create draws name rateLimitRpm monthlyTokenQuota =>
    cases hkey : drawnKey sha256 draws name rateLimitRpm monthlyTokenQuota with
    | error e =>
      have hraises : endpoint sha256 (.create draws name rateLimitRpm monthlyTokenQuota) = .raise e := by
        simp only [endpoint, create]
        rw [show ApiKey.create _ _ _ _ _ _ = _ from hkey]
        rfl
      rw [hraises]
      exact Or.inr ⟨rfl, by simp only [refusal, hkey]⟩
    | ok apiKey =>
      rw [endpoint_create hkey]
      refine ⟨⟨apiKey, ⟨draws, name, rateLimitRpm, monthlyTokenQuota, rfl, hkey⟩, rfl⟩, fun a _ => ?_⟩
      cases a with
      | ok _ => exact reply_obeys ⟨_, rfl⟩
      | error e => exact Or.inl rfl
  | revoke apiKeyId =>
    rw [endpoint_revoke]
    refine ⟨rfl, fun a _ => ?_⟩
    rcases a with e | _ | row
    · exact Or.inl rfl
    · exact Or.inl rfl
    · have hnext : (client sha256).onLeft.next (.revoke apiKeyId, .begun) (.get apiKeyId) (.ok (some row)) =
          (.revoke apiKeyId, if row.isActive then .found row else .written (.revoked (toDomain row.deactivate))) := rfl
      rw [hnext]
      dsimp only [ApiKeyRepo.flush]
      cases row.isActive with
      | false => exact reply_obeys (Q := Left sha256 (.revoke apiKeyId)) ⟨_, rfl⟩
      | true =>
        refine ⟨rfl, fun a _ => ?_⟩
        cases a with
        | ok _ => exact reply_obeys (Q := Left sha256 (.revoke apiKeyId)) ⟨_, rfl⟩
        | error e => exact Or.inl rfl

/-- How the handlers of `get_session` leave it. -/
def Handled (sha256 : ByteArray → String) (op : Operation) (o : Except Exn Unit) (s : Operation × Phase) : Prop :=
  match o with
  | .ok () => s = (op, .committed)
  | .error e => Fails sha256 op e s

/-- How a request ends. -/
def Ended (op : Operation) (o : Except Exn Unit) (s : Operation × Phase) : Prop :=
  match o with
  | .ok () => s = (op, .committed)
  | .error e => s = (op, .failed e)

/-- A command that ends the transaction, of a request that has failed. -/
theorem advance_fails {c : SessionCmd Empty} {e : Exn} {s : Operation × Phase} (h : Fails sha256 op e s) :
    (client sha256).next s (.inr c) (.ok ()) = (op, .failed e) := by
  rcases h with rfl | ⟨rfl, hrefused⟩
  · rfl
  · show (op, match refusal sha256 op with | some e => _ | none => _) = _
    rw [hrefused]

theorem rollback_obeys {e : Exn} {s : Operation × Phase} (h : Fails sha256 op e s) :
    (do
      (if e.isException then session .rollback else pure ())
      .raise e : Prog adminI Exn Unit).Obeys (client sha256) (Handled sha256 op) s := by
  cases e.isException with
  | false => exact h
  | true =>
    refine ⟨?_, fun a _ => ?_⟩
    · rcases h with rfl | ⟨rfl, hrefused⟩
      · trivial
      · exact fun hnone => by rw [hnone] at hrefused; cases hrefused
    · cases a with
      | ok _ => exact Or.inl (advance_fails h)
      | error e' =>
        rcases h with rfl | ⟨rfl, _⟩ <;> exact Or.inl rfl

theorem close_obeys {o : Except Exn Unit} {s : Operation × Phase} (h : Handled sha256 op o s) :
    (session .close : Prog adminI Exn Unit).Obeys (client sha256) (fun r s => Ended op (r.bind fun _ => o) s) s := by
  cases o with
  | ok u =>
    obtain rfl : s = (op, .committed) := h
    refine Prog.Obeys.perform trivial fun a _ => ?_
    cases a <;> rfl
  | error e =>
    refine Prog.Obeys.perform ?_ fun a _ => ?_
    · rcases h with rfl | ⟨rfl, hrefused⟩
      · trivial
      · exact fun hnone => by rw [hnone] at hrefused; cases hrefused
    · cases a with
      | ok _ => exact advance_fails h
      | error e' => rcases h with rfl | ⟨rfl, _⟩ <;> rfl

/-- A request keeps to the order of its commands, and ends committed or failed. -/
theorem request_obeys (op : Operation) : (request sha256 op).Obeys (client sha256) (Ended op) (op, .begun) := by
  refine Prog.Obeys.tryFinally (Q := Handled sha256 op) ?_ fun o s h => close_obeys h
  have body : (do
      let result ← (endpoint sha256 op).inl
      session .commit
      pure result : Prog adminI Exn Unit).Obeys (client sha256) (Handled sha256 op) (op, .begun) := by
    refine Prog.Obeys.bind (Prog.Obeys.inl (endpoint_obeys op)) (fun _ s h => ?_) fun e s h => h
    obtain ⟨outcome, rfl⟩ := h
    refine ⟨trivial, fun a _ => ?_⟩
    cases a with
    | ok _ => rfl
    | error e => exact Or.inl rfl
  exact Prog.Obeys.tryExcept body (fun _ _ h => h) fun e s h => rollback_obeys h

end Request

/-! ### A write that is open -/

/-- What the table would become by what a session has open. -/
def published (columns : ApiKeyRow → Except Exn Unit) (table : ApiKeyTable) : Option Write → ApiKeyTable
  | none => table
  | some w => w.apply columns table

/-- A request has written what its operation writes, on a table like this one, and has this outcome. -/
inductive Prepared (sha256 : ByteArray → String) (columns : ApiKeyRow → Except Exn Unit) (table : ApiKeyTable) :
    Option Write → Operation → Outcome → Prop where
  | created {draws : Draws} {name : String} {rateLimitRpm monthlyTokenQuota : Option Int} {apiKey : ApiKey} {table' : ApiKeyTable} :
      drawnKey sha256 draws name rateLimitRpm monthlyTokenQuota = .ok apiKey → table.insert columns (ofDomain apiKey) = .ok table' →
      Prepared sha256 columns table (some (.inserted (ofDomain apiKey))) (.create draws name rateLimitRpm monthlyTokenQuota)
        (.created apiKey (generateApiKey draws.token))
  | revoked {row row' : ApiKeyRow} : row' ∈ table.rows → row'.id = row.id → row'.deactivate = row.deactivate →
      Prepared sha256 columns table (some (.deactivated row.id)) (.revoke row.id) (.revoked (toDomain row.deactivate))
  | unchanged {row row' : ApiKeyRow} : row' ∈ table.rows → row'.id = row.id → row'.deactivate = row.deactivate →
      row'.isActive = false → Prepared sha256 columns table none (.revoke row.id) (.revoked (toDomain row.deactivate))

section Table
variable {sha256 : ByteArray → String} {columns : ApiKeyRow → Except Exn Unit} {table table' : ApiKeyTable} {row : ApiKeyRow}
  {op : Operation} {outcome : Outcome} {w? : Option Write} {w w' : Write}

theorem eq_of_rows (h : table.rows = table'.rows) : table = table' := by
  cases table
  cases table'
  cases h
  rfl

theorem exists_insert : (∃ table', table.insert columns row = .ok table') ↔ columns row = .ok () ∧
    row.id ∉ table.rows.map ApiKeyRow.id ∧ row.keyHash ∉ table.rows.map ApiKeyRow.keyHash := by
  constructor
  · rintro ⟨table', h⟩
    obtain ⟨_, hcolumns, h⟩ := ok_of_bind h
    split_ifs at h with hid hhash
    exact ⟨hcolumns, hid, hhash⟩
  · rintro ⟨hcolumns, hid, hhash⟩
    unfold ApiKeyTable.insert
    rw [hcolumns, dif_neg hid, dif_neg hhash]
    exact ⟨_, rfl⟩

/-- A row that is committed is inserted, or the table is as it was. -/
theorem inserted_rows (columns : ApiKeyRow → Except Exn Unit) (table : ApiKeyTable) (added : ApiKeyRow) :
    ((Write.inserted added).apply columns table).rows = table.rows ++ [added] ∨
      (Write.inserted added).apply columns table = table := by
  cases hinsert : table.insert columns added with
  | ok table' =>
    left
    simp only [Write.apply, hinsert]
    exact ApiKeyTable.insert_rows hinsert
  | error e =>
    right
    simp only [Write.apply, hinsert]

/-- Revoking a row that is inactive changes nothing. -/
theorem revoke_inactive (hrow : row ∈ table.rows) (hactive : row.isActive = false) : table.revoke row.id = table := by
  refine eq_of_rows ?_
  show table.rows.map (ApiKeyRow.revoke row.id) = table.rows
  refine (List.map_congr_left fun row' hrow' => ?_).trans (List.map_id _)
  by_cases hid : row'.id = row.id
  · rw [ApiKeyTable.eq_of_id hrow' hrow hid, ApiKeyRow.revoke, if_pos rfl, ApiKeyRow.deactivate, ← hactive]
    rfl
  · exact ApiKeyRow.revoke_of_ne hid

/-- A prepared operation, taken on the table as it is, has its outcome and makes of the table what the
open write would. -/
theorem Prepared.step_eq (h : Prepared sha256 columns table w? op outcome) :
    step sha256 columns table op = (outcome, published columns table w?) := by
  have revoking : ∀ {row row' : ApiKeyRow}, row' ∈ table.rows → row'.id = row.id → row'.deactivate = row.deactivate →
      step sha256 columns table (.revoke row.id) = (.revoked (toDomain row.deactivate), table.revoke row.id) := by
    intro row row' hmem hid hdeactivate
    rcases step_revoke table row.id with ⟨found, hfound, hfoundId, hstep⟩ | ⟨hnone, _⟩
    · rw [hstep, ApiKeyTable.eq_of_id hfound hmem (hfoundId.trans hid.symm), hdeactivate]
    · exact absurd hid (hnone row' hmem)
  cases h with
  | @created draws name rateLimitRpm monthlyTokenQuota apiKey table' hkey hinsert =>
    have hcreate : createApiKey sha256 columns table draws name rateLimitRpm monthlyTokenQuota =
        .ok ((apiKey, generateApiKey draws.token), table') := by
      simp only [createApiKey, ApiKeyRepo.create]
      rw [show ApiKey.create _ _ _ _ _ _ = _ from hkey]
      show (table.insert columns (ofDomain apiKey)).bind _ = _
      rw [hinsert]
      rfl
    simp only [step, hcreate, published, Write.apply, hinsert]
  | revoked hmem hid hdeactivate => exact revoking hmem hid hdeactivate
  | unchanged hmem hid hdeactivate hactive =>
    rw [revoking hmem hid hdeactivate, ← hid, revoke_inactive hmem hactive]
    rfl

/-- What an operation that raises does: nothing. -/
theorem step_drawn {apiKey : ApiKey} {e : Exn} (hdrawn : Drawn sha256 op apiKey)
    (hinsert : table.insert columns (ofDomain apiKey) = .error e) : step sha256 columns table op = (.raised e, table) := by
  obtain ⟨draws, name, rateLimitRpm, monthlyTokenQuota, rfl, hkey⟩ := hdrawn
  have hcreate : createApiKey sha256 columns table draws name rateLimitRpm monthlyTokenQuota = .error e := by
    simp only [createApiKey, ApiKeyRepo.create]
    rw [show ApiKey.create _ _ _ _ _ _ = _ from hkey]
    show (table.insert columns (ofDomain apiKey)).bind _ = _
    rw [hinsert]
    rfl
  simp only [step, hcreate]

theorem step_refusal {e : Exn} (h : refusal sha256 op = some e) : step sha256 columns table op = (.raised e, table) := by
  cases op with
  | revoke apiKeyId => cases h
  | create draws name rateLimitRpm monthlyTokenQuota =>
    cases hkey : drawnKey sha256 draws name rateLimitRpm monthlyTokenQuota with
    | ok apiKey =>
      simp only [refusal, hkey] at h
      cases h
    | error x =>
      simp only [refusal, hkey] at h
      cases h
      have hcreate : createApiKey sha256 columns table draws name rateLimitRpm monthlyTokenQuota = .error e := by
        simp only [createApiKey]
        rw [show ApiKey.create _ _ _ _ _ _ = _ from hkey]
        rfl
      simp only [step, hcreate]

/-- A row stays when a write is committed, perhaps deactivated. -/
theorem mem_apply (w : Write) (hrow : row ∈ table.rows) : ∃ row' ∈ (w.apply columns table).rows, row'.id = row.id ∧
    row'.deactivate = row.deactivate ∧ (row.isActive = false → row'.isActive = false) := by
  cases w with
  | inserted added =>
    refine ⟨row, ?_, rfl, rfl, id⟩
    rcases inserted_rows columns table added with hrows | hsame
    · rw [hrows]
      exact List.mem_append_left _ hrow
    · rw [hsame]
      exact hrow
  | deactivated apiKeyId =>
    refine ⟨row.revoke apiKeyId, List.mem_map_of_mem hrow, ApiKeyRow.revoke_id _ _, ?_, ?_⟩
    · unfold ApiKeyRow.revoke
      split <;> rfl
    · intro hactive
      unfold ApiKeyRow.revoke
      split
      · rfl
      · exact hactive

theorem Conflict.symm (h : Conflict w w') : Conflict w' w := by
  cases w with
  | inserted row =>
    cases w' with
    | inserted row' => exact Or.imp Eq.symm Eq.symm h
    | deactivated id => exact h
  | deactivated id =>
    cases w' with
    | inserted row' => exact h
    | deactivated id' => exact Eq.symm h

/-- A row that could be inserted can be inserted still, after a write that does not conflict. -/
theorem insert_apply (h : table.insert columns row = .ok table') (hw : ¬ Conflict (.inserted row) w) :
    ∃ table'', (w.apply columns table).insert columns row = .ok table'' := by
  obtain ⟨hcolumns, hid, hhash⟩ := exists_insert.mp ⟨_, h⟩
  refine exists_insert.mpr ⟨hcolumns, ?_⟩
  cases w with
  | inserted added =>
    obtain ⟨hne, hneHash⟩ := not_or.mp hw
    rcases inserted_rows columns table added with hrows | hsame
    · rw [hrows]
      simp only [List.map_append, List.mem_append, not_or, List.map_cons, List.map_nil, List.mem_singleton]
      exact ⟨⟨hid, hne⟩, hhash, hneHash⟩
    · rw [hsame]
      exact ⟨hid, hhash⟩
  | deactivated apiKeyId =>
    show row.id ∉ (table.rows.map _).map _ ∧ row.keyHash ∉ (table.rows.map _).map _
    rw [List.map_map, List.map_map, show ApiKeyRow.id ∘ ApiKeyRow.revoke apiKeyId = ApiKeyRow.id from funext (ApiKeyRow.revoke_id apiKeyId),
      show ApiKeyRow.keyHash ∘ ApiKeyRow.revoke apiKeyId = ApiKeyRow.keyHash from funext (ApiKeyRow.revoke_keyHash apiKeyId)]
    exact ⟨hid, hhash⟩

/-- A commit of another session leaves it prepared. -/
theorem Prepared.apply (h : Prepared sha256 columns table w? op outcome) (hw : ∀ w', w? = some w' → ¬ Conflict w' w) :
    Prepared sha256 columns (w.apply columns table) w? op outcome := by
  cases h with
  | created hkey hinsert =>
    obtain ⟨table'', hinsert'⟩ := insert_apply hinsert (hw _ rfl)
    exact .created hkey hinsert'
  | revoked hmem hid hdeactivate =>
    obtain ⟨row'', hmem', hid', hdeactivate', _⟩ := mem_apply w hmem
    exact .revoked hmem' (hid'.trans hid) (hdeactivate'.trans hdeactivate)
  | unchanged hmem hid hdeactivate hactive =>
    obtain ⟨row'', hmem', hid', hdeactivate', hactive'⟩ := mem_apply w hmem
    exact .unchanged hmem' (hid'.trans hid) (hdeactivate'.trans hdeactivate) (hactive' hactive)

end Table

/-- What an open request relies on: it has written nothing, or what its operation would. -/
def Ready (sha256 : ByteArray → String) (columns : ApiKeyRow → Except Exn Unit) (table : ApiKeyTable) (w? : Option Write)
    (op : Operation) : Phase → Prop
  | .begun | .committed | .failed _ => w? = none
  | .found row => w? = none ∧ op = .revoke row.id ∧ ∃ row' ∈ table.rows, row'.id = row.id ∧ row'.deactivate = row.deactivate
  | .written outcome | .replied outcome => Prepared sha256 columns table w? op outcome

theorem Ready.published {sha256 : ByteArray → String} {columns : ApiKeyRow → Except Exn Unit} {table : ApiKeyTable}
    {w? v? : Option Write} {op : Operation} {s : Phase} (h : Ready sha256 columns table w? op s)
    (hapart : ∀ w, w? = some w → ∀ v, v? = some v → ¬ Conflict w v) : Ready sha256 columns (published columns table v?) w? op s := by
  cases v? with
  | none => exact h
  | some v =>
    cases s with
    | begun => exact h
    | committed => exact h
    | failed e => exact h
    | found row =>
      obtain ⟨hnone, hop, row', hmem, hid, hdeactivate⟩ := h
      obtain ⟨row'', hmem', hid', hdeactivate', _⟩ := mem_apply v hmem
      exact ⟨hnone, hop, row'', hmem', hid'.trans hid, hdeactivate'.trans hdeactivate⟩
    | written outcome => exact Prepared.apply h fun w hw => hapart w hw v rfl
    | replied outcome => exact Prepared.apply h fun w hw => hapart w hw v rfl

end ApiKeyService
end Relayix
