import Relayix.Api.V1.ApiKeysSerial
import Relayix.Library.Query

/-! What is seen of the keys while they are administered: whom the gate lets in, and what
`list_api_keys` shows.

Both read the committed table, at any moment of any run of admin requests. It is the table after the
committed ones (`serialized_run`), so what they see is put in terms of these: of the keys that clients
were told, and of the revokes that were committed since. -/
namespace Relayix
open Library

/-- `ApiKeySchema` -/
structure ApiKeySchema where
  id : UUID
  name : String
  rateLimitRpm : Option Int
  monthlyTokenQuota : Option Int
  isActive : Bool
  createdAt : DateTime
  deriving DecidableEq

def ApiKeySchema.fromDomain (apiKey : ApiKey) : ApiKeySchema where
  id := apiKey.id
  name := apiKey.name
  rateLimitRpm := apiKey.rateLimitRpm
  monthlyTokenQuota := apiKey.monthlyTokenQuota
  isActive := apiKey.isActive
  createdAt := apiKey.createdAt

/-- Most recently created first. -/
def ApiKeyRepo.listAll (table : ApiKeyTable) : Set (List ApiKey) :=
  {apiKeys | ∃ order, Query.OrderedDesc ApiKeyRow.createdAt table.rows order ∧ apiKeys = order.map ApiKeyRepo.toDomain}

namespace ApiKeyService
open ApiKeyRepo (ofDomain toDomain)

def listApiKeys (table : ApiKeyTable) : Set (List ApiKeySchema) :=
  {entries | ∃ apiKeys ∈ ApiKeyRepo.listAll table, entries = apiKeys.map .fromDomain}

section Runs
variable {ι : Type} {sha256 : ByteArray → String} {columns : ApiKeyRow → Except Exn Unit} {outage : Exn → Prop}
  {ops : ι → Operation} {h : Steps ι} {order : List ι} {apiKey : ApiKey} {token : String}

/-- The committed requests one after the other are a run of operations. -/
theorem serial_empty (order : List ι) :
    serial sha256 columns ops .empty order = tableAfter sha256 columns (order.map ops) := by
  unfold serial tableAfter
  rw [List.foldl_map]

variable [DecidableEq ι]

/-- The client of a committed creation was told the key and its token; `after` was committed since. -/
def Made (h : Steps ι) (order : List ι) (apiKey : ApiKey) (token : String) (after : List ι) : Prop :=
  ∃ before i, order = before ++ i :: after ∧ Told h i (.created apiKey token)

/-- No request among these revokes the key. -/
def Kept (ops : ι → Operation) (apiKey : ApiKey) (after : List ι) : Prop := ∀ j ∈ after, ops j ≠ .revoke apiKey.id

instance (apiKey : ApiKey) (after : List ι) : Decidable (Kept ops apiKey after) :=
  inferInstanceAs (Decidable (∀ j ∈ after, ops j ≠ .revoke apiKey.id))

omit [DecidableEq ι] in
theorem kept_iff {after : List ι} : Kept ops apiKey after ↔ .revoke apiKey.id ∉ after.map ops := by
  simp only [Kept, List.mem_map, not_exists, not_and]

/-- What clients were told is what the run of operations issued. -/
theorem Serial.issued_iff {db : Keys ι} {g : ι → ι × Operation × Phase} (hS : Serial sha256 columns outage ops .empty h order db g)
    {later : List Operation} : Issued sha256 columns (order.map ops) apiKey token later ↔
      ∃ after, later = after.map ops ∧ Made h order apiKey token after := by
  constructor
  · rintro ⟨before, op, hops, hop⟩
    obtain ⟨before', rest, rfl, rfl, hrest⟩ := List.map_eq_append_iff.mp hops
    obtain ⟨i, after, rfl, rfl, rfl⟩ := List.map_eq_cons_iff.mp hrest
    rw [← serial_empty] at hop
    exact ⟨after, rfl, before', i, rfl, (hS.told before' i after rfl _).mpr hop.symm⟩
  · rintro ⟨after, rfl, before, i, rfl, htold⟩
    have hop := (hS.told before i after rfl _).mp htold
    rw [serial_empty] at hop
    exact ⟨before.map ops, ops i, by rw [List.map_append, List.map_cons], hop.symm⟩

/-- **The rows at any moment** are those of the keys that were made. -/
theorem Serial.mem_rows {db : Keys ι} {g : ι → ι × Operation × Phase} (hS : Serial sha256 columns outage ops .empty h order db g)
    {row : ApiKeyRow} : row ∈ db.table.rows ↔
      ∃ apiKey token after, Made h order apiKey token after ∧ row = { ofDomain apiKey with isActive := decide (Kept ops apiKey after) } := by
  rw [hS.table, serial_empty, mem_tableAfter]
  constructor
  · rintro ⟨apiKey, token, later, hissued, rfl⟩
    obtain ⟨after, rfl, hmade⟩ := hS.issued_iff.mp hissued
    refine ⟨apiKey, token, after, hmade, ?_⟩
    rw [stored_eq hissued.created.2.2]
    simp only [kept_iff]
  · rintro ⟨apiKey, token, after, hmade, rfl⟩
    have hissued := hS.issued_iff.mpr ⟨after, rfl, hmade⟩
    refine ⟨apiKey, token, _, hissued, ?_⟩
    rw [stored_eq hissued.created.2.2]
    simp only [kept_iff]

/-- Of the texts that the header presents, none but the token has the hash of a token that is drawn. -/
def Uncollided (sha256 : ByteArray → String) (ops : ι → Operation) (authorization : Option String) : Prop :=
  ∀ text i draws name rateLimitRpm monthlyTokenQuota, bearerToken authorization = .ok text →
    ops i = .create draws name rateLimitRpm monthlyTokenQuota →
      hashApiKey sha256 text = hashApiKey sha256 (generateApiKey draws.token) → text = generateApiKey draws.token

omit [DecidableEq ι] in
/-- A token that was issued is one that an operation drew. -/
theorem issued_drawn {later : List Operation} (hissued : Issued sha256 columns (order.map ops) apiKey token later) :
    ∃ i draws name rateLimitRpm monthlyTokenQuota, ops i = .create draws name rateLimitRpm monthlyTokenQuota ∧
      token = generateApiKey draws.token := by
  obtain ⟨before, op, hops, hop⟩ := hissued
  have hmem : op ∈ order.map ops := hops ▸ List.mem_append_right _ List.mem_cons_self
  obtain ⟨i, _, rfl⟩ := List.mem_map.mp hmem
  cases hi : ops i with
  | create draws name rateLimitRpm monthlyTokenQuota =>
    rw [hi] at hop
    refine ⟨i, draws, name, rateLimitRpm, monthlyTokenQuota, hi, ?_⟩
    rcases step_create _ draws name rateLimitRpm monthlyTokenQuota with ⟨_, _, hstep, _, _⟩ | ⟨e, hstep⟩
    · rw [hstep] at hop
      cases hop
      rfl
    · rw [hstep] at hop
      cases hop
  | revoke apiKeyId =>
    rw [hi] at hop
    rcases step_revoke _ apiKeyId with ⟨_, _, _, hstep⟩ | ⟨_, hstep⟩ <;> rw [hstep] at hop <;> cases hop

omit [DecidableEq ι] in
theorem Uncollided.collisionFree {authorization : Option String} (hsha : Uncollided sha256 ops authorization) (order : List ι) :
    CollisionFree sha256 columns (order.map ops) authorization := by
  intro text apiKey token later htext hissued hhash
  obtain ⟨i, draws, name, rateLimitRpm, monthlyTokenQuota, hi, rfl⟩ := issued_drawn hissued
  exact hsha text i draws name rateLimitRpm monthlyTokenQuota htext hi hhash

section Views
variable {p : Pool (adminI.tagged ι) Exn ι (Keys ι)}

/-- **Who is let in while keys are administered**: at every moment the bearer of a token that the
client of a committed creation was told, while no revoke of its key is committed, and nobody else. -/
theorem let_in_during (hr : Run (keyWorld columns outage) (arriving sha256 ops .empty) h p) :
    ∃ order : List ι, order.Nodup ∧ order.Sublist (commits h) ∧ (∀ i, p.threads i = .ret () ∨ Confirmed h i → i ∈ order) ∧
      ∀ authorization, Uncollided sha256 ops authorization → ∀ row,
        getCurrentApiKey sha256 p.world.table authorization = .ok row ↔
          ∃ apiKey token after, Made h order apiKey token after ∧ Kept ops apiKey after ∧ Bears authorization token ∧
            row = ofDomain apiKey := by
  obtain ⟨order, hS⟩ := serialized_run hr
  refine ⟨order, hS.once, hS.committed, hS.holds hr, fun authorization hsha row => ?_⟩
  rw [hS.table, serial_empty, ok_iff_standing (hsha.collisionFree order)]
  constructor
  · rintro ⟨apiKey, token, ⟨later, hissued, hlater⟩, hbears, hrow⟩
    obtain ⟨after, rfl, hmade⟩ := hS.issued_iff.mp hissued
    exact ⟨apiKey, token, after, hmade, kept_iff.mpr hlater, hbears, hrow⟩
  · rintro ⟨apiKey, token, after, hmade, hkept, hbears, hrow⟩
    exact ⟨apiKey, token, ⟨_, hS.issued_iff.mpr ⟨after, rfl, hmade⟩, kept_iff.mp hkept⟩, hbears, hrow⟩

/-- **What the list shows while keys are administered**: at every moment each key that was made, once,
the most recently created first, and active while no revoke of it is committed. -/
theorem listed_during (hr : Run (keyWorld columns outage) (arriving sha256 ops .empty) h p) :
    ∃ order : List ι, order.Nodup ∧ order.Sublist (commits h) ∧ (∀ i, p.threads i = .ret () ∨ Confirmed h i → i ∈ order) ∧
      ∀ entries ∈ listApiKeys p.world.table,
        entries.Pairwise (fun entry later => later.createdAt ≤ entry.createdAt) ∧ (entries.map ApiKeySchema.id).Nodup ∧
          ∀ entry, entry ∈ entries ↔ ∃ apiKey token after, Made h order apiKey token after ∧
            entry = { ApiKeySchema.fromDomain apiKey with isActive := decide (Kept ops apiKey after) } := by
  obtain ⟨order, hS⟩ := serialized_run hr
  refine ⟨order, hS.once, hS.committed, hS.holds hr, ?_⟩
  rintro _ ⟨_, ⟨rows, hrows, rfl⟩, rfl⟩
  rw [List.map_map]
  refine ⟨List.pairwise_map.mpr hrows.sorted, ?_, fun entry => ?_⟩
  · rw [List.map_map]
    exact (hrows.perm.map ApiKeyRow.id).nodup_iff.mpr p.world.table.primaryKey
  · rw [List.mem_map]
    constructor
    · rintro ⟨row, hrow, rfl⟩
      obtain ⟨apiKey, token, after, hmade, rfl⟩ := hS.mem_rows.mp (hrows.perm.mem_iff.mp hrow)
      exact ⟨apiKey, token, after, hmade, rfl⟩
    · rintro ⟨apiKey, token, after, hmade, rfl⟩
      exact ⟨_, hrows.perm.mem_iff.mpr (hS.mem_rows.mpr ⟨apiKey, token, after, hmade, rfl⟩), rfl⟩

end Views
end Runs

/-! ### On the run of two requests -/

theorem uncollided_trial : Uncollided issuedHash trialRequests trialHeader := by
  rintro text (_ | _) draws name rateLimitRpm monthlyTokenQuota htext hop _
  · cases hop
  · cases hop
    have hbearer : bearerToken trialHeader = .ok (generateApiKey secondToken) := by decide
    exact Except.ok.inj (htext.symm.trans hbearer)

/-- The bearer of the token that was created, if the gate lets anyone in. -/
theorem let_in_during_trial : ∃ (h : Steps Bool) (p : Pool (adminI.tagged Bool) Exn Bool (Keys Bool)) (order : List Bool),
    Run (keyWorld trialColumns fun _ => False) (arriving issuedHash trialRequests .empty) h p ∧ true ∈ order ∧
      ∀ row, getCurrentApiKey issuedHash p.world.table trialHeader = .ok row ↔
        ∃ apiKey token after, Made h order apiKey token after ∧ Kept trialRequests apiKey after ∧ Bears trialHeader token ∧
          row = ofDomain apiKey := by
  obtain ⟨h, p, hr, hret, _⟩ := trial_serial
  obtain ⟨order, _, _, hin, hgate⟩ := let_in_during hr
  exact ⟨h, p, order, hr, hin true (.inl hret), hgate trialHeader uncollided_trial⟩

theorem listed_during_trial : ∃ (h : Steps Bool) (p : Pool (adminI.tagged Bool) Exn Bool (Keys Bool)) (order : List Bool),
    Run (keyWorld trialColumns fun _ => False) (arriving issuedHash trialRequests .empty) h p ∧ true ∈ order ∧
      ∀ entries ∈ listApiKeys p.world.table, (entries.map ApiKeySchema.id).Nodup ∧
        ∀ entry, entry ∈ entries ↔ ∃ apiKey token after, Made h order apiKey token after ∧
          entry = { ApiKeySchema.fromDomain apiKey with isActive := decide (Kept trialRequests apiKey after) } := by
  obtain ⟨h, p, hr, hret, _⟩ := trial_serial
  obtain ⟨order, _, _, hin, hlist⟩ := listed_during hr
  refine ⟨h, p, order, hr, hin true (.inl hret), fun entries hentries => ?_⟩
  obtain ⟨_, honce, hmem⟩ := hlist entries hentries
  exact ⟨honce, hmem⟩

end ApiKeyService
end Relayix
