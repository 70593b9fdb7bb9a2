import Relayix.Api.Deps
import Relayix.Services.ApiKeyService

/-! Who is let in after a run.

The gate sees the table and the header, and no more; what it answers is put here in terms of the
run: which tokens were issued, and which keys were revoked since. Of SHA-256 is only used that no
other text presented has the hash of an issued token. -/
namespace Relayix
namespace ApiKeyService
open ApiKeyRepo (ofDomain)

section Run
variable {sha256 : ByteArray → String} {columns : ApiKeyRow → Except Exn Unit} {ops later : List Operation} {apiKey : ApiKey}
  {token : String} {authorization : Option String} {row : ApiKeyRow}

/-- Issued by the run, and not revoked since. -/
def Standing (sha256 : ByteArray → String) (columns : ApiKeyRow → Except Exn Unit) (ops : List Operation) (apiKey : ApiKey)
    (token : String) : Prop :=
  ∃ later, Issued sha256 columns ops apiKey token later ∧ .revoke apiKey.id ∉ later

/-- No text but the token has the hash of a token that was issued, of what the header presents. -/
def CollisionFree (sha256 : ByteArray → String) (columns : ApiKeyRow → Except Exn Unit) (ops : List Operation)
    (authorization : Option String) : Prop :=
  ∀ text apiKey token later, bearerToken authorization = .ok text → Issued sha256 columns ops apiKey token later →
    hashApiKey sha256 text = hashApiKey sha256 token → text = token

/-- The row of a standing key is the one that was inserted. -/
theorem stored_standing (h : Issued sha256 columns ops apiKey token later) (hlater : .revoke apiKey.id ∉ later) :
    stored apiKey later = ofDomain apiKey := by
  obtain ⟨_, _, hactive⟩ := h.created
  rw [stored_eq hactive, decide_eq_true hlater, ← hactive]
  rfl

theorem stored_active (h : Issued sha256 columns ops apiKey token later) :
    (stored apiKey later).isActive = true ↔ .revoke apiKey.id ∉ later := by
  rw [stored_eq h.created.2.2]
  exact decide_eq_true_iff

theorem stored_id (h : Issued sha256 columns ops apiKey token later) : (stored apiKey later).id = apiKey.id := by
  rw [stored_eq h.created.2.2]
  rfl

theorem stored_keyHash (h : Issued sha256 columns ops apiKey token later) :
    (stored apiKey later).keyHash = hashApiKey sha256 token := by
  rw [stored_eq h.created.2.2, ← h.created.2.1]
  rfl

/-- The rows that the gate can answer with are those of standing keys. -/
theorem standing_of_ok (h : getCurrentApiKey sha256 (tableAfter sha256 columns ops) authorization = .ok row) :
    ∃ text apiKey token later, bearerToken authorization = .ok text ∧ Issued sha256 columns ops apiKey token later ∧
      .revoke apiKey.id ∉ later ∧ hashApiKey sha256 text = hashApiKey sha256 token ∧ row = ofDomain apiKey := by
  obtain ⟨text, htext, hmem, hhash, hactive⟩ := getCurrentApiKey_ok.mp h
  obtain ⟨apiKey, token, later, hissued, rfl⟩ := mem_tableAfter.mp hmem
  have hlater := (stored_active hissued).mp hactive
  rw [stored_keyHash hissued] at hhash
  exact ⟨text, apiKey, token, later, htext, hissued, hlater, hhash.symm, stored_standing hissued hlater⟩

/-- The token of a standing key is accepted, whatever whitespace is around it. -/
theorem ok_of_standing (h : Standing sha256 columns ops apiKey token) (hbears : Bears authorization token) :
    getCurrentApiKey sha256 (tableAfter sha256 columns ops) authorization = .ok (ofDomain apiKey) := by
  obtain ⟨later, hissued, hlater⟩ := h
  obtain ⟨drawn, hdrawn⟩ := hissued.created.1
  have htrimmed : Trimmed token := hdrawn ▸ trimmed_generateApiKey drawn
  have htoken := (bearerToken_iff htrimmed).mpr hbears
  refine getCurrentApiKey_ok.mpr ⟨token, htoken, ?_, hissued.created.2.1, hissued.created.2.2⟩
  exact mem_tableAfter.mpr ⟨apiKey, token, later, hissued, (stored_standing hissued hlater).symm⟩

theorem ok_iff_standing (hsha : CollisionFree sha256 columns ops authorization) :
    getCurrentApiKey sha256 (tableAfter sha256 columns ops) authorization = .ok row ↔
      ∃ apiKey token, Standing sha256 columns ops apiKey token ∧ Bears authorization token ∧ row = ofDomain apiKey := by
  constructor
  · intro h
    obtain ⟨text, apiKey, token, later, htext, hissued, hlater, hhash, hrow⟩ := standing_of_ok h
    obtain rfl := hsha text apiKey token later htext hissued hhash
    obtain ⟨drawn, hdrawn⟩ := hissued.created.1
    have htrimmed : Trimmed text := hdrawn ▸ trimmed_generateApiKey drawn
    exact ⟨apiKey, text, ⟨later, hissued, hlater⟩, (bearerToken_iff htrimmed).mp htext, hrow⟩
  · rintro ⟨apiKey, token, hstanding, hbears, rfl⟩
    exact ok_of_standing hstanding hbears

/-- A revoked key is not let in again, by any header and after any operations. -/
theorem revoked_stays_out (h : Issued sha256 columns ops apiKey token later) (hrevoked : .revoke apiKey.id ∈ later)
    (more : List Operation) :
    getCurrentApiKey sha256 (tableAfter sha256 columns (ops ++ more)) authorization = .ok row → row.id ≠ apiKey.id := by
  intro hok hid
  obtain ⟨_, _, hmem, _, hactive⟩ := getCurrentApiKey_ok.mp hok
  have hissued := h.append more
  have hsame : row = stored apiKey (later ++ more) := by
    refine ApiKeyTable.eq_of_id hmem (mem_tableAfter.mpr ⟨apiKey, token, later ++ more, hissued, rfl⟩) ?_
    rw [hid, stored_id hissued]
  rw [hsame] at hactive
  exact (stored_active hissued).mp hactive (List.mem_append_left more hrevoked)

/-- A revoke changes nothing for the other keys. -/
theorem revoke_affects_no_other {apiKeyId : UUID} (hother : row.id ≠ apiKeyId) :
    getCurrentApiKey sha256 (tableAfter sha256 columns (ops ++ [.revoke apiKeyId])) authorization = .ok row ↔
      getCurrentApiKey sha256 (tableAfter sha256 columns ops) authorization = .ok row := by
  have hrows : row ∈ (tableAfter sha256 columns (ops ++ [.revoke apiKeyId])).rows ↔
      row ∈ (tableAfter sha256 columns ops).rows := by
    rw [tableAfter_append, step_revoke_rows, ApiKeyTable.mem_revoke_of_ne hother]
  simp only [getCurrentApiKey_ok, hrows]

/-- **Who is let in after a run**: the bearer of a token that was issued for a key that is not revoked
since, with the row of that key, and nobody else. A revoked key stays out, and its revoke changes
nothing for the others. -/
theorem getCurrentApiKey_after (hsha : CollisionFree sha256 columns ops authorization) :
    (∀ row, getCurrentApiKey sha256 (tableAfter sha256 columns ops) authorization = .ok row ↔
      ∃ apiKey token, Standing sha256 columns ops apiKey token ∧ Bears authorization token ∧ row = ofDomain apiKey) ∧
    (∀ e, getCurrentApiKey sha256 (tableAfter sha256 columns ops) authorization = .error e → e = unauthorized) ∧
    (∀ apiKey token later more header row, Issued sha256 columns ops apiKey token later → .revoke apiKey.id ∈ later →
      getCurrentApiKey sha256 (tableAfter sha256 columns (ops ++ more)) header = .ok row → row.id ≠ apiKey.id) ∧
    ∀ apiKeyId header row, row.id ≠ apiKeyId →
      (getCurrentApiKey sha256 (tableAfter sha256 columns (ops ++ [.revoke apiKeyId])) header = .ok row ↔
        getCurrentApiKey sha256 (tableAfter sha256 columns ops) header = .ok row) := by
  refine ⟨fun row => ok_iff_standing hsha, fun e => getCurrentApiKey_error, ?_, ?_⟩
  · intro apiKey token later more header row hissued hrevoked
    exact revoked_stays_out hissued hrevoked more
  · intro apiKeyId header row hother
    exact revoke_affects_no_other hother

end Run

/-! ### On one run -/

def firstToken : UrlSafe := ⟨"pU3KGCUwux1tEyze1iN7LtkeP3IfyxlxF0SU1kk8nVw", by decide⟩
def secondToken : UrlSafe := ⟨"NGC-MSAeaf7aoO7ouZl_XHwpmf2v5ZMlPNZUr0361xQ", by decide⟩

/-- The hash, on the tokens of these two. -/
def issuedHash (bytes : ByteArray) : String :=
  if bytes.data = (generateApiKey secondToken).toUTF8.data then "5da44b5477852a6ffb48e5da408499dbf9497160e2c1d481bd1b98b22a1fc278"
  else "c8abfa9562b0884938ab3faf4759722e8a2d4cba7665630973d6c816376c9fa5"

def trialColumns (row : ApiKeyRow) : Except Exn Unit :=
  if row.name.length ≤ 255 then .ok () else .error (.exception "DBAPIError" "value too long for type character varying(255)")

/-- Two keys are issued; the first one is revoked twice, and so is an id that nobody has. -/
def trialOps : List Operation :=
  [.create ⟨firstToken, ⟨1⟩, 10⟩ "first" none none, .revoke ⟨1⟩, .create ⟨secondToken, ⟨2⟩, 20⟩ "second" (some 60) none,
    .revoke ⟨9⟩, .revoke ⟨1⟩]

def trialHeader : Option String := some ("Bearer  " ++ generateApiKey secondToken ++ "\t")

theorem collisionFree_trial : CollisionFree issuedHash trialColumns trialOps trialHeader := by
  intro text apiKey token later htext _ hhash
  have hbearer : bearerToken trialHeader = .ok (generateApiKey secondToken) := by decide
  obtain rfl := Except.ok.inj (htext.symm.trans hbearer)
  by_contra hne
  have hbytes : ¬ token.toUTF8.data = (generateApiKey secondToken).toUTF8.data := fun h =>
    hne (String.toByteArray_inj.mp (ByteArray.ext h)).symm
  rw [hashApiKey, hashApiKey, issuedHash, issuedHash, if_pos rfl, if_neg hbytes] at hhash
  exact absurd hhash (by decide)

/-- The second key is let in. -/
theorem getCurrentApiKey_after_trial : ∃ apiKey token, Standing issuedHash trialColumns trialOps apiKey token ∧
    Bears trialHeader token ∧
    (⟨⟨2⟩, issuedHash (generateApiKey secondToken).toUTF8, "second", some 60, none, true, 20⟩ : ApiKeyRow) = ofDomain apiKey := by
  refine ((getCurrentApiKey_after collisionFree_trial).1 _).mp ?_
  decide +kernel

end ApiKeyService
end Relayix
