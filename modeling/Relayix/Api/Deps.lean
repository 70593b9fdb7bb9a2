import Relayix.Infra.Security.Crypto
import Relayix.Repositories.ApiKeyRepo

/-! The two gates (`get_current_api_key` and `get_current_admin` of `api/deps.py`).

Both begin with the token that the header bears. The gate of the API keys looks its hash up, so any
text at all is accepted or refused; that of the admin compares the text itself, and raises a
`TypeError` on one that is not ASCII. -/
namespace Relayix
open Library.Text

def unauthorized : Exn := .exception "Unauthorized" "Invalid or missing API key"

/-- The token of a header, with which both gates begin. -/
def bearerToken (authorization : Option String) : Except Exn String :=
  match authorization with
  | none => .error unauthorized
  | some authorization =>
    if authorization = "" ∨ "Bearer ".toList.isPrefixOf authorization.toList = false then .error unauthorized
    else
      let token := String.ofList (strip isSpace (removePrefix "Bearer ".toList authorization.toList))
      if token = "" then .error unauthorized else .ok token

def getCurrentApiKey (sha256 : ByteArray → String) (table : ApiKeyTable) (authorization : Option String) :
    Except Exn ApiKeyRow := do
  let token ← bearerToken authorization
  let keyHash := hashApiKey sha256 token
  match table.rows.find? fun row => row.keyHash = keyHash ∧ row.isActive with
  | none => throw unauthorized
  | some apiKey => pure apiKey

def getCurrentAdmin (adminApiToken : String) (authorization : Option String) : Except Exn Unit := do
  let token ← bearerToken authorization
  if !(← compareDigest token adminApiToken) then throw unauthorized

/-! ### The token of a header -/

/-- The header is `Bearer ` and the token, up to whitespace around it. -/
def Bears (authorization : Option String) (token : String) : Prop :=
  ∃ before after : String, isBlank before = true ∧ isBlank after = true ∧
    authorization = some ("Bearer " ++ before ++ token ++ after)

/-- Nothing to trim, and something left. -/
structure Trimmed (token : String) : Prop where
  nonempty : token ≠ ""
  trimmed : strip isSpace token.toList = token.toList

theorem trimmed_generateApiKey (drawn : UrlSafe) : Trimmed (generateApiKey drawn) :=
  ⟨generateApiKey_ne_empty drawn, strip_generateApiKey drawn⟩

section Header
variable {authorization : Option String} {token : String}

/-- What is refused before any token is looked at is refused with 401. -/
theorem bearerToken_error {e : Exn} (h : bearerToken authorization = .error e) : e = unauthorized := by
  unfold bearerToken at h
  split at h
  · cases h
    rfl
  · simp only at h
    split_ifs at h <;> cases h <;> rfl

theorem bearerToken_bearer (rest : String) : bearerToken (some ("Bearer " ++ rest)) =
    if String.ofList (strip isSpace rest.toList) = "" then .error unauthorized
    else .ok (String.ofList (strip isSpace rest.toList)) := by
  have hempty : "Bearer " ++ rest ≠ "" := by simp
  have hbegins : "Bearer ".toList.isPrefixOf ("Bearer " ++ rest).toList = true := by
    rw [String.toList_append]
    exact List.isPrefixOf_iff_prefix.mpr (List.prefix_append _ _)
  have hrest : removePrefix "Bearer ".toList ("Bearer " ++ rest).toList = rest.toList := by
    rw [String.toList_append, removePrefix_append]
  have hbearer : ¬ ("Bearer " ++ rest = "" ∨ "Bearer ".toList.isPrefixOf ("Bearer " ++ rest).toList = false) := by
    rw [hbegins]
    simp [hempty]
  simp only [bearerToken]
  rw [if_neg hbearer, hrest]

theorem bearerToken_ok : bearerToken authorization = .ok token ↔
    token ≠ "" ∧ ∃ rest : String, authorization = some ("Bearer " ++ rest) ∧ strip isSpace rest.toList = token.toList := by
  constructor
  · intro h
    have hbearer : ∃ rest : String, authorization = some ("Bearer " ++ rest) := by
      unfold bearerToken at h
      split at h
      · cases h
      · rename_i header
        by_cases hheader : header = "" ∨ "Bearer ".toList.isPrefixOf header.toList = false
        · rw [if_pos hheader] at h
          cases h
        · obtain ⟨rest, hrest⟩ := List.isPrefixOf_iff_prefix.mp (Bool.not_eq_false _ ▸ (not_or.mp hheader).2)
          refine ⟨String.ofList rest, congrArg some (String.ext ?_)⟩
          rw [← hrest]
          simp
    obtain ⟨rest, rfl⟩ := hbearer
    rw [bearerToken_bearer] at h
    split_ifs at h with hblank
    obtain rfl := Except.ok.inj h
    exact ⟨hblank, rest, rfl, String.toList_ofList.symm⟩
  · rintro ⟨hne, rest, rfl, hstrip⟩
    rw [bearerToken_bearer, hstrip, String.ofList_toList, if_neg hne]

/-- A text is blank if there is nothing but whitespace in it. -/
theorem isBlank_iff {t : String} : isBlank t = true ↔ ∀ c ∈ t.toList, isSpace c = true := List.all_eq_true

/-- The token of a header is the one that it bears. -/
theorem bearerToken_iff (h : Trimmed token) : bearerToken authorization = .ok token ↔ Bears authorization token := by
  rw [bearerToken_ok]
  constructor
  · rintro ⟨_, rest, rfl, hstrip⟩
    obtain ⟨before, after, hb, ha, hrest⟩ := (strip_eq_iff h.trimmed rest.toList).mp hstrip
    refine ⟨String.ofList before, String.ofList after, ?_, ?_, ?_⟩
    · rwa [isBlank_iff, String.toList_ofList]
    · rwa [isBlank_iff, String.toList_ofList]
    · refine congrArg some (String.ext ?_)
      simp [hrest]
  · rintro ⟨before, after, hb, ha, rfl⟩
    refine ⟨h.nonempty, before ++ token ++ after, ?_, ?_⟩
    · rw [String.append_assoc, String.append_assoc, String.append_assoc]
    · rw [String.toList_append, String.toList_append, strip_surrounded (isBlank_iff.mp hb) (isBlank_iff.mp ha), h.trimmed]

end Header

/-! ### The gate of the API keys -/

section ApiKeys
variable {sha256 : ByteArray → String} {table : ApiKeyTable} {authorization : Option String}

/-- The active row under the hash of the token. -/
theorem getCurrentApiKey_ok {row : ApiKeyRow} : getCurrentApiKey sha256 table authorization = .ok row ↔
    ∃ token, bearerToken authorization = .ok token ∧ row ∈ table.rows ∧ row.keyHash = hashApiKey sha256 token ∧
      row.isActive = true := by
  constructor
  · intro h
    obtain ⟨token, htoken, h⟩ := ok_of_bind h
    refine ⟨token, htoken, ?_⟩
    dsimp only at h
    cases hfind : table.rows.find? fun row => row.keyHash = hashApiKey sha256 token ∧ row.isActive with
    | none =>
      rw [hfind] at h
      cases h
    | some found =>
      rw [hfind] at h
      cases h
      have hfound : row.keyHash = hashApiKey sha256 token ∧ row.isActive = true := by simpa using List.find?_some hfind
      exact ⟨List.mem_of_find?_eq_some hfind, hfound⟩
  · rintro ⟨token, htoken, hmem, hhash, hactive⟩
    unfold getCurrentApiKey
    rw [htoken]
    show (match table.rows.find? _ with | none => _ | some apiKey => _) = _
    cases hfind : table.rows.find? fun row => row.keyHash = hashApiKey sha256 token ∧ row.isActive with
    | none => exact absurd (decide_eq_true ⟨hhash, hactive⟩) (List.find?_eq_none.mp hfind row hmem)
    | some found =>
      have hfound : found.keyHash = hashApiKey sha256 token ∧ found.isActive = true := by simpa using List.find?_some hfind
      have hsame : found = row :=
        ApiKeyTable.eq_of_keyHash (List.mem_of_find?_eq_some hfind) hmem (hfound.1.trans hhash.symm)
      rw [hsame]
      rfl

/-- Every other header is refused with 401. -/
theorem getCurrentApiKey_error {e : Exn} (h : getCurrentApiKey sha256 table authorization = .error e) :
    e = unauthorized := by
  unfold getCurrentApiKey at h
  cases htoken : bearerToken authorization with
  | error e' =>
    rw [htoken] at h
    cases h
    exact bearerToken_error htoken
  | ok token =>
    rw [htoken] at h
    change (match table.rows.find? _ with | none => _ | some apiKey => _) = _ at h
    split at h
    · cases h
      rfl
    · cases h

end ApiKeys

/-! ### The gate of the admin -/

section Admin
variable {adminApiToken : String} {authorization : Option String}

/-- Between the whitespace, what the header bears is ASCII. -/
def BearsAscii (authorization : Option String) : Prop :=
  ∀ rest : String, authorization = some ("Bearer " ++ rest) → (strip isSpace rest.toList).all isAscii = true

/-- A gate that ends in nothing but 401 where it does not accept. -/
def Decides {α : Type} (gate : Except Exn α) : Prop := ∀ e, gate = .error e → e = unauthorized

theorem getCurrentAdmin_of_error {e : Exn} (h : bearerToken authorization = .error e) :
    getCurrentAdmin adminApiToken authorization = .error unauthorized := by
  unfold getCurrentAdmin
  rw [h, bearerToken_error h]
  rfl

theorem getCurrentAdmin_of_ascii {token : String} (h : bearerToken authorization = .ok token)
    (hadmin : adminApiToken.toList.all isAscii = true) (htoken : token.toList.all isAscii = true) :
    getCurrentAdmin adminApiToken authorization = if token = adminApiToken then .ok () else .error unauthorized := by
  have hcompare : compareDigest token adminApiToken = .ok (token = adminApiToken) := by
    rw [compareDigest, htoken, hadmin]
    rfl
  unfold getCurrentAdmin
  rw [h]
  show (compareDigest token adminApiToken >>= _) = _
  rw [hcompare]
  by_cases hsame : token = adminApiToken
  · rw [if_pos hsame, decide_eq_true hsame]
    rfl
  · rw [if_neg hsame, decide_eq_false hsame]
    rfl

theorem getCurrentAdmin_of_not_ascii {token : String} (h : bearerToken authorization = .ok token)
    (htoken : token.toList.all isAscii = false) : getCurrentAdmin adminApiToken authorization = .error notAscii := by
  have hcompare : compareDigest token adminApiToken = .error notAscii := by
    rw [compareDigest, htoken]
    rfl
  unfold getCurrentAdmin
  rw [h]
  show (compareDigest token adminApiToken >>= _) = _
  rw [hcompare]
  rfl

/-- A header with a token bears ASCII when the token is. -/
theorem bearsAscii_iff {token : String} (h : bearerToken authorization = .ok token) :
    BearsAscii authorization ↔ token.toList.all isAscii = true := by
  obtain ⟨_, rest, rfl, hstrip⟩ := bearerToken_ok.mp h
  constructor
  · intro hascii
    rw [← hstrip]
    exact hascii rest rfl
  · intro htoken rest' hrest
    have hsame : rest = rest' := (String.append_right_inj _).mp (Option.some.inj hrest)
    rwa [← hsame, hstrip]

/-- One without a token bears nothing. -/
theorem bearsAscii_of_error {e : Exn} (h : bearerToken authorization = .error e) : BearsAscii authorization := by
  rintro rest rfl
  rw [bearerToken_bearer] at h
  split_ifs at h with hblank
  have hnil : strip isSpace rest.toList = [] := String.ofList_eq_empty_iff.mp hblank
  rw [hnil]
  rfl

/-- **Both gates accept or refuse with 401, exactly where no header bears what is not ASCII.** The
admin's accepts the configured token, whatever whitespace is around it. -/
theorem gates_decide_iff (hne : adminApiToken ≠ "") (htrim : strip isSpace adminApiToken.toList = adminApiToken.toList)
    (hascii : adminApiToken.toList.all isAscii = true) (sha256 : ByteArray → String) (table : ApiKeyTable)
    (authorization : Option String) :
    (Decides (getCurrentAdmin adminApiToken authorization) ∧ Decides (getCurrentApiKey sha256 table authorization) ∧
      (getCurrentAdmin adminApiToken authorization = .ok () ↔ Bears authorization adminApiToken)) ↔
      BearsAscii authorization := by
  rw [← bearerToken_iff ⟨hne, htrim⟩]
  cases htoken : bearerToken authorization with
  | error e =>
    rw [getCurrentAdmin_of_error htoken]
    refine iff_of_true ⟨?_, fun _ => getCurrentApiKey_error, ?_⟩ (bearsAscii_of_error htoken)
    · rintro _ h
      exact (Except.error.inj h).symm
    · simp
  | ok token =>
    rw [bearsAscii_iff htoken]
    cases htext : token.toList.all isAscii with
    | true =>
      rw [getCurrentAdmin_of_ascii htoken hascii htext]
      refine iff_of_true ⟨?_, fun _ => getCurrentApiKey_error, ?_⟩ rfl
      · intro e h
        split_ifs at h
        exact (Except.error.inj h).symm
      · simp
    | false =>
      rw [getCurrentAdmin_of_not_ascii htoken htext]
      refine iff_of_false (fun h => ?_) Bool.false_ne_true
      exact absurd (h.1 notAscii rfl) (by decide)

def trialAdminToken : String := "relayix-test-admin-token"

/-- The hash, on the two texts below. -/
def trialHash (bytes : ByteArray) : String :=
  if bytes.data = "é".toUTF8.data then "4a99557e4033c3539de2eb65472017cad5f9557f7a0625a09f1c3f6e2ba69c4c"
  else "11548e7daef4f4acfc51c17a507c1fae7e6011a048228366107d36ec42d9c996"

/-- A header that Latin-1 spells, on which the comparison raises. -/
theorem getCurrentAdmin_raises : "Bearer é".toList.all (fun c => c.toNat < 256) = true ∧
    ¬ Decides (getCurrentAdmin trialAdminToken (some "Bearer é")) ∧
    getCurrentApiKey trialHash .empty (some "Bearer é") = .error unauthorized := by
  refine ⟨by decide, fun h => ?_, rfl⟩
  exact absurd (h notAscii rfl) (by decide)

/-- A no-break space and a tab around the token. -/
def spacedHeader : Option String := some "Bearer \u00a0relayix-test-admin-token\t"

theorem gates_decide_spaced : Decides (getCurrentAdmin trialAdminToken spacedHeader) ∧
    Decides (getCurrentApiKey trialHash .empty spacedHeader) ∧
    (getCurrentAdmin trialAdminToken spacedHeader = .ok () ↔ Bears spacedHeader trialAdminToken) := by
  have hbearer : bearerToken spacedHeader = .ok trialAdminToken := by decide
  refine (gates_decide_iff ?_ ?_ ?_ trialHash .empty spacedHeader).mpr ((bearsAscii_iff hbearer).mpr ?_)
  · decide
  · decide
  · decide
  · decide

end Admin

end Relayix
