import Relayix.Core.Accounting.PricingCost
import Relayix.Core.Accounting.UsageAudit
import Relayix.Repositories.UsageRepo

/-! What the usage table keeps of a cost.

Prices have six decimals for a thousand tokens, so a cost has nine, and its column six. A cost is
kept as it was computed when what the tokens cost has three decimals for a thousand. -/
namespace Relayix
open Library Decimal Query

/-- What the columns of `usage_record` accept. -/
structure UsageRow.Fits (row : UsageRow) : Prop where
  counted : TokenCount row.tokenIn ∧ TokenCount row.tokenOut
  priced : row.cost < 10 ^ 6

/-- The row as it is stored: `cost` is `NUMERIC(12, 6)`. -/
def UsageRow.stored (row : UsageRow) : UsageRow := { row with cost := toScale 6 row.cost }

/-- A response that was recorded for a key, when it was priced, and its record. -/
structure Saved where
  apiKeyId : UUID
  response : ChatResponse
  asOf : DateTime
  record : UsageRecord

/-- What was recorded is priced at its time, for its key, and in the tables' ranges. -/
structure Saved.Priced (pricing : PricingTable) (x : Saved) : Prop where
  cost : pricing.costFor x.response.provider x.response.model x.response.tokensIn x.response.tokensOut x.asOf = .ok x.record.cost
  row : UsageRow.ofRecord x.record = ⟨x.apiKeyId, x.response.provider, x.response.model, x.response.tokensIn,
    x.response.tokensOut, x.response.finishReason, x.record.cost, x.response.requestId, x.record.createdAt⟩
  fits : (UsageRow.ofRecord x.record).Fits

/-- With these prices, what the tokens cost has three decimals for a thousand of them. -/
def Saved.Scaled (pricing : PricingTable) (x : Saved) : Prop :=
  ∀ rate, pricing.get x.response.provider x.response.model x.asOf = .ok rate →
    ∃ n : ℤ, x.response.tokensIn * rate.pricePer1kInput + x.response.tokensOut * rate.pricePer1kOutput = n / 1000

namespace UsageRecorder

/-- Requests that recorded a response each, one after the other, and the rows that they committed. -/
inductive Saves (I : Interface) (pricing : PricingTable) : List Saved → List UsageRow → Prop
  | none : Saves I pricing [] []
  | next {earlier : List Saved} {rows : List UsageRow} {x : Saved} {t : Trace ((I.sum clockI).sum (sessionI UsageRow)) Exn}
      (before : Saves I pricing earlier rows)
      (recorded : Ends (getSession ((ofSession pricing).record x.apiKeyId x.response)) t (.ok x.record))
      (answered : ∀ e ∈ rights t, e.answer = .ok ())
      (read : readings t = [x.asOf, x.record.createdAt])
      (fits : (UsageRow.ofRecord x.record).Fits) :
      Saves I pricing (earlier ++ [x]) (Postgres.after ⟨rows, []⟩ (rights t)).rows

section Runs
variable {I : Interface} {pricing : PricingTable} {saved : List Saved} {rows : List UsageRow}

/-- One request commits the row of its record. -/
theorem request_saves {x : Saved} {t : Trace ((I.sum clockI).sum (sessionI UsageRow)) Exn}
    (recorded : Ends (getSession ((ofSession pricing).record x.apiKeyId x.response)) t (.ok x.record))
    (answered : ∀ e ∈ rights t, e.answer = .ok ()) (read : readings t = [x.asOf, x.record.createdAt])
    (fits : (UsageRow.ofRecord x.record).Fits) :
    (Postgres.after ⟨rows, []⟩ (rights t)).rows = rows ++ [UsageRow.ofRecord x.record] ∧ x.Priced pricing := by
  obtain ⟨s, hs, hlefts, _, hrows⟩ := getSession_ends recorded answered
  obtain ⟨asOf, rfl, hcost, hrow⟩ := record_returned hs
  have hreadings : readings t = [asOf, x.record.createdAt] := by
    rw [readings, hlefts]
    rfl
  obtain rfl : asOf = x.asOf := (List.cons.inj (hreadings.symm.trans read)).1
  exact ⟨hrows ⟨rows, []⟩, hcost, hrow, fits⟩

/-- And so all of them do. -/
theorem Saves.rows_eq (h : Saves I pricing saved rows) :
    rows = saved.map (fun x => UsageRow.ofRecord x.record) ∧ ∀ x ∈ saved, x.Priced pricing := by
  induction h with
  | none => exact ⟨rfl, fun x hx => by cases hx⟩
  | next before recorded answered read fits ih =>
    obtain ⟨hrows, hpriced⟩ := request_saves recorded answered read fits
    refine ⟨?_, fun y hy => ?_⟩
    · rw [hrows, ih.1, List.map_append, List.map_singleton]
    · rcases List.mem_append.mp hy with hy | hy
      · exact ih.2 y hy
      · rw [List.mem_singleton.mp hy]
        exact hpriced

/-- The table that the reports read. -/
def usageTable (rows : List UsageRow) : List UsageRow := rows.map UsageRow.stored

/-- What was saved for a key. -/
def savedFor (saved : List Saved) (apiKeyId : UUID) : List Saved := saved.filter fun x => x.apiKeyId = apiKeyId

theorem ofKey_usageTable (h : Saves I pricing saved rows) (apiKeyId : UUID) :
    UsageRepo.ofKey (usageTable rows) apiKeyId none none =
      (savedFor saved apiKeyId).map fun x => (UsageRow.ofRecord x.record).stored := by
  obtain ⟨rfl, hpriced⟩ := h.rows_eq
  show (List.map _ (List.map _ saved)).filter _ = _
  rw [List.map_map, List.filter_map, savedFor]
  refine congrArg (List.map _) (List.filter_congr fun x hx => ?_)
  exact congrArg (fun key => decide (key = apiKeyId)) (congrArg UsageRow.apiKeyId (hpriced x hx).row)

/-- **No money is lost**: the summary of the key totals the costs that were computed, and everything
that was saved for it is listed as it was saved. -/
def Lossless (saved : List Saved) (rows : List UsageRow) (apiKeyId : UUID) : Prop :=
  (UsageRepo.summaryByApiKey (usageTable rows) apiKeyId none none).totalCost =
      ((savedFor saved apiKeyId).map fun x => x.record.cost).sum ∧
    ∀ limit records, (UsageRepo.ofKey (usageTable rows) apiKeyId none none).length ≤ limit →
      records ∈ UsageRepo.listByApiKey (usageTable rows) apiKeyId none none limit 0 →
        records.Perm ((savedFor saved apiKeyId).map fun x => UsageRepo.toDomain (.ofRecord x.record))

/-- It is when each cost has the six decimals of its column. -/
theorem lossless_iff_decimals (h : Saves I pricing saved rows) (apiKeyId : UUID) :
    Lossless saved rows apiKeyId ↔ ∀ x ∈ savedFor saved apiKeyId, ∃ n : ℤ, x.record.cost = n / 10 ^ 6 := by
  have hrows := ofKey_usageTable h apiKeyId
  constructor
  · rintro ⟨_, hlisted⟩ x hx
    obtain ⟨order, horder⟩ := exists_ordered UsageRow.createdAt (UsageRepo.ofKey (usageTable rows) apiKeyId none none)
    have hpage : order.map UsageRepo.toDomain ∈ UsageRepo.listByApiKey (usageTable rows) apiKeyId none none order.length 0 := by
      refine ⟨order, horder, congrArg (List.map _) ?_⟩
      rw [page, List.drop_zero, List.take_length]
    have hperm := (hlisted _ _ horder.perm.length_eq.ge hpage).symm.trans (horder.perm.map UsageRepo.toDomain)
    rw [hrows, List.map_map] at hperm
    obtain ⟨y, _, hy⟩ := List.mem_map.mp (hperm.mem_iff.mp (List.mem_map_of_mem hx))
    have hcost : toScale 6 y.record.cost = x.record.cost := congrArg ReadRecord.cost hy
    exact ⟨_, hcost.symm⟩
  · intro hdecimals
    have hkept : ∀ x ∈ savedFor saved apiKeyId, (UsageRow.ofRecord x.record).stored = .ofRecord x.record := fun x hx =>
      congrArg (fun cost => { UsageRow.ofRecord x.record with cost }) (toScale_eq_iff.mpr (hdecimals x hx))
    rw [List.map_congr_left hkept] at hrows
    refine ⟨?_, fun limit records hlimit hrecords => ?_⟩
    · show (sum? ((UsageRepo.ofKey (usageTable rows) apiKeyId none none).map UsageRow.cost)).getD 0 = _
      rw [coalesce_sum?, hrows, List.map_map]
      rfl
    · have hperm := UsageRepo.perm_of_unbounded hlimit hrecords
      rwa [UsageRepo.recordsOf, hrows, List.map_map] at hperm

/-- A cost has six decimals when what the tokens cost has three for a thousand. -/
theorem decimals_iff_scaled {notFound : ProviderEnum → String → DateTime → String} {rates : List PricingRate} {x : Saved}
    (hrates : ∀ rate ∈ rates, rate.Stored) (hx : x.Priced (.build notFound rates)) :
    (∃ n : ℤ, x.record.cost = n / 10 ^ 6) ↔ x.Scaled (.build notFound rates) := by
  obtain ⟨rate, hget, hcalculated⟩ := PricingTable.get_of_costFor hx.cost
  obtain ⟨hin, hout⟩ : TokenCount x.response.tokensIn ∧ TokenCount x.response.tokensOut := by
    have hcounted := hx.fits.counted
    rwa [hx.row] at hcounted
  have hstored := hrates rate (PricingTable.newest_of_get notFound hget).registered
  rw [PricingRate.calculateCost_eq hstored hin hout] at hcalculated
  have hcost := Except.ok.inj hcalculated
  have hscaled : x.Scaled (.build notFound rates) ↔
      ∃ n : ℤ, x.response.tokensIn * rate.pricePer1kInput + x.response.tokensOut * rate.pricePer1kOutput = n / 1000 := by
    refine ⟨fun h => h rate hget, fun h rate' hget' => ?_⟩
    rw [hget] at hget'
    obtain rfl := Except.ok.inj hget'
    exact h
  rw [hscaled, ← hcost]
  refine exists_congr fun n => ?_
  have hthousand : (n : ℚ) / 10 ^ 6 * 1000 = n / 1000 := by ring
  rw [div_eq_iff (by norm_num), hthousand]

/-- **Usage is persisted without a loss** exactly when what the tokens of each response cost has three
decimals for a thousand. -/
theorem lossless_iff {notFound : ProviderEnum → String → DateTime → String} {rates : List PricingRate}
    (hrates : ∀ rate ∈ rates, rate.Stored) (h : Saves I (.build notFound rates) saved rows) (apiKeyId : UUID) :
    Lossless saved rows apiKeyId ↔ ∀ x ∈ saved, x.apiKeyId = apiKeyId → x.Scaled (.build notFound rates) := by
  rw [lossless_iff_decimals h apiKeyId]
  have hmem : ∀ x, x ∈ savedFor saved apiKeyId ↔ x ∈ saved ∧ x.apiKeyId = apiKeyId := fun x => by
    rw [savedFor, List.mem_filter, decide_eq_true_iff]
  constructor
  · intro hall x hx hkey
    exact (decimals_iff_scaled hrates (h.rows_eq.2 x hx)).mp (hall x ((hmem x).mpr ⟨hx, hkey⟩))
  · intro hall x hx
    obtain ⟨hsaved, hkey⟩ := (hmem x).mp hx
    exact (decimals_iff_scaled hrates (h.rows_eq.2 x hsaved)).mpr (hall x hsaved hkey)

end Runs

/-! One token, at a quarter of a cent for a thousand. -/

def quarterCent : PricingRate := ⟨.openai, "gpt-4o", 1 / 400, 1 / 100, 0, isBlank_gpt4o, by norm_num, by norm_num⟩

theorem quarterCent_stored : ∀ rate ∈ [quarterCent], rate.Stored := by
  intro rate hrate
  rw [List.mem_singleton.mp hrate]
  exact ⟨⟨2500, by decide, by norm_num [quarterCent]⟩, ⟨10000, by decide, by norm_num [quarterCent]⟩⟩

theorem oneToken_saves :
    ∃ x rows, Saves .silent (.build (fun _ _ _ => "") [quarterCent]) [x] rows ∧ x.apiKeyId = ⟨7⟩ ∧ x.record.cost = 1 / 400000 := by
  have hget : (PricingTable.build (fun _ _ _ => "") [quarterCent]).get .openai "gpt-4o" 4 = .ok quarterCent := rfl
  have hcostFor : (PricingTable.build (fun _ _ _ => "") [quarterCent]).costFor .openai "gpt-4o" 1 0 4 = .ok (1 / 400000) := by
    decide +kernel
  let response : ChatResponse := ⟨.openai, "gpt-4o", "h", 1, 0, "length", "req-1"⟩
  obtain ⟨record, hrecord, hcost, hrow⟩ := run_returned (I := .silent) (r := response) ⟨7⟩ hget ⟨by decide, by decide⟩ 4
  have hpaid : record.cost = 1 / 400000 := Except.ok.inj (hcost.symm.trans hcostFor)
  have hcreated : record.createdAt = 4 := congrArg UsageRow.createdAt hrow
  have hone : TokenCount 1 := by constructor <;> decide
  have hzero : TokenCount 0 := by constructor <;> decide
  have hfits : (UsageRow.ofRecord record).Fits := by
    have hbelow : record.cost < 10 ^ 6 := by
      rw [hpaid]
      norm_num
    rw [hrow]
    exact ⟨⟨hone, hzero⟩, hbelow⟩
  refine ⟨⟨⟨7⟩, response, 4, record⟩, _, .next .none (getSession_returned hrecord) ?_ ?_ hfits, rfl, hpaid⟩
  · intro e he
    rcases List.mem_cons.mp he with rfl | he
    · rfl
    · rcases List.mem_cons.mp he with rfl | he
      · rfl
      · rw [List.mem_singleton.mp he]
  · rw [hcreated]
    rfl

/-- Its cost is two and a half millionths. -/
theorem lossless_iff_oneToken :
    ∃ x rows, Saves .silent (.build (fun _ _ _ => "") [quarterCent]) [x] rows ∧
      (Lossless [x] rows ⟨7⟩ ↔ ∀ y ∈ [x], y.apiKeyId = ⟨7⟩ → y.Scaled (.build (fun _ _ _ => "") [quarterCent])) := by
  obtain ⟨x, rows, hsaves, _, _⟩ := oneToken_saves
  exact ⟨x, rows, hsaves, lossless_iff quarterCent_stored hsaves ⟨7⟩⟩

/-- And is not kept. -/
theorem cost_lost :
    ¬ ∀ (notFound : ProviderEnum → String → DateTime → String) (rates : List PricingRate) (saved : List Saved)
      (rows : List UsageRow) (apiKeyId : UUID), (∀ rate ∈ rates, rate.Stored) →
      Saves .silent (.build notFound rates) saved rows → Lossless saved rows apiKeyId := by
  intro h
  obtain ⟨x, rows, hsaves, hkey, hpaid⟩ := oneToken_saves
  have hkept := (lossless_iff_decimals hsaves ⟨7⟩).mp (h _ _ _ _ ⟨7⟩ quarterCent_stored hsaves)
  obtain ⟨n, hn⟩ := hkept x (List.mem_filter.mpr ⟨List.mem_singleton_self x, decide_eq_true hkey⟩)
  rw [hpaid, eq_div_iff (by norm_num)] at hn
  have hwhole : (5 : ℤ) = 2 * n := by
    have hdoubled : (5 : ℚ) = 2 * n := by
      rw [← hn]
      norm_num
    exact_mod_cast hdoubled
  omega

end UsageRecorder
end Relayix
