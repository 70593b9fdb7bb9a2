import Mathlib.Tactic.Tauto
import Relayix.Core.Accounting.UsageRecorder
import Relayix.Library.Query

/-! The reports of usage (`repositories/usage_repo.py`).

A query is the set of answers that the database may give: rows with one `created_at`, or groups
with one cost, come in any order. So a record may be on two pages or on none, while the totals are
the same in every report. -/
namespace Relayix
open Library Query

/-- A `UsageRecord` that was read: `_to_domain` makes it without the checks of `create`. -/
structure ReadRecord where
  apiKeyId : UUID
  provider : ProviderEnum
  model : String
  tokensIn : Int
  tokensOut : Int
  cost : ℚ
  finishReason : String
  requestId : String
  createdAt : DateTime
  deriving DecidableEq

structure UsageSummary where
  totalRequests : Nat
  totalTokensIn : Int
  totalTokensOut : Int
  totalCost : ℚ
  since : Option DateTime
  until' : Option DateTime
  deriving DecidableEq

structure UsageByModel where
  provider : ProviderEnum
  model : String
  totalRequests : Nat
  totalTokensIn : Int
  totalTokensOut : Int
  totalCost : ℚ
  deriving DecidableEq

namespace UsageRepo

def toDomain (row : UsageRow) : ReadRecord where
  apiKeyId := row.apiKeyId
  provider := row.provider
  model := row.model
  tokensIn := row.tokenIn
  tokensOut := row.tokenOut
  cost := row.cost
  finishReason := row.finishReason
  requestId := row.requestId
  createdAt := row.createdAt

def applyWindow (rows : List UsageRow) (since until' : Option DateTime) : List UsageRow :=
  let rows := match since with
    | some since => rows.filter fun row => since ≤ row.createdAt
    | none => rows
  match until' with
  | some until' => rows.filter fun row => row.createdAt ≤ until'
  | none => rows

/-- The rows that all three queries are about. -/
def ofKey (table : List UsageRow) (apiKeyId : UUID) (since until' : Option DateTime) : List UsageRow :=
  applyWindow (table.filter fun row => row.apiKeyId = apiKeyId) since until'

def summaryByApiKey (table : List UsageRow) (apiKeyId : UUID) (since until' : Option DateTime) : UsageSummary :=
  let rows := ofKey table apiKeyId since until'
  { totalRequests := rows.length
    totalTokensIn := (sum? (rows.map UsageRow.tokenIn)).getD 0
    totalTokensOut := (sum? (rows.map UsageRow.tokenOut)).getD 0
    totalCost := (sum? (rows.map UsageRow.cost)).getD 0
    since, until' }

/-- Most recent first. -/
def listByApiKey (table : List UsageRow) (apiKeyId : UUID) (since until' : Option DateTime) (limit offset : Nat) :
    Set (List ReadRecord) :=
  {records | ∃ order, OrderedDesc UsageRow.createdAt (ofKey table apiKeyId since until') order ∧
    records = (page limit offset order).map toDomain}

/-- The group that a row is in. -/
def pair (row : UsageRow) : ProviderEnum × String := (row.provider, row.model)

/-- What is selected of one group. -/
def ofGroup (rows : List UsageRow) (group : ProviderEnum × String) : UsageByModel :=
  let rows := rows.filter fun row => pair row = group
  { provider := group.1
    model := group.2
    totalRequests := rows.length
    totalTokensIn := (sum? (rows.map UsageRow.tokenIn)).getD 0
    totalTokensOut := (sum? (rows.map UsageRow.tokenOut)).getD 0
    totalCost := (sum? (rows.map UsageRow.cost)).getD 0 }

def usageByModel (table : List UsageRow) (apiKeyId : UUID) (since until' : Option DateTime) : Set (List UsageByModel) :=
  let rows := ofKey table apiKeyId since until'
  {entries | OrderedDesc UsageByModel.totalCost ((groups pair rows).map (ofGroup rows)) entries}

section Reports
variable {table : List UsageRow} {apiKeyId : UUID} {since until' : Option DateTime} {limit offset : Nat}

theorem mem_ofKey {row : UsageRow} : row ∈ ofKey table apiKeyId since until' ↔
    row ∈ table ∧ row.apiKeyId = apiKeyId ∧ (∀ t ∈ since, t ≤ row.createdAt) ∧ ∀ t ∈ until', row.createdAt ≤ t := by
  cases since <;> cases until' <;> simp [ofKey, applyWindow] <;> tauto

/-- Rows of other keys make no difference. -/
theorem ofKey_congr {table' : List UsageRow}
    (h : (table'.filter fun row => row.apiKeyId = apiKeyId) = table.filter fun row => row.apiKeyId = apiKeyId) :
    ofKey table' apiKeyId since until' = ofKey table apiKeyId since until' :=
  congrArg (applyWindow · since until') h

/-! ### Pages -/

/-- What the key has in the window. -/
def recordsOf (table : List UsageRow) (apiKeyId : UUID) (since until' : Option DateTime) : List ReadRecord :=
  (ofKey table apiKeyId since until').map toDomain

theorem mem_listByApiKey {records : List ReadRecord} :
    records ∈ listByApiKey table apiKeyId since until' limit offset ↔
      ∃ order, OrderedDesc ReadRecord.createdAt (recordsOf table apiKeyId since until') order ∧
        records = page limit offset order := by
  have hkey : ∀ row : UsageRow, (toDomain row).createdAt = row.createdAt := fun _ => rfl
  constructor
  · rintro ⟨order, horder, rfl⟩
    exact ⟨_, (orderedDesc_map hkey).mpr ⟨order, horder, rfl⟩, map_page toDomain limit offset order⟩
  · rintro ⟨_, hrecords, rfl⟩
    obtain ⟨order, horder, rfl⟩ := (orderedDesc_map hkey).mp hrecords
    exact ⟨order, horder, (map_page toDomain limit offset order).symm⟩

/-- **Paging neither loses nor repeats a record** exactly when no page ends among different records
with one `created_at`; the pages are sorted in any case. -/
theorem paging_exact_iff (table : List UsageRow) (apiKeyId : UUID) (since until' : Option DateTime) (hlimit : 1 ≤ limit) :
    (∀ pages : Nat → List ReadRecord, (∀ offset, pages offset ∈ listByApiKey table apiKeyId since until' limit offset) →
        ∃ result, Collects pages limit 0 result ∧ result.Perm (recordsOf table apiKeyId since until') ∧
          result.Pairwise fun a b => b.createdAt ≤ a.createdAt) ↔
      ∀ k, ¬ Splits ReadRecord.createdAt (recordsOf table apiKeyId since until') (k * limit) := by
  simp only [mem_listByApiKey]
  exact paging_iff ReadRecord.createdAt (recordsOf table apiKeyId since until') hlimit

/-! Two requests that were stored at the same time. -/

def firstRow : UsageRow := ⟨⟨7⟩, .openai, "gpt-4o", 10, 20, "stop", 1 / 100, "req-1", 5⟩
def secondRow : UsageRow := ⟨⟨7⟩, .anthropic, "claude-sonnet-5", 30, 40, "stop", 1 / 50, "req-2", 5⟩

/-- They are not split by one page. -/
theorem paging_exact_iff_two :
    (∀ pages : Nat → List ReadRecord, (∀ offset, pages offset ∈ listByApiKey [firstRow, secondRow] ⟨7⟩ none none 2 offset) →
        ∃ result, Collects pages 2 0 result ∧ result.Perm (recordsOf [firstRow, secondRow] ⟨7⟩ none none) ∧
          result.Pairwise fun a b => b.createdAt ≤ a.createdAt) ↔
      ∀ k, ¬ Splits ReadRecord.createdAt (recordsOf [firstRow, secondRow] ⟨7⟩ none none) (k * 2) :=
  paging_exact_iff [firstRow, secondRow] ⟨7⟩ none none (by decide)

/-- On pages of one, the first may be listed twice and the second not at all. -/
theorem paging_repeats :
    ¬ ∀ (table : List UsageRow) (apiKeyId : UUID) (since until' : Option DateTime) (limit : Nat), 1 ≤ limit →
      ∀ pages : Nat → List ReadRecord, (∀ offset, pages offset ∈ listByApiKey table apiKeyId since until' limit offset) →
        ∃ result, Collects pages limit 0 result ∧ result.Perm (recordsOf table apiKeyId since until') ∧
          result.Pairwise fun a b => b.createdAt ≤ a.createdAt := by
  intro h
  have hordered : OrderedDesc UsageRow.createdAt [firstRow, secondRow] [firstRow, secondRow] := ⟨.refl _, by decide⟩
  have hswapped : OrderedDesc UsageRow.createdAt [firstRow, secondRow] [secondRow, firstRow] := ⟨.swap _ _ [], by decide⟩
  have hpages : ∀ offset, page 1 offset [toDomain firstRow, toDomain firstRow] ∈
      listByApiKey [firstRow, secondRow] ⟨7⟩ none none 1 offset := by
    intro offset
    match offset with
    | 0 => exact ⟨_, hordered, rfl⟩
    | 1 => exact ⟨_, hswapped, rfl⟩
    | n + 2 => exact ⟨_, hordered, by simp [page]⟩
  obtain ⟨result, hcollects, hperm, _⟩ := h [firstRow, secondRow] ⟨7⟩ none none 1 (le_refl 1) _ hpages
  have hresult := hcollects.eq_drop (le_refl 1) (fun _ => rfl) 0 rfl
  rw [hresult] at hperm
  exact absurd hperm (by decide +kernel)

/-! ### Totals -/

theorem perm_of_unbounded {records : List ReadRecord} (hlimit : (ofKey table apiKeyId since until').length ≤ limit)
    (h : records ∈ listByApiKey table apiKeyId since until' limit 0) : records.Perm (recordsOf table apiKeyId since until') := by
  obtain ⟨order, horder, rfl⟩ := h
  rw [page, List.drop_zero, List.take_of_length_le (horder.perm.length_eq ▸ hlimit)]
  exact horder.perm.map toDomain

/-- The sums over the entries of a report by model are those over its rows. -/
theorem sum_entries {M : Type} [AddCommMonoid M] {rows : List UsageRow} {entries : List UsageByModel}
    (h : entries.Perm ((groups pair rows).map (ofGroup rows))) (total : UsageByModel → M) (value : UsageRow → M)
    (htotal : ∀ group, total (ofGroup rows group) = ((rows.filter fun row => pair row = group).map value).sum) :
    (entries.map total).sum = (rows.map value).sum := by
  have hgroups : ∀ row ∈ rows, pair row ∈ groups pair rows := fun row hrow => mem_groups.mpr ⟨row, hrow, rfl⟩
  rw [(h.map total).sum_eq, List.map_map, ← sum_groups pair value (List.nodup_dedup _) hgroups]
  exact congrArg List.sum (List.map_congr_left fun group _ => htotal group)

/-- The pair that an entry is for. -/
def pairOf (entry : UsageByModel) : ProviderEnum × String := (entry.provider, entry.model)

theorem pairs_entries {rows : List UsageRow} {entries : List UsageByModel}
    (h : entries.Perm ((groups pair rows).map (ofGroup rows))) : (entries.map pairOf).Perm (groups pair rows) := by
  have hpairs := h.map pairOf
  rw [List.map_map] at hpairs
  exact hpairs.trans (.of_eq (List.map_id _))

theorem length_eq_sum (rows : List UsageRow) : rows.length = (rows.map fun _ => 1).sum := by
  rw [List.map_const', List.sum_replicate]
  exact (Nat.mul_one rows.length).symm

theorem sum_listed {M : Type} [AddCommMonoid M] {records : List ReadRecord}
    (h : records.Perm (recordsOf table apiKeyId since until')) (value : ReadRecord → M) :
    (records.map value).sum = ((ofKey table apiKeyId since until').map fun row => value (toDomain row)).sum := by
  rw [(h.map value).sum_eq, recordsOf, List.map_map]
  rfl

/-- **The reports agree**: by model there is one entry for each pair that the key has in the window,
the entries sum up to the summary, and so does the listing of everything; rows of other keys make
no difference to any of them. -/
theorem reports_agree {entries : List UsageByModel} {records : List ReadRecord}
    (hentries : entries ∈ usageByModel table apiKeyId since until')
    (hlimit : (ofKey table apiKeyId since until').length ≤ limit)
    (hrecords : records ∈ listByApiKey table apiKeyId since until' limit 0) :
    ((entries.map pairOf).Nodup ∧ ∀ group, group ∈ entries.map pairOf ↔
      ∃ row ∈ table, row.apiKeyId = apiKeyId ∧ (∀ t ∈ since, t ≤ row.createdAt) ∧ (∀ t ∈ until', row.createdAt ≤ t) ∧
        pair row = group) ∧
    ((entries.map UsageByModel.totalRequests).sum = (summaryByApiKey table apiKeyId since until').totalRequests ∧
      (entries.map UsageByModel.totalTokensIn).sum = (summaryByApiKey table apiKeyId since until').totalTokensIn ∧
      (entries.map UsageByModel.totalTokensOut).sum = (summaryByApiKey table apiKeyId since until').totalTokensOut ∧
      (entries.map UsageByModel.totalCost).sum = (summaryByApiKey table apiKeyId since until').totalCost) ∧
    (records.length = (summaryByApiKey table apiKeyId since until').totalRequests ∧
      (records.map ReadRecord.tokensIn).sum = (summaryByApiKey table apiKeyId since until').totalTokensIn ∧
      (records.map ReadRecord.tokensOut).sum = (summaryByApiKey table apiKeyId since until').totalTokensOut ∧
      (records.map ReadRecord.cost).sum = (summaryByApiKey table apiKeyId since until').totalCost) ∧
    (∀ record ∈ records, record.apiKeyId = apiKeyId) ∧
    ∀ table', (table'.filter fun row => row.apiKeyId = apiKeyId) = (table.filter fun row => row.apiKeyId = apiKeyId) →
      summaryByApiKey table' apiKeyId since until' = summaryByApiKey table apiKeyId since until' ∧
      usageByModel table' apiKeyId since until' = usageByModel table apiKeyId since until' ∧
      ∀ limit offset, listByApiKey table' apiKeyId since until' limit offset =
        listByApiKey table apiKeyId since until' limit offset := by
  have hperm : entries.Perm ((groups pair (ofKey table apiKeyId since until')).map (ofGroup (ofKey table apiKeyId since until'))) :=
    hentries.perm
  have hlisted := perm_of_unbounded hlimit hrecords
  have hpairs := pairs_entries hperm
  refine ⟨⟨hpairs.nodup_iff.mpr (List.nodup_dedup _), fun group => ?_⟩, ⟨?_, ?_, ?_, ?_⟩, ⟨?_, ?_, ?_, ?_⟩,
    fun record hrecord => ?_, fun table' htable => ?_⟩
  · rw [hpairs.mem_iff, mem_groups]
    simp only [mem_ofKey, and_assoc]
  · have hone := sum_entries hperm UsageByModel.totalRequests (fun _ => 1) fun group => length_eq_sum _
    exact hone.trans (length_eq_sum _).symm
  · exact (sum_entries hperm _ UsageRow.tokenIn fun group => coalesce_sum? _).trans (coalesce_sum? _).symm
  · exact (sum_entries hperm _ UsageRow.tokenOut fun group => coalesce_sum? _).trans (coalesce_sum? _).symm
  · exact (sum_entries hperm _ UsageRow.cost fun group => coalesce_sum? _).trans (coalesce_sum? _).symm
  · exact hlisted.length_eq.trans (List.length_map _)
  · exact (sum_listed hlisted ReadRecord.tokensIn).trans (coalesce_sum? _).symm
  · exact (sum_listed hlisted ReadRecord.tokensOut).trans (coalesce_sum? _).symm
  · exact (sum_listed hlisted ReadRecord.cost).trans (coalesce_sum? _).symm
  · obtain ⟨row, hrow, rfl⟩ := List.mem_map.mp (hlisted.mem_iff.mp hrecord)
    exact (mem_ofKey.mp hrow).2.1
  · have hsame : ofKey table' apiKeyId since until' = ofKey table apiKeyId since until' := ofKey_congr htable
    refine ⟨?_, ?_, fun limit offset => ?_⟩
    · rw [summaryByApiKey, hsame]
      rfl
    · rw [usageByModel, hsame]
      rfl
    · rw [listByApiKey, hsame]
      rfl

/-- Two models of the key, and another key's request. -/
def threeRows : List UsageRow := [firstRow, ⟨⟨8⟩, .openai, "gpt-4o", 1, 1, "stop", 99, "req-9", 5⟩, secondRow]

theorem reports_agree_three :
    ∃ entries ∈ usageByModel threeRows ⟨7⟩ none none, ∃ records ∈ listByApiKey threeRows ⟨7⟩ none none 50 0,
      (entries.map UsageByModel.totalCost).sum = (summaryByApiKey threeRows ⟨7⟩ none none).totalCost ∧
      (records.map ReadRecord.cost).sum = (summaryByApiKey threeRows ⟨7⟩ none none).totalCost ∧
      ∀ record ∈ records, record.apiKeyId = ⟨7⟩ := by
  let rows := ofKey threeRows ⟨7⟩ none none
  have hentries : [ofGroup rows (pair secondRow), ofGroup rows (pair firstRow)] ∈ usageByModel threeRows ⟨7⟩ none none :=
    ⟨.swap _ _ [], by decide +kernel⟩
  have hrecords : [toDomain firstRow, toDomain secondRow] ∈ listByApiKey threeRows ⟨7⟩ none none 50 0 :=
    ⟨[firstRow, secondRow], ⟨.refl _, by decide⟩, rfl⟩
  obtain ⟨_, ⟨_, _, _, hentry⟩, ⟨_, _, _, hrecord⟩, hkey, _⟩ := reports_agree hentries (by decide) hrecords
  exact ⟨_, hentries, _, hrecords, hentry, hrecord, hkey⟩

end Reports
end UsageRepo
end Relayix
