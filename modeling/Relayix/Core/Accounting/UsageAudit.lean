import Relayix.Core.Accounting.PricingHistory
import Relayix.Core.Accounting.UsageRecorder

/-! What a record tells of its price.

A recording reads the clock twice: for the rate, and for `created_at`. So a cost is that of the
first reading, and the record, which has the second, tells it where no rate took effect between. -/
namespace Relayix
open Library

namespace PricingTable

/-- What is found stays so until another rate of the pair takes effect. -/
theorem get_until {notFound : ProviderEnum → String → DateTime → String} {rates : List PricingRate} {provider : ProviderEnum}
    {model : String} {asOf later : DateTime} {rate : PricingRate} (hle : asOf ≤ later)
    (hquiet : ∀ other ∈ rates, (provider, model) = (other.provider, other.model) → asOf < other.effectiveFrom →
      later < other.effectiveFrom) (hget : (build notFound rates).get provider model asOf = .ok rate) :
    (build notFound rates).get provider model later = .ok rate := by
  have hsame : rates.filter (InEffect provider model later) = rates.filter (InEffect provider model asOf) := by
    refine List.filter_congr fun other hother => decide_eq_decide.mpr (and_congr_right fun hpair => ⟨fun h => ?_, fun h => h.trans hle⟩)
    by_contra hnot
    exact absurd h (not_le.mpr (hquiet other hother hpair (not_le.mp hnot)))
  rw [get, effective_build] at hget ⊢
  rw [hsame]
  cases heffective : rates.filter (InEffect provider model asOf) with
  | nil =>
    rw [heffective] at hget
    cases hget
  | cons first rest =>
    rw [heffective] at hget
    exact hget

theorem get_of_costFor {table : PricingTable} {provider : ProviderEnum} {model : String} {tokensIn tokensOut : Int}
    {asOf : DateTime} {cost : ℚ} (h : table.costFor provider model tokensIn tokensOut asOf = .ok cost) :
    ∃ rate, table.get provider model asOf = .ok rate ∧ rate.calculateCost tokensIn tokensOut = .ok cost := by
  cases hget : table.get provider model asOf with
  | ok rate => exact ⟨rate, rfl, (costFor_of_get hget).symm.trans h⟩
  | error e =>
    rw [costFor, hget] at h
    cases h

end PricingTable

/-- What `create` makes has what it was given, and the time at which the clock was read. -/
theorem UsageRecord.create_ends {I : Interface} {now : Prog I Exn DateTime} {apiKeyId : UUID} {provider : ProviderEnum}
    {model : String} {tokensIn tokensOut : Int} {cost : ℚ} {finishReason requestId : String} {t : Trace I Exn}
    {record : UsageRecord}
    (h : Ends (UsageRecord.create now apiKeyId provider model tokensIn tokensOut cost finishReason requestId) t (.ok record)) :
    Ends now t (.ok record.createdAt) ∧ UsageRow.ofRecord record =
      ⟨apiKeyId, provider, model, tokensIn, tokensOut, finishReason, cost, requestId, record.createdAt⟩ := by
  unfold UsageRecord.create at h
  split at h
  · cases (ends_raise.mp h).2
  · split at h
    · cases (ends_raise.mp h).2
    · split at h
      · cases (ends_raise.mp h).2
      · rcases ends_bind.mp h with ⟨createdAt, t₁, t₂, rfl, hnow, hret⟩ | ⟨e, he, _⟩
        · obtain ⟨rfl, hrecord⟩ := ends_ret.mp hret
          obtain rfl := Except.ok.inj hrecord
          rw [List.append_nil]
          exact ⟨hnow, rfl⟩
        · cases he

namespace UsageRecorder

section Runs
variable {I : Interface} {pricing : PricingTable} {apiKeyId : UUID} {r : ChatResponse}
  {t : Trace ((I.sum clockI).sum (sessionI UsageRow)) Exn}

/-- What the clock answered. -/
def readings (t : Trace ((I.sum clockI).sum (sessionI UsageRow)) Exn) : List DateTime :=
  (rights (lefts t)).filterMap fun x => x.answer.toOption

/-- A recording that returns: it has priced the response at one time, and stamped it at another. -/
theorem record_returned {record : UsageRecord} (h : Ends ((ofSession (I := I) pricing).record apiKeyId r) t (.ok record)) :
    ∃ asOf, t = [⟨.inl (.inr ()), .ok asOf⟩, ⟨.inl (.inr ()), .ok record.createdAt⟩,
        ⟨.inr (.flush (.ofRecord record)), .ok ()⟩] ∧
      pricing.costFor r.provider r.model r.tokensIn r.tokensOut asOf = .ok record.cost ∧
      UsageRow.ofRecord record = ⟨apiKeyId, r.provider, r.model, r.tokensIn, r.tokensOut, r.finishReason, record.cost,
        r.requestId, record.createdAt⟩ := by
  rcases ends_bind.mp h with ⟨asOf, t₁, t₂, rfl, hnow, hpriced⟩ | ⟨e, he, _⟩
  · obtain rfl := now_ends hnow
    rcases ends_bind.mp hpriced with ⟨cost, t₃, t₄, rfl, hprice, hstamped⟩ | ⟨e, he, _⟩
    · obtain ⟨rfl, hcost⟩ := ends_ofExcept.mp hprice
      rcases ends_bind.mp hstamped with ⟨record', t₅, t₆, rfl, hcreate, hsaved⟩ | ⟨e, he, _⟩
      · obtain ⟨hnow', hrow⟩ := UsageRecord.create_ends hcreate
        obtain rfl := now_ends hnow'
        rcases ends_bind.mp hsaved with ⟨_, t₇, t₈, rfl, hflush, hret⟩ | ⟨e, he, _⟩
        · obtain rfl := save_ends hflush
          obtain ⟨rfl, hrecord⟩ := ends_ret.mp hret
          obtain rfl := Except.ok.inj hrecord
          obtain rfl : record.cost = cost := congrArg UsageRow.cost hrow
          exact ⟨asOf, rfl, hcost.symm, hrow⟩
        · cases he
      · cases he
    · cases he
  · cases he

/-- The run of a response that `create` accepts, and its record. -/
theorem run_returned (apiKeyId : UUID) {asOf : DateTime} {rate : PricingRate}
    (hget : pricing.get r.provider r.model asOf = .ok rate) (hr : Recordable r) (createdAt : DateTime) :
    ∃ record, Ends ((ofSession (I := I) pricing).record apiKeyId r)
        [⟨.inl (.inr ()), .ok asOf⟩, ⟨.inl (.inr ()), .ok createdAt⟩, ⟨.inr (.flush (.ofRecord record)), .ok ()⟩]
        (.ok record) ∧
      pricing.costFor r.provider r.model r.tokensIn r.tokensOut asOf = .ok record.cost ∧
      UsageRow.ofRecord record = ⟨apiKeyId, r.provider, r.model, r.tokensIn, r.tokensOut, r.finishReason, record.cost,
        r.requestId, createdAt⟩ := by
  obtain ⟨record, h⟩ := record_run (I := I) apiKeyId hget hr createdAt
  obtain ⟨asOf', ht, hcost, hrow⟩ := record_returned h
  have hreadings : [asOf, createdAt] = [asOf', record.createdAt] := congrArg readings ht
  obtain ⟨rfl, hrest⟩ := List.cons.inj hreadings
  obtain ⟨rfl, _⟩ := List.cons.inj hrest
  exact ⟨record, h, hcost, hrow⟩

/-- **A bill can be audited from its record**: its cost is that of the time at which it was priced,
which is no later than `created_at`, and so that of `created_at` where no rate took effect between. -/
theorem record_audited {notFound : ProviderEnum → String → DateTime → String} {rates : List PricingRate}
    {record : UsageRecord} (h : Ends ((ofSession (I := I) (.build notFound rates)).record apiKeyId r) t (.ok record))
    (hclock : (readings t).Pairwise (· ≤ ·)) :
    rights t = [⟨.flush (.ofRecord record), .ok ()⟩] ∧
    ∃ asOf, readings t = [asOf, record.createdAt] ∧ asOf ≤ record.createdAt ∧
      (PricingTable.build notFound rates).costFor record.provider record.model record.tokensIn record.tokensOut asOf =
        .ok record.cost ∧
      ((∀ rate ∈ rates, (record.provider, record.model) = (rate.provider, rate.model) → asOf < rate.effectiveFrom →
          record.createdAt < rate.effectiveFrom) →
        (PricingTable.build notFound rates).costFor record.provider record.model record.tokensIn record.tokensOut
          record.createdAt = .ok record.cost) := by
  obtain ⟨asOf, rfl, hcost, hrow⟩ := record_returned h
  have hprovider : record.provider = r.provider := congrArg UsageRow.provider hrow
  have hmodel : record.model = r.model := congrArg UsageRow.model hrow
  have hin : record.tokensIn = r.tokensIn := congrArg UsageRow.tokenIn hrow
  have hout : record.tokensOut = r.tokensOut := congrArg UsageRow.tokenOut hrow
  have hle : asOf ≤ record.createdAt := (List.pairwise_cons.mp hclock).1 _ List.mem_cons_self
  rw [← hprovider, ← hmodel, ← hin, ← hout] at hcost
  refine ⟨rfl, asOf, rfl, hle, hcost, fun hquiet => ?_⟩
  obtain ⟨rate, hget, hrate⟩ := PricingTable.get_of_costFor hcost
  rw [PricingTable.costFor_of_get (PricingTable.get_until hle hquiet hget)]
  exact hrate

end Runs

/-! The price doubles at five. -/

def oldRate : PricingRate := ⟨.openai, "gpt-4o", 1 / 1000, 0, 0, isBlank_gpt4o, by norm_num, by norm_num⟩
def newRate : PricingRate := ⟨.openai, "gpt-4o", 2 / 1000, 0, 5, by decide, by norm_num, by norm_num⟩

def doubled : PricingTable := .build (fun _ _ _ => "") [oldRate, newRate]

def thousandTokens : ChatResponse := ⟨.openai, "gpt-4o", "hi", 1000, 0, "stop", "req-1"⟩

theorem doubled_get : doubled.get thousandTokens.provider thousandTokens.model 4 = .ok oldRate := rfl

/-- Both readings are before that. -/
theorem record_audited_before :
    ∃ record : UsageRecord, doubled.costFor record.provider record.model record.tokensIn record.tokensOut record.createdAt =
      .ok record.cost := by
  obtain ⟨record, h, _, hrow⟩ := run_returned (I := .silent) ⟨7⟩ doubled_get ⟨by decide, by decide⟩ 4
  obtain ⟨_, asOf, hreadings, _, _, haudit⟩ := record_audited h (show [(4 : Int), 4].Pairwise (· ≤ ·) by decide)
  have hcreated : record.createdAt = 4 := congrArg UsageRow.createdAt hrow
  have hasOf : 4 = asOf := (List.cons.inj hreadings).1
  refine ⟨record, haudit fun rate _ _ hafter => ?_⟩
  rw [hcreated]
  rwa [← hasOf] at hafter

/-- The record is stamped when the new price is in effect, and costs the old one. -/
theorem priced_before_stamped :
    ¬ ∀ (notFound : ProviderEnum → String → DateTime → String) (rates : List PricingRate) (apiKeyId : UUID) (r : ChatResponse)
      (t : Trace ((Interface.silent.sum clockI).sum (sessionI UsageRow)) Exn) (record : UsageRecord),
      Ends ((ofSession (.build notFound rates)).record apiKeyId r) t (.ok record) → (readings t).Pairwise (· ≤ ·) →
        (PricingTable.build notFound rates).costFor record.provider record.model record.tokensIn record.tokensOut
          record.createdAt = .ok record.cost := by
  intro hall
  obtain ⟨record, h, hcost, hrow⟩ := run_returned (I := .silent) ⟨7⟩ doubled_get ⟨by decide, by decide⟩ 5
  have haudit := hall _ _ _ _ _ record h (show [(4 : Int), 5].Pairwise (· ≤ ·) by decide)
  have hprovider : record.provider = .openai := congrArg UsageRow.provider hrow
  have hmodel : record.model = "gpt-4o" := congrArg UsageRow.model hrow
  have hin : record.tokensIn = 1000 := congrArg UsageRow.tokenIn hrow
  have hout : record.tokensOut = 0 := congrArg UsageRow.tokenOut hrow
  have hcreated : record.createdAt = 5 := congrArg UsageRow.createdAt hrow
  rw [hprovider, hmodel, hin, hout, hcreated, ← hcost] at haudit
  exact absurd haudit (by decide +kernel)

end UsageRecorder
end Relayix
