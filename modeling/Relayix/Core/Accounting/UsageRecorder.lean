import Relayix.Core.Accounting.Pricing
import Relayix.Infra.Database.Session

/-! Usage records (`core/accounting/usage_recorder.py`, `models/domain/usage_record.py`,
`repositories/usage_repo.py`).

A recorder is a program over any surroundings that have a clock and a repository. What
`UsageRecord.create` checks is held by the record, so the repository is only given valid ones. -/
namespace Relayix
open Library

/-- `VALID_FINISH_REASONS`; "error" covers a stream cut short mid-generation. -/
def validFinishReasons : List String := ["stop", "length", "tool_use", "content_filter", "error"]

def invalidFinishReason : Exn := .exception "InvalidFinishReason" "Invalid finish reason"
def invalidUsageCost : Exn := .exception "InvalidUsageCost" "Invalid usage cost"

structure UsageRecord where
  apiKeyId : UUID
  provider : ProviderEnum
  model : String
  tokensIn : Int
  tokensOut : Int
  cost : ℚ
  finishReason : String
  requestId : String
  createdAt : DateTime
  counted : 0 ≤ tokensIn ∧ 0 ≤ tokensOut
  finished : finishReason ∈ validFinishReasons
  cost_nonneg : 0 ≤ cost

/-- `UsageRecord.create`: the clock is read after the checks. -/
def UsageRecord.create {I : Interface} (now : Prog I Exn DateTime) (apiKeyId : UUID) (provider : ProviderEnum)
    (model : String) (tokensIn tokensOut : Int) (cost : ℚ) (finishReason requestId : String) : Prog I Exn UsageRecord :=
  if counted : tokensIn < 0 ∨ tokensOut < 0 then .raise invalidTokenQuantity
  else if finished : finishReason ∉ validFinishReasons then .raise invalidFinishReason
  else if costly : cost < 0 then .raise invalidUsageCost
  else do
    let createdAt ← now
    pure
      { apiKeyId, provider, model, tokensIn, tokensOut, cost, finishReason, requestId, createdAt
        counted := by omega
        finished := not_not.mp finished
        cost_nonneg := not_lt.mp costly }

/-- `Usage_Record`, without its generated id. -/
structure UsageRow where
  apiKeyId : UUID
  provider : ProviderEnum
  model : String
  tokenIn : Int
  tokenOut : Int
  finishReason : String
  cost : ℚ
  requestId : String
  createdAt : DateTime
  deriving DecidableEq

def UsageRow.ofRecord (record : UsageRecord) : UsageRow where
  apiKeyId := record.apiKeyId
  provider := record.provider
  model := record.model
  tokenIn := record.tokensIn
  tokenOut := record.tokensOut
  finishReason := record.finishReason
  cost := record.cost
  requestId := record.requestId
  createdAt := record.createdAt

/-- `UsageRepo.save`: the row is added and flushed. -/
def UsageRepo.save {I : Interface} (record : UsageRecord) : Prog (I.sum (sessionI UsageRow)) Exn Unit :=
  session (.flush (.ofRecord record))

structure UsageRecorder (I : Interface) where
  pricing : PricingTable
  /-- `repository.save` -/
  save : UsageRecord → Prog I Exn Unit
  /-- `datetime.now(timezone.utc)` -/
  now : Prog I Exn DateTime

namespace UsageRecorder

def record {I : Interface} (self : UsageRecorder I) (apiKeyId : UUID) (response : ChatResponse) :
    Prog I Exn UsageRecord := do
  let asOf ← self.now
  let cost ← .ofExcept
    (self.pricing.costFor response.provider response.model response.tokensIn response.tokensOut asOf)
  let record ← UsageRecord.create self.now apiKeyId response.provider response.model response.tokensIn
    response.tokensOut cost response.finishReason response.requestId
  self.save record
  pure record

/-! ### Over a session -/

/-- `datetime.now` -/
@[reducible] def clockI : Interface := ⟨Unit, fun _ => DateTime⟩

/-- What `create` accepts of a response. -/
structure Recordable (r : ChatResponse) : Prop where
  counted : 0 ≤ r.tokensIn ∧ 0 ≤ r.tokensOut
  finished : r.finishReason ∈ validFinishReasons

/-- A row bills a response to a key. -/
structure Bills (apiKeyId : UUID) (r : ChatResponse) (row : UsageRow) : Prop where
  key : row.apiKeyId = apiKeyId
  served : row.provider = r.provider ∧ row.model = r.model
  counted : row.tokenIn = r.tokensIn ∧ row.tokenOut = r.tokensOut
  finished : row.finishReason = r.finishReason
  requestId : row.requestId = r.requestId

/-- The recorder that `get_usage_recorder` builds: it has the clock and the request's session,
among whatever else the request has. -/
def ofSession {I : Interface} (pricing : PricingTable) :
    UsageRecorder ((I.sum clockI).sum (sessionI UsageRow)) where
  pricing := pricing
  save := UsageRepo.save
  now := (@Prog.perform clockI Exn ()).inr.inl

section Runs
variable {I : Interface} {pricing : PricingTable} {apiKeyId : UUID} {r : ChatResponse}

theorem costFor_nonneg {asOf : DateTime} {cost : ℚ}
    (h : pricing.costFor r.provider r.model r.tokensIn r.tokensOut asOf = .ok cost) : 0 ≤ cost := by
  unfold PricingTable.costFor at h
  cases hget : pricing.get r.provider r.model asOf with
  | ok rate =>
    rw [hget] at h
    exact PricingRate.calculateCost_nonneg h
  | error e =>
    rw [hget] at h
    cases h

theorem costFor_ok {asOf : DateTime} {rate : PricingRate} (h : pricing.get r.provider r.model asOf = .ok rate)
    (hr : Recordable r) : ∃ cost, pricing.costFor r.provider r.model r.tokensIn r.tokensOut asOf = .ok cost := by
  rw [PricingTable.costFor, h]
  exact rate.calculateCost_ok hr.counted.1 hr.counted.2

/-- What `create` does not accept it raises, before it reads the clock. -/
theorem create_raises (now : Prog I Exn DateTime) (apiKeyId : UUID) (cost : ℚ) (hr : ¬ Recordable r) :
    ∃ e, UsageRecord.create now apiKeyId r.provider r.model r.tokensIn r.tokensOut cost r.finishReason r.requestId =
      .raise e := by
  unfold UsageRecord.create
  by_cases counted : r.tokensIn < 0 ∨ r.tokensOut < 0
  · exact ⟨_, dif_pos counted⟩
  · rw [dif_neg counted]
    have finished : r.finishReason ∉ validFinishReasons := fun hf => hr ⟨by omega, hf⟩
    exact ⟨_, dif_pos finished⟩

/-- What it accepts is stamped with the time. -/
theorem create_accepts (now : Prog I Exn DateTime) (apiKeyId : UUID) {cost : ℚ} (hr : Recordable r) (hcost : 0 ≤ cost) :
    ∃ stamped : DateTime → UsageRecord, (∀ createdAt, Bills apiKeyId r (.ofRecord (stamped createdAt))) ∧
      UsageRecord.create now apiKeyId r.provider r.model r.tokensIn r.tokensOut cost r.finishReason r.requestId =
        now.bind fun createdAt => .ret (stamped createdAt) := by
  have counted : ¬ (r.tokensIn < 0 ∨ r.tokensOut < 0) := by
    have := hr.counted
    omega
  unfold UsageRecord.create
  rw [dif_neg counted, dif_neg (not_not.mpr hr.finished), dif_neg (not_lt.mpr hcost)]
  exact ⟨_, fun _ => ⟨rfl, ⟨rfl, rfl⟩, ⟨rfl, rfl⟩, rfl, rfl⟩, rfl⟩

section Session
variable {t : Trace ((I.sum clockI).sum (sessionI UsageRow)) Exn}

/-- A reading of the clock. -/
theorem now_ends {a : Except Exn DateTime} (h : Ends (ofSession (I := I) pricing).now t a) :
    t = [⟨.inl (.inr ()), a⟩] := by
  obtain ⟨s, rfl, hs⟩ := ends_inl.mp h
  obtain ⟨u, rfl, hu⟩ := ends_inr.mp hs
  rw [ends_perform.mp hu]
  rfl

theorem save_ends {record : UsageRecord} {a : Except Exn Unit}
    (h : Ends ((ofSession (I := I) pricing).save record) t a) : t = [⟨.inr (.flush (.ofRecord record)), a⟩] :=
  session_ends.mp h

/-- The commands of a recorder, among those of the request. -/
abbrev ofRecorder : ((I.sum clockI).sum (sessionI UsageRow)).Cmd → Prop
  | .inl (.inl _) => False
  | .inl (.inr _) | .inr _ => True

theorem record_asks : ((ofSession (I := I) pricing).record apiKeyId r).Asks ofRecorder := by
  have now : (ofSession (I := I) pricing).now.Asks ofRecorder := (Prog.Asks.perform trivial).inr.inl
  have created : ∀ cost, (UsageRecord.create (ofSession (I := I) pricing).now apiKeyId r.provider r.model r.tokensIn
      r.tokensOut cost r.finishReason r.requestId).Asks ofRecorder := by
    intro cost
    unfold UsageRecord.create
    split
    · trivial
    · split
      · trivial
      · split
        · trivial
        · exact now.bind fun _ => trivial
  exact now.bind fun asOf => (Prog.Asks.ofExcept _).bind fun cost => (created cost).bind fun record =>
    Prog.Asks.bind (p := (ofSession pricing).save record) (Prog.Asks.perform trivial) fun _ => trivial

/-- A recording leaves the rest of the request alone. -/
theorem record_apart {o : Except Exn UsageRecord} (h : Ends ((ofSession (I := I) pricing).record apiKeyId r) t o) :
    lefts (lefts t) = [] := by
  refine List.eq_nil_iff_forall_not_mem.mpr fun x hx => ?_
  exact record_asks.reaches h _ (mem_of_mem_lefts (mem_of_mem_lefts hx))

/-- What a recording did to the session, and what it returned. -/
inductive Recorded (apiKeyId : UUID) (r : ChatResponse) : Trace (sessionI UsageRow) Exn → Except Exn UsageRecord → Prop
  | inserted {record : UsageRecord} (accepted : Recordable r) (billed : Bills apiKeyId r (.ofRecord record)) :
      Recorded apiKeyId r [⟨.flush (.ofRecord record), .ok ()⟩] (.ok record)
  | refused {e : Exn} (unaccepted : ¬ Recordable r) : Recorded apiKeyId r [] (.error e)

/-- What a recording does once it has a price. -/
theorem priced_ends {cost : ℚ} {o : Except Exn UsageRecord} (hcost : 0 ≤ cost)
    (h : Ends
      (do
        let record ← UsageRecord.create (ofSession (I := I) pricing).now apiKeyId r.provider r.model r.tokensIn
          r.tokensOut cost r.finishReason r.requestId
        (ofSession pricing).save record
        pure record) t o)
    (hclock : ∀ x ∈ rights (lefts t), ∃ asOf, x.answer = .ok asOf) (hok : ∀ x ∈ rights t, x.answer = .ok ()) :
    Recorded apiKeyId r (rights t) o := by
  by_cases hr : Recordable r
  · obtain ⟨stamped, hbills, hcreate⟩ := create_accepts (ofSession (I := I) pricing).now apiKeyId hr hcost
    rw [hcreate] at h
    rcases ends_bind.mp h with ⟨record, t₁, t₂, rfl, hstamp, hsave⟩ | ⟨e, _, hstamp⟩
    · rcases ends_bind.mp hstamp with ⟨createdAt, t₃, t₄, rfl, hnow, hret⟩ | ⟨e, he, _⟩
      · obtain rfl := now_ends hnow
        obtain ⟨rfl, hrecord⟩ := ends_ret.mp hret
        cases hrecord
        rcases ends_bind.mp hsave with ⟨_, t₅, t₆, rfl, hflush, hret⟩ | ⟨e, _, hflush⟩
        · obtain rfl := save_ends hflush
          obtain ⟨rfl, rfl⟩ := ends_ret.mp hret
          exact .inserted hr (hbills createdAt)
        · obtain rfl := save_ends hflush
          cases hok _ List.mem_cons_self
      · cases he
    · rcases ends_bind.mp hstamp with ⟨createdAt, t₃, t₄, rfl, hnow, hret⟩ | ⟨e, _, hnow⟩
      · cases (ends_ret.mp hret).2
      · obtain rfl := now_ends hnow
        obtain ⟨_, ha⟩ := hclock _ List.mem_cons_self
        cases ha
  · obtain ⟨e, hraise⟩ := create_raises (ofSession (I := I) pricing).now apiKeyId cost hr
    rw [hraise] at h
    obtain ⟨rfl, rfl⟩ := ends_raise.mp h
    exact .refused hr

/-- One recording, with the clock and the session answering and a price in effect. -/
theorem record_ends {o : Except Exn UsageRecord} (h : Ends ((ofSession (I := I) pricing).record apiKeyId r) t o)
    (hclock : ∀ x ∈ rights (lefts t), ∃ asOf rate, x.answer = .ok asOf ∧
      pricing.get r.provider r.model asOf = .ok rate)
    (hok : ∀ x ∈ rights t, x.answer = .ok ()) : Recorded apiKeyId r (rights t) o := by
  rcases ends_bind.mp h with ⟨asOf, t₁, t₂, rfl, hnow, hpriced⟩ | ⟨e, _, hnow⟩
  · obtain rfl := now_ends hnow
    obtain ⟨_, rate, ha, hget⟩ := hclock _ List.mem_cons_self
    cases ha
    have hrest : ∀ x ∈ rights (lefts t₂), ∃ asOf, x.answer = .ok asOf := fun x hx =>
      have ⟨asOf, _, ha, _⟩ := hclock x (List.mem_cons_of_mem _ hx)
      ⟨asOf, ha⟩
    cases hcost : pricing.costFor r.provider r.model r.tokensIn r.tokensOut asOf with
    | ok cost =>
      have hprice : (ofSession (I := I) pricing).pricing.costFor r.provider r.model r.tokensIn r.tokensOut asOf =
          .ok cost := hcost
      rw [hprice] at hpriced
      exact priced_ends (t := t₂) (costFor_nonneg hcost) hpriced hrest hok
    | error e =>
      have hprice : (ofSession (I := I) pricing).pricing.costFor r.provider r.model r.tokensIn r.tokensOut asOf =
          .error e := hcost
      rw [hprice] at hpriced
      obtain ⟨rfl, rfl⟩ := ends_raise.mp hpriced
      have uncounted : ¬ Recordable r := fun hr =>
        have ⟨_, hok⟩ := costFor_ok hget hr
        nomatch hcost.symm.trans hok
      exact .refused uncounted
  · obtain rfl := now_ends hnow
    obtain ⟨_, _, ha, _⟩ := hclock _ List.mem_cons_self
    cases ha

/-- The run of a response that `create` accepts. -/
theorem record_run (apiKeyId : UUID) {asOf : DateTime} {rate : PricingRate} (hget : pricing.get r.provider r.model asOf = .ok rate)
    (hr : Recordable r) (createdAt : DateTime) :
    ∃ record, Ends ((ofSession (I := I) pricing).record apiKeyId r)
      [⟨.inl (.inr ()), .ok asOf⟩, ⟨.inl (.inr ()), .ok createdAt⟩, ⟨.inr (.flush (.ofRecord record)), .ok ()⟩]
      (.ok record) := by
  obtain ⟨cost, hcost⟩ := costFor_ok hget hr
  obtain ⟨stamped, _, hcreate⟩ := create_accepts (ofSession (I := I) pricing).now apiKeyId hr (costFor_nonneg hcost)
  refine ⟨stamped createdAt, ends_bind.mpr (.inl ⟨asOf, [_], _, rfl, .step _ (.refl _), ?_⟩)⟩
  have hprice : (ofSession (I := I) pricing).pricing.costFor r.provider r.model r.tokensIn r.tokensOut asOf =
      .ok cost := hcost
  have hpriced : Ends
      (do
        let record ← UsageRecord.create (ofSession (I := I) pricing).now apiKeyId r.provider r.model r.tokensIn
          r.tokensOut cost r.finishReason r.requestId
        (ofSession pricing).save record
        pure record)
      [⟨.inl (.inr ()), .ok createdAt⟩, ⟨.inr (.flush (.ofRecord (stamped createdAt))), .ok ()⟩]
      (.ok (stamped createdAt)) := by
    rw [hcreate]
    exact .step _ (.step _ (.refl _))
  rw [hprice]
  exact hpriced

end Session
end Runs
end UsageRecorder
end Relayix
