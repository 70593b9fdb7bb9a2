import Relayix.Api.V1.ChatStream
import Relayix.Core.Accounting.UsageRecorder
import Relayix.Library.Handler
import Relayix.Services.IdempotencyGateway

/-! The usage row of a buffered request, and its idempotency record.

The row is inserted while the operation runs, into the transaction of the request; the record
is written to Redis when the operation has returned; and the row is committed when the endpoint
has. The requests here go down to both stores: a recorder's commands are handled by its run. -/
namespace Relayix
open Library
namespace Chat
open GatewayService (Attempts Records Tries buffering asked)
open IdempotencyService (claimed)
open UsageRecorder (clockI ofSession Recordable Bills Recorded)

/-- The commands of a request: those of Redis, of the providers, of the clock and of its session. -/
abbrev servedI : Interface := ((redisI.sum completionI).sum clockI).sum (sessionI UsageRow)

section Traces
variable (t : Trace servedI Exn)

abbrev redis : Trace redisI Exn := lefts (lefts (lefts t))
abbrev calls : Attempts := rights (lefts (lefts t))
abbrev clock : Trace clockI Exn := rights (lefts t)
abbrev statements : Trace (sessionI UsageRow) Exn := rights t

/-- The rows that the request commits, where its statements are answered. -/
def committed : List UsageRow := ((⟨[], []⟩ : Postgres UsageRow).after (statements t)).rows

/-- A provider returned a response to the request. -/
def Answered : Prop := ∃ x ∈ calls t, ∃ r, x.answer = .ok r

/-- Postgres answers, and there is a price for what a provider returned whenever it is asked for. -/
structure Priced (pricing : PricingTable) : Prop where
  statements : ∀ x ∈ statements t, x.answer = .ok ()
  prices : ∀ x ∈ calls t, ∀ r, x.answer = .ok r → ∀ y ∈ clock t, ∃ asOf rate, y.answer = .ok asOf ∧
    pricing.get r.provider r.model asOf = .ok rate

end Traces

/-! ### The request -/

/-- `recorder.record`, whose record the gateway drops. -/
def recorded (pricing : PricingTable) : (c : recorderI.Cmd) → Prog servedI Exn (recorderI.Ans c)
  | .record apiKeyId response => ((ofSession pricing).record apiKeyId response).bind fun _ => .ret ()

def recording (pricing : PricingTable) : (c : (requestI completionI).Cmd) → Prog servedI Exn ((requestI completionI).Ans c)
  | .inl c => (@Prog.perform redisI Exn c).inl.inl.inl
  | .inr (.inl c) => (@Prog.perform completionI Exn c).inr.inl.inl
  | .inr (.inr c) => recorded pricing c

/-- A request with its key, in its session. -/
def keyed (pricing : PricingTable) (payload : ChatRequestSchema) (service : GatewayService completionI) (apiKeyId : UUID)
    (idempotency : IdempotencyService) (key : String) : Prog servedI Exn (Completion (requestI completionI)) :=
  getSession ((createCompletion payload service apiKeyId idempotency (some key)).via (recording pricing))

section Played
variable {pricing : PricingTable} {s : Trace (requestI completionI) Exn} {t : Trace servedI Exn}

theorem recording_redis_ends {c : redisI.Cmd} {a : Except Exn (redisI.Ans c)} :
    Ends (recording pricing (.inl c)) t a ↔ t = [⟨.inl (.inl (.inl c)), a⟩] := by
  constructor
  · intro h
    obtain ⟨u, rfl, hu⟩ := ends_inl.mp h
    obtain ⟨v, rfl, hv⟩ := ends_inl.mp hu
    rw [ends_perform_inl.mp hv]
    rfl
  · rintro rfl
    cases a <;> exact .step _ (.refl _)

theorem recording_call_ends {c : completionI.Cmd} {a : Except Exn ChatResponse} :
    Ends (recording pricing (.inr (.inl c))) t a ↔ t = [⟨.inl (.inl (.inr c)), a⟩] := by
  constructor
  · intro h
    obtain ⟨u, rfl, hu⟩ := ends_inl.mp h
    obtain ⟨v, rfl, hv⟩ := ends_inl.mp hu
    obtain ⟨w, rfl, hw⟩ := ends_inr.mp hv
    rw [ends_perform.mp hw]
    rfl
  · rintro rfl
    cases a <;> exact .step _ (.refl _)

theorem recorded_apart {c : recorderI.Cmd} {a : Except Exn (recorderI.Ans c)} (h : Ends (recorded pricing c) t a) :
    lefts (lefts t) = [] := by
  obtain ⟨apiKeyId, r⟩ := c
  rcases ends_bind.mp h with ⟨_, t₁, t₂, rfl, hrec, hret⟩ | ⟨e, _, hrec⟩
  · rw [(ends_ret.mp hret).1, List.append_nil]
    exact UsageRecorder.record_apart hrec
  · exact UsageRecorder.record_apart hrec

/-- A request's own run, in the run that goes down to the stores: Redis and the providers are
asked the same, and the rest is what its recordings did. -/
theorem played_apart (h : Played (recording pricing) s t) :
    redis t = lefts s ∧ calls t = lefts (rights s) ∧
      ∃ u, Played (recorded pricing) (rights (rights s)) u ∧ statements u = statements t ∧ clock u = clock t := by
  induction h with
  | nil => exact ⟨rfl, rfl, [], .nil, rfl, rfl⟩
  | @cons c a s t₁ t₂ hc _ ih =>
    obtain ⟨hredis, hcalls, u, hu, hstatements, hclock⟩ := ih
    rw [redis, calls, statements, clock, lefts_append, lefts_append, lefts_append, rights_append, rights_append,
      rights_append]
    match c, a, hc with
    | .inl c, a, hc =>
      obtain rfl := recording_redis_ends.mp hc
      exact ⟨congrArg (_ :: ·) hredis, hcalls, u, hu, hstatements, hclock⟩
    | .inr (.inl c), a, hc =>
      obtain rfl := recording_call_ends.mp hc
      exact ⟨hredis, congrArg (_ :: ·) hcalls, u, hu, hstatements, hclock⟩
    | .inr (.inr c), a, hc =>
      refine ⟨?_, ?_, t₁ ++ u, .cons hc hu, ?_, ?_⟩
      · rw [recorded_apart hc]
        exact hredis
      · rw [recorded_apart hc]
        exact hcalls
      · rw [statements, rights_append]
        exact congrArg _ hstatements
      · rw [clock, lefts_append, rights_append]
        exact congrArg _ hclock

/-- The one recording of a run, with Postgres answering and a price in effect. -/
theorem played_record {apiKeyId : UUID} {r : ChatResponse} {a : Except Exn Unit} {u : Trace servedI Exn}
    (h : Played (recorded pricing) [⟨.record apiKeyId r, a⟩] u)
    (hok : ∀ x ∈ statements u, x.answer = .ok ())
    (hprice : ∀ y ∈ clock u, ∃ asOf rate, y.answer = .ok asOf ∧ pricing.get r.provider r.model asOf = .ok rate) :
    ∃ o, Recorded apiKeyId r (statements u) o ∧ a = o.map fun _ => () := by
  cases h with
  | @cons _ _ _ t₁ _ hc hnil =>
    cases hnil
    rw [List.append_nil] at hok hprice ⊢
    rcases ends_bind.mp hc with ⟨record, t₂, t₃, rfl, hrec, hret⟩ | ⟨e, rfl, hrec⟩
    · obtain ⟨rfl, rfl⟩ := ends_ret.mp hret
      rw [List.append_nil] at hok hprice ⊢
      exact ⟨_, UsageRecorder.record_ends hrec hprice hok, rfl⟩
    · exact ⟨_, UsageRecorder.record_ends hrec hprice hok, rfl⟩

end Played

/-! ### The operation -/

section Store
variable {store : RedisIdempotencyStore} {apiKeyId : UUID} {key fingerprint : String}

/-- A command that overwrites no record. -/
abbrev keeps : RedisCmd → Prop
  | .set _ _ nx _ => nx = true
  | .get _ | .delete _ => True

theorem tryReserve_keeps (attempts : Nat) : (store.tryReserve apiKeyId key fingerprint attempts).Asks keeps := by
  induction attempts with
  | zero => trivial
  | succ attempts ih =>
    refine (Prog.Asks.perform (show true = true from rfl)).bind fun acquired => ?_
    split
    · trivial
    · refine (Prog.Asks.perform trivial).bind fun existing => ?_
      split
      · exact ih
      · trivial

theorem reserve_keeps : (store.reserve apiKeyId key fingerprint).Asks keeps := by
  refine ((tryReserve_keeps reserveAttempts).tryExcept fun e => ?_).bind fun outcome => ?_
  · split <;> trivial
  · split <;> trivial

/-- A reservation fails to store nothing. -/
theorem reserve_stored {u : Trace redisI Exn} {o : Except Exn ReservationOutcome}
    (h : Ends (store.reserve apiKeyId key fingerprint) u o) : ¬ Unstored u := by
  rintro ⟨name, print, body, ex, e, hmem⟩
  cases reserve_keeps.reaches h _ hmem

end Store

section Operation
variable {registered : ProviderEnum → Bool}
  {streams : ProviderEnum → ChatRequest → Gen completionI Exn ChatStreamEvent Unit}
  {candidatesFor : String → Except Exn (List Candidate)} {request : ChatRequest} {apiKeyId : UUID}

/-- A run of the operation: no provider answered and nothing is recorded, or one did and its
response alone is recorded. -/
inductive Operated (apiKeyId : UUID) (calls : Attempts) : Records → Except Exn ChatResponse → Prop where
  | unanswered (e : Exn) (silent : ∀ x ∈ calls, ∀ r, x.answer ≠ .ok r) : Operated apiKeyId calls [] (.error e)
  | answered (r : ChatResponse) (a : Except Exn Unit) (answer : ∃ x ∈ calls, x.answer = .ok r)
      (only : ∀ x ∈ calls, ∀ r', x.answer = .ok r' → r' = r) :
      Operated apiKeyId calls [⟨.record apiKeyId r, a⟩] (a.map fun _ => r)

theorem Operated.moved {c : completionI.Cmd} {e : Exn} {calls : Attempts} {records : Records}
    {o : Except Exn ChatResponse} (h : Operated apiKeyId calls records o) :
    Operated apiKeyId (⟨c, .error e⟩ :: calls) records o := by
  cases h with
  | unanswered e silent => exact .unanswered e (List.forall_mem_cons.mpr ⟨nofun, silent⟩)
  | answered r a answer only =>
    obtain ⟨x, hx, hr⟩ := answer
    exact .answered r a ⟨x, List.mem_cons_of_mem _ hx, hr⟩ (List.forall_mem_cons.mpr ⟨nofun, only⟩)

theorem tries_operated {ambiguous : Option Exn} {cands : List Candidate} {calls : Attempts} {records : Records}
    {o : Except Exn ChatResponse} (h : Tries registered request apiKeyId ambiguous cands calls records o) :
    Operated apiKeyId calls records o := by
  induction h with
  | exhausted => exact .unanswered _ fun x hx => absurd hx List.not_mem_nil
  | skipped _ _ ih => exact ih
  | moved _ _ _ ih => exact ih.moved
  | raised _ _ => exact .unanswered _ (List.forall_mem_singleton.mpr nofun)
  | served r a _ =>
    refine .answered r a ⟨_, List.mem_cons_self, rfl⟩ (List.forall_mem_singleton.mpr fun r' hr => ?_)
    cases hr
    rfl

theorem complete_operated {v : Trace (completionI.sum recorderI) Exn} {o : Except Exn ChatResponse}
    (h : Ends ((buffering registered streams candidatesFor).complete request apiKeyId) v o) :
    Operated apiKeyId (lefts v) (rights v) o := by
  rcases GatewayService.complete_ends h with ⟨e, _, rfl, rfl⟩ | ⟨_, _, htries⟩
  · exact .unanswered e fun x hx => absurd hx List.not_mem_nil
  · exact tries_operated htries

/-- The endpoint returns where its result does. -/
theorem createCompletion_ends {payload : ChatRequestSchema} {service : GatewayService completionI}
    {idempotency : IdempotencyService} {key : String} {s : Trace (requestI completionI) Exn}
    {o : Except Exn (Completion (requestI completionI))} (hbuffered : payload.stream = false)
    (h : Ends (createCompletion payload service apiKeyId idempotency (some key)) s o) :
    ∃ o', Ends (idempotency.execute apiKeyId key payload.toDomain (service.complete payload.toDomain apiKeyId)) s o' ∧
      o = o'.map fun r => .json (.fromDomain r) := by
  unfold createCompletion at h
  rw [hbuffered] at h
  rcases ends_bind.mp h with ⟨r, s₁, s₂, rfl, hr, hret⟩ | ⟨e, rfl, hr⟩
  · obtain ⟨rfl, rfl⟩ := ends_ret.mp hret
    rw [List.append_nil]
    exact ⟨_, hr, rfl⟩
  · exact ⟨_, hr, rfl⟩

end Operation

/-! ### The row -/

section Row
variable {registered : ProviderEnum → Bool}
  {streams : ProviderEnum → ChatRequest → Gen completionI Exn ChatStreamEvent Unit}
  {candidatesFor : String → Except Exn (List Candidate)} {pricing : PricingTable} {payload : ChatRequestSchema}
  {apiKeyId : UUID} {idempotency : IdempotencyService} {key : String} {t : Trace servedI Exn}
  {o : Except Exn (Completion (requestI completionI))}

/-- What became of the row of a request that acquired its key. -/
inductive Account (apiKeyId : UUID) (calls : Attempts) (stored : Trace redisI Exn) : List UsageRow → Prop where
  | unanswered (silent : ∀ x ∈ calls, ∀ r, x.answer ≠ .ok r) : Account apiKeyId calls stored []
  | refused (r : ChatResponse) (answer : ∃ x ∈ calls, x.answer = .ok r) (unaccepted : ¬ Recordable r) :
      Account apiKeyId calls stored []
  | rolledBack (r : ChatResponse) (answer : ∃ x ∈ calls, x.answer = .ok r) (lost : Unstored stored) :
      Account apiKeyId calls stored []
  | billed (r : ChatResponse) (answer : ∃ x ∈ calls, x.answer = .ok r)
      (only : ∀ x ∈ calls, ∀ r', x.answer = .ok r' → r' = r) (accepted : Recordable r) (kept : ¬ Unstored stored)
      (row : UsageRow) (bills : Bills apiKeyId r row) : Account apiKeyId calls stored [row]

/-- What the operation recorded, and what became of it by the write that settled the key. -/
theorem account_of_final {β : Type} {f : ChatResponse → β} {fingerprint : String} {w : Trace redisI Exn}
    {x : Event redisI Exn} {calls : Attempts} {records : Records} {r o : Except Exn ChatResponse} {u : Trace servedI Exn}
    (hw : ¬ Unstored w) (hoperated : Operated apiKeyId calls records r)
    (hfinal : idempotency.Final apiKeyId key fingerprint r x o) (hu : Played (recorded pricing) records u)
    (hok : ∀ x ∈ statements u, x.answer = .ok ())
    (hprices : ∀ x ∈ calls, ∀ r, x.answer = .ok r → ∀ y ∈ clock u, ∃ asOf rate, y.answer = .ok asOf ∧
      pricing.get r.provider r.model asOf = .ok rate) :
    Account apiKeyId calls (w ++ [x]) (((⟨[], []⟩ : Postgres UsageRow).after (statements u)).ended (o.map f)) := by
  cases hoperated with
  | unanswered e silent =>
    cases hu
    have hnone : ((⟨[], []⟩ : Postgres UsageRow).after (statements [])).ended (o.map f) = [] := by
      cases o <;> rfl
    rw [hnone]
    exact .unanswered silent
  | answered q a answer only =>
    obtain ⟨y, hy, hq⟩ := answer
    obtain ⟨o₁, hrecorded, rfl⟩ := played_record hu hok (hprices y hy q hq)
    generalize statements u = rows at hrecorded
    cases hrecorded with
    | inserted accepted bills =>
      cases hfinal with
      | stored _ b =>
        refine .billed q ⟨y, hy, hq⟩ only accepted ?_ _ bills
        rintro ⟨name, print, body, ex, e, hmem⟩
        rcases List.mem_append.mp hmem with hmem | hmem
        · exact hw ⟨name, print, body, ex, e, hmem⟩
        · cases List.mem_singleton.mp hmem
      | unstored _ e =>
        exact .rolledBack q ⟨y, hy, hq⟩ ⟨_, _, _, _, e, List.mem_append_right _ List.mem_cons_self⟩
    | refused unaccepted =>
      have hnone : ((⟨[], []⟩ : Postgres UsageRow).after []).ended (o.map f) = [] := by
        cases o <;> rfl
      rw [hnone]
      exact .refused q ⟨y, hy, hq⟩ unaccepted

/-- A request that acquired its key, with Postgres answering and a price in effect. -/
theorem keyed_account (hbuffered : payload.stream = false)
    (h : Ends (keyed pricing payload (buffering registered streams candidatesFor) apiKeyId idempotency key) t o)
    (hacq : ∃ e ∈ redis t, claimed e = true) (hpriced : Priced t pricing) :
    Account apiKeyId (calls t) (redis t) (committed t) := by
  obtain ⟨t', hendpoint, hlefts, hok, hrows⟩ := getSession_ends h hpriced.statements
  obtain ⟨s, hplayed, hs⟩ := ends_via.mp hendpoint
  obtain ⟨o', hexec, rfl⟩ := createCompletion_ends hbuffered hs
  obtain ⟨hredis, hcalls, u, hu, hstatements, hclock⟩ := played_apart hplayed
  have hredis' : redis t = lefts s := by
    rw [redis, hlefts]
    exact hredis
  have hcalls' : calls t = lefts (rights s) := by
    rw [calls, hlefts]
    exact hcalls
  rw [hredis'] at hacq
  obtain ⟨w, v, x, r, rfl, ⟨_, hreserve⟩, hop, hfinal⟩ := IdempotencyService.execute_acquired hexec hacq
  have hleft : lefts (w.map Event.inl ++ v.map Event.inr ++ [x].map Event.inl :
      Trace (redisI.sum (completionI.sum recorderI)) Exn) = w ++ [x] := by
    rw [lefts_append, lefts_append, lefts_map_inl, lefts_map_inr, lefts_map_inl, List.append_nil]
  have hright : rights (w.map Event.inl ++ v.map Event.inr ++ [x].map Event.inl :
      Trace (redisI.sum (completionI.sum recorderI)) Exn) = v := by
    rw [rights_append, rights_append, rights_map_inl, rights_map_inr, rights_map_inl, List.nil_append,
      List.append_nil]
  have hprices := hpriced.prices
  rw [hcalls', hright, clock, hlefts, ← clock, ← hclock] at hprices
  rw [hredis', hcalls', hleft, hright, committed, hrows, show rights t' = statements u from hstatements.symm]
  rw [hright] at hu
  exact account_of_final (reserve_stored hreserve) (complete_operated hop) hfinal hu (hstatements ▸ hok) hprices

/-- A row that is committed bills the response of a provider. -/
theorem committed_bills (hbuffered : payload.stream = false)
    (h : Ends (keyed pricing payload (buffering registered streams candidatesFor) apiKeyId idempotency key) t o)
    (hacq : ∃ e ∈ redis t, claimed e = true) (hpriced : Priced t pricing) :
    ∀ row ∈ committed t, ∃ x ∈ calls t, ∃ r, x.answer = .ok r ∧ Bills apiKeyId r row := by
  have account := keyed_account hbuffered h hacq hpriced
  generalize committed t = rows at account
  intro row hrow
  cases account with
  | unanswered silent => cases hrow
  | refused r answer unaccepted => cases hrow
  | rolledBack r answer lost => cases hrow
  | billed r answer only accepted kept row' bills =>
    obtain ⟨x, hx, hr⟩ := answer
    cases List.mem_singleton.mp hrow
    exact ⟨x, hx, r, hr, bills⟩

/-- **A row for every answer, and exactly when.** For every payload that is not streamed, every
sequence of adapter outcomes and every pattern of failures in Redis: a request that acquired its
key commits a row if and only if a provider answered it, exactly if `create` accepts the answer
and no write of a completed record failed. -/
theorem row_committed_iff (hbuffered : payload.stream = false)
    (h : Ends (keyed pricing payload (buffering registered streams candidatesFor) apiKeyId idempotency key) t o)
    (hacq : ∃ e ∈ redis t, claimed e = true) (hpriced : Priced t pricing) :
    (committed t ≠ [] ↔ Answered t) ↔
      ∀ x ∈ calls t, ∀ r, x.answer = .ok r → Recordable r ∧ ¬ Unstored (redis t) := by
  have account := keyed_account hbuffered h hacq hpriced
  unfold Answered
  generalize committed t = rows at account
  cases account with
  | unanswered silent =>
    refine iff_of_true ?_ fun x hx r hr => absurd hr (silent x hx r)
    refine iff_of_false (fun hne => hne rfl) ?_
    rintro ⟨x, hx, r, hr⟩
    exact silent x hx r hr
  | refused r answer unaccepted =>
    obtain ⟨x, hx, hr⟩ := answer
    refine iff_of_false (fun hiff => hiff.mpr ⟨x, hx, r, hr⟩ rfl) fun hall => ?_
    exact unaccepted (hall x hx r hr).1
  | rolledBack r answer lost =>
    obtain ⟨x, hx, hr⟩ := answer
    refine iff_of_false (fun hiff => hiff.mpr ⟨x, hx, r, hr⟩ rfl) fun hall => ?_
    exact (hall x hx r hr).2 lost
  | billed r answer only accepted kept row bills =>
    obtain ⟨x, hx, hr⟩ := answer
    refine iff_of_true (iff_of_true (List.cons_ne_nil _ _) ⟨x, hx, r, hr⟩) fun y hy r' hr' => ?_
    rw [only y hy r' hr']
    exact ⟨accepted, kept⟩

end Row

/-! ### One request -/

section Trial
open IdempotencyService (trialRequest trialResponse trialService trialRouting)

def trialBuffered : ChatRequestSchema := { trialPayload with stream := false }

def trialRate : PricingRate where
  provider := .openai
  model := "gpt-4o"
  pricePer1kInput := 5 / 2
  pricePer1kOutput := 10
  effectiveFrom := 0
  named := isBlank_gpt4o
  input_nonneg := by norm_num
  output_nonneg := by norm_num

def trialPricing : PricingTable := .build (fun _ _ _ => "no pricing rate in effect") [trialRate]

/-- One provider, and a price for its model. -/
abbrev trialKeyed : Prog servedI Exn (Completion (requestI completionI)) :=
  keyed trialPricing trialBuffered (buffering (fun p => p = .openai) (fun _ _ => .ret ()) trialRouting) ⟨7⟩ trialService
    "k1"

abbrev trialEndpoint : Prog (requestI completionI) Exn (Completion (requestI completionI)) :=
  createCompletion trialBuffered (buffering (fun p => p = .openai) (fun _ _ => .ret ()) trialRouting) ⟨7⟩ trialService
    (some "k1")

/-- The provider answers and its response is recorded, up to the answer to the last write. -/
abbrev trialAsked (a : Except Exn Bool) : Trace (requestI completionI) Exn :=
  let print := trialService.fingerprint trialRequest
  [⟨.inl (.set (redisKey ⟨7⟩ "k1") (.claimed print) true 120), .ok true⟩,
    ⟨.inr (.inl (.openai, trialRequest)), .ok trialResponse⟩, ⟨.inr (.inr (.record ⟨7⟩ trialResponse)), .ok ()⟩,
    ⟨.inl (.set (redisKey ⟨7⟩ "k1") (.completed print (IdempotencyService.serialize trialResponse)) false 86400), a⟩]

/-- The same down to the stores, and up to how the session ends. -/
abbrev trialRun (record : UsageRecord) (a : Except Exn Bool) (final : Trace (sessionI UsageRow) Exn) :
    Trace servedI Exn :=
  let print := trialService.fingerprint trialRequest
  [⟨.inl (.inl (.inl (.set (redisKey ⟨7⟩ "k1") (.claimed print) true 120))), .ok true⟩,
    ⟨.inl (.inl (.inr (.openai, trialRequest))), .ok trialResponse⟩, ⟨.inl (.inr ()), .ok 0⟩, ⟨.inl (.inr ()), .ok 1⟩,
    ⟨.inr (.flush (.ofRecord record)), .ok ()⟩,
    ⟨.inl (.inl (.inl (.set (redisKey ⟨7⟩ "k1")
      (.completed print (IdempotencyService.serialize trialResponse)) false 86400))), a⟩] ++ final.map Event.inr

theorem trial_played (a : Except Exn Bool) :
    ∃ record, Played (recording trialPricing) (trialAsked a) (trialRun record a []) := by
  have hget : trialPricing.get trialResponse.provider trialResponse.model 0 = .ok trialRate := rfl
  obtain ⟨record, hrec⟩ := UsageRecorder.record_run (I := redisI.sum completionI) ⟨7⟩ hget
    ⟨by decide, by decide⟩ 1
  have hrecorded : Ends (recording trialPricing (.inr (.inr (.record ⟨7⟩ trialResponse)))) _ (.ok ()) :=
    ends_bind.mpr (.inl ⟨record, _, [], (List.append_nil _).symm, hrec, .refl _⟩)
  refine ⟨record, .step (recording_redis_ends.mpr rfl) ?_ rfl⟩
  refine .step (recording_call_ends.mpr rfl) ?_ rfl
  exact .step hrecorded (.step (recording_redis_ends.mpr rfl) .nil rfl) rfl

/-- In such a run Postgres answers, and the price is in effect. -/
theorem trial_priced {record : UsageRecord} {a : Except Exn Bool} {final : Trace (sessionI UsageRow) Exn}
    (h : ∀ x ∈ final, x.answer = .ok ()) : Priced (trialRun record a final) trialPricing := by
  have hget : ∀ asOf ∈ [(0 : DateTime), 1],
      trialPricing.get trialResponse.provider trialResponse.model asOf = .ok trialRate := by
    intro asOf hasOf
    rcases List.mem_pair.mp hasOf with rfl | rfl <;> rfl
  constructor
  · rw [statements, rights_append, rights_map_inr]
    exact List.forall_mem_cons.mpr ⟨rfl, h⟩
  · intro x hx r hr y hy
    rw [calls, lefts_append, lefts_map_inr, List.append_nil] at hx
    rw [clock, lefts_append, lefts_map_inr, List.append_nil] at hy
    cases List.mem_singleton.mp hx
    cases hr
    rcases List.mem_pair.mp hy with rfl | rfl
    · exact ⟨0, trialRate, rfl, hget 0 (by decide)⟩
    · exact ⟨1, trialRate, rfl, hget 1 (by decide)⟩

/-- The response is stored, and the row is committed. -/
theorem row_committed_stored : ∃ t, Answered t ∧ committed t ≠ [] := by
  obtain ⟨record, hplayed⟩ := trial_played (.ok true)
  have hendpoint : Ends trialEndpoint (trialAsked (.ok true)) (.ok (.json (.fromDomain trialResponse))) :=
    .step _ (.step _ (.step _ (.step _ (.refl _))))
  have hkeyed : Ends trialKeyed (trialRun record (.ok true) [⟨.commit, .ok ()⟩, ⟨.close, .ok ()⟩]) _ :=
    getSession_returned (ends_via.mpr ⟨_, hplayed, hendpoint⟩)
  have answered : Answered (trialRun record (.ok true) [⟨.commit, .ok ()⟩, ⟨.close, .ok ()⟩]) :=
    ⟨_, List.mem_cons_self, _, rfl⟩
  refine ⟨_, answered, ((row_committed_iff rfl hkeyed ⟨_, List.mem_cons_self, rfl⟩ (trial_priced ?_)).mpr ?_).mpr answered⟩
  · exact List.forall_mem_cons.mpr ⟨rfl, List.forall_mem_singleton.mpr rfl⟩
  · intro x hx r hr
    cases List.mem_singleton.mp hx
    cases hr
    refine ⟨⟨by decide, by decide⟩, ?_⟩
    rintro ⟨_, _, _, _, _, hmem⟩
    rcases List.mem_pair.mp hmem with h | h
    · cases (RedisCmd.set.inj (Event.mk.inj h).1).2.2.1
    · cases h

def unreachable : Exn := .redisError "connection lost"

/-- The provider answers, and Redis is lost before the response is stored: the row is rolled back. -/
theorem row_rolled_back :
    ∃ t o, Ends trialKeyed t o ∧ (∃ e ∈ redis t, claimed e = true) ∧ Priced t trialPricing ∧
      Answered t ∧ committed t = [] ∧ ¬ (committed t ≠ [] ↔ Answered t) := by
  obtain ⟨record, hplayed⟩ := trial_played (.error unreachable)
  have hendpoint : Ends trialEndpoint (trialAsked (.error unreachable)) (.error idempotencyStoreUnavailable) :=
    .step _ (.step _ (.step _ (.step _ (.refl _))))
  have hkeyed : Ends trialKeyed (trialRun record (.error unreachable) [⟨.rollback, .ok ()⟩, ⟨.close, .ok ()⟩]) _ :=
    getSession_raised (ends_via.mpr ⟨_, hplayed, hendpoint⟩) rfl
  have answered : Answered (trialRun record (.error unreachable) [⟨.rollback, .ok ()⟩, ⟨.close, .ok ()⟩]) :=
    ⟨_, List.mem_cons_self, _, rfl⟩
  refine ⟨_, _, hkeyed, ⟨_, List.mem_cons_self, rfl⟩, trial_priced ?_, answered, rfl, fun hiff => hiff.mpr answered rfl⟩
  exact List.forall_mem_cons.mpr ⟨rfl, List.forall_mem_singleton.mpr rfl⟩

end Trial
end Chat
end Relayix
