import Relayix.Core.Adapters.AnthropicAdapter
import Relayix.Core.Adapters.OpenAIAdapter
import Relayix.Services.GatewayBilling

/-! What a stream bills, from the events of the provider's SDK on.

An exception passes three layers on its way to the bill: the provider's adapter, which attaches
what was generated so far, the resilient adapter, which puts its own in place of a stall, and
`_drain`, which bills what is attached. `relayed` is the middle one on a stream as a whole, and
`billable` what the last one makes of it. -/
namespace Relayix
open Library
namespace GatewayService
variable {B : Interface} {apiKeyId : UUID}

/-! ### What is billed of a stream -/

/-- The response that a stream comes to, or the part of one that its exception carries. -/
def billable : Source Exn ChatStreamEvent → Option ChatResponse
  | .item (.delta _) rest => billable rest
  | .item (.response r) _ => some r
  | .raise e => salvaged e
  | .stop => none

/-- Where everything is taken and every bill is written, that is the one bill. -/
theorem Drains.billed {source : Source Exn ChatStreamEvent} {handed : Handed} {records : Records}
    {o : Except Exn Unit} (h : Drains apiKeyId source handed records o)
    (htaken : ∀ x ∈ handed, x.answer = .ok ()) (hpaid : ∀ x ∈ records, x.answer = .ok ()) :
    records = (billable source).toList.map fun r => ⟨.record apiKeyId r, .ok ()⟩ := by
  induction h with
  | dry => rfl
  | broke hint =>
    unfold billable
    cases hint with
    | unbilled hs =>
      rw [hs]
      rfl
    | billed hs =>
      rw [hs]
      rfl
    | unwritten e' _ => cases hpaid _ List.mem_cons_self
  | delta _ ih => exact ih (List.forall_mem_cons.mp htaken).2 hpaid
  | stopped _ => cases (List.forall_mem_cons.mp htaken).1
  | unbilled _ => cases (List.forall_mem_cons.mp hpaid).1
  | answered => rfl
  | refused _ => cases (List.forall_mem_cons.mp htaken).1

/-! ### Through the resilient adapter -/

/-- A provider's stream as the resilient adapter gives it on, once it has given something. -/
def relayed (resilient : ResilientAdapter) : Source Exn ChatStreamEvent → Source Exn ChatStreamEvent
  | .item (.delta c) rest => .item (.delta c) (relayed resilient rest)
  | .item (.response r) _ => .item (.response r) .stop
  | .raise e => .raise (if e.isTimeout then resilient.stalled else e)
  | .stop => .stop

/-- A run of a served stream. -/
abbrev ServedRun (B : Interface) := Trace (((adapterI.sum B).sum recorderI).sum (handoff ChatStreamEvent)) Exn

/-- What the provider's generator was asked while it was served: to close. -/
def closings (u : ServedRun B) : Trace providerI Exn := rights (lefts (lefts (lefts u)))

/-- The breaker answers, and so does `aclose()`, which does nothing to a generator that is over. -/
structure Calm (u : ServedRun B) : Prop where
  steady : Steady (heardFrom u)
  closes : ∀ x ∈ closings u, ∃ a, x.answer = .ok a

section Adapter
variable {resilient : ResilientAdapter} {generation : Nat} {u : ServedRun B} {o : Except Exn Unit}

/-- A provider's exception is reported, and goes on once the provider is closed. -/
theorem attended_raised {e : Exn}
    (h : Ends (forward apiKeyId (attended generation (.raise e)).widen) u o) (hc : Calm u) :
    Drains apiKeyId (.raise e) (rights u) (bills u) o := by
  have reported : ∃ outcome, ResilientAdapter.failed generation e = (report outcome generation).inl.bind fun _ => .raise e := by
    unfold ResilientAdapter.failed
    split
    · exact ⟨.failure, rfl⟩
    · exact ⟨.abort, rfl⟩
  obtain ⟨outcome, hfailed⟩ := reported
  have hattended : attended generation (.raise e) =
      ((report outcome generation).inl.bind fun _ => .raise e).tryFinally (provider .aclose).inl := by
    rw [← hfailed]
    rfl
  rw [hattended] at h
  obtain ⟨a, u₁, rfl, hreported⟩ := ends_await.mp h
  obtain ⟨_, ha⟩ := hc.steady _ List.mem_cons_self
  obtain rfl : a = .ok () := ha
  obtain ⟨b, u₂, rfl, hclosed⟩ := ends_await.mp hreported
  obtain ⟨_, hb⟩ := hc.closes _ List.mem_cons_self
  obtain rfl : b = .ok () := hb
  have hdrains := interrupted_drains hclosed
  exact hdrains

/-- A provider's stream that is over, or fails. -/
theorem forward_over {source : Source Exn ChatStreamEvent} (hs : ∀ event rest, source ≠ .item event rest)
    (h : Ends (forward apiKeyId (attended generation (resilient.relay generation true source)).widen) u o)
    (hc : Calm u) : Drains apiKeyId (relayed resilient source) (rights u) (bills u) o := by
  cases source with
  | item event rest => exact absurd rfl (hs event rest)
  | raise e =>
    have raised : resilient.relay generation true (.raise e) = .raise (if e.isTimeout then resilient.stalled else e) := by
      unfold ResilientAdapter.relay
      split <;> rfl
    rw [raised] at h
    exact attended_raised h hc
  | stop =>
    obtain ⟨b, u₁, rfl, hclosed⟩ := ends_await.mp h
    obtain ⟨_, hb⟩ := hc.closes _ List.mem_cons_self
    obtain rfl : b = .ok () := hb
    obtain ⟨rfl, rfl⟩ := ends_raise.mp hclosed
    exact .dry

/-- One turn at an event, where it is known how the rest is drained. -/
theorem drain_turn {event : ChatStreamEvent} {rest : Source Exn ChatStreamEvent}
    (h : Ends (drain apiKeyId (suspended resilient generation event rest) event) u o) (hc : Calm u)
    (hrest : ∀ (c : String) (u' : ServedRun B), Ends (forward apiKeyId (suspended resilient generation (.delta c) rest (.ok ()))) u' o → Calm u' →
      Drains apiKeyId (relayed resilient rest) (rights u') (bills u') o) :
    Drains apiKeyId (relayed resilient (.item event rest)) (rights u) (bills u) o := by
  rcases emit_ends h with ⟨c, u', rfl, rfl, hr⟩ | hdone
  · exact .delta (hrest c u' hr ⟨hc.steady, hc.closes⟩)
  · cases event with
    | delta c => exact hdone _
    | response r => exact hdone _

/-- A committed stream, drained: the events that the provider had left, and in place of a stall
the resilient adapter's exception. -/
theorem drain_drains {event : ChatStreamEvent} {rest : Source Exn ChatStreamEvent}
    (h : Ends (drain apiKeyId (suspended resilient generation event rest) event) u o) (hc : Calm u) :
    Drains apiKeyId (relayed resilient (.item event rest)) (rights u) (bills u) o := by
  induction rest generalizing event u with
  | item y rest ih =>
    refine drain_turn h hc fun c u' hr hc' => ?_
    have hnext : suspended resilient generation (.delta c) (.item y rest) (.ok ()) =
        (.await (.inr y) (suspended resilient generation y rest) :
          Gen (adapterI.sum B) Exn ChatStreamEvent Unit) := attended_item true y rest
    rw [hnext] at hr
    exact ih hr hc'
  | raise e => exact drain_turn h hc fun c u' hr hc' => forward_over (fun _ _ he => by cases he) hr hc'
  | stop => exact drain_turn h hc fun c u' hr hc' => forward_over (fun _ _ he => by cases he) hr hc'

end Adapter

/-! ### From the SDK on -/

section Dialect
variable {Chunk : Type} {dialect : Dialect Chunk} {request : ChatRequest} {resilient : ResilientAdapter}
  {sdk : Source SdkExn Chunk}

theorem billable_given (contents : List String) (rest : Source Exn ChatStreamEvent) :
    billable (relayed resilient (Dialect.given contents rest)) = billable (relayed resilient rest) := by
  induction contents with
  | nil => rfl
  | cons content contents ih => exact ih

/-- What a stream leaves to be billed, by how it ended. -/
theorem billable_stream (h : ∀ chunk ∈ sdk.items, dialect.Readable chunk) :
    billable (relayed resilient (dialect.stream request sdk)) =
      billable (relayed resilient (dialect.last (dialect.progress (.start request) sdk) sdk.failure)) := by
  obtain ⟨contents, _, hrun⟩ := Dialect.run_eq (p := .start request) h
  rw [Dialect.stream, hrun, billable_given]

/-- A stream that gave something, and failed, had collected it. -/
theorem collected (h : ∀ chunk ∈ sdk.items, dialect.Readable chunk) {event : ChatStreamEvent}
    {rest : Source Exn ChatStreamEvent} (hfirst : dialect.stream request sdk = .item event rest) {e : SdkError}
    (he : sdk.failure = some (.sdk e)) : (dialect.progress (.start request) sdk).contentParts ≠ [] := by
  obtain ⟨contents, hcontents, hrun⟩ := Dialect.run_eq (p := .start request) h
  rw [hcontents]
  intro hnil
  have hempty : contents = [] := hnil
  rw [Dialect.stream, hrun, hempty, he] at hfirst
  cases hfirst

/-- The response that is billed has the counts that were reported. -/
theorem response_tokens (h : ∀ chunk ∈ sdk.items, dialect.Readable chunk) (reason : String) :
    let r := (dialect.progress (.start request) sdk).response dialect.provider reason
    (r.tokensIn, r.tokensOut) = dialect.reported sdk := by
  obtain ⟨hin, hout⟩ := Dialect.progress_tokens (p := .start request) h
  exact Prod.ext hin hout

/-- The stream stalls: the SDK is awaited for longer than `timeout_s`. -/
def Stalls (sdk : Source SdkExn Chunk) : Prop := ∃ m, sdk.failure = some (.raw (.timeoutError m))

/-- The stream can be read, and ends by itself, by an error of the SDK or in a stall. -/
structure Provided (dialect : Dialect Chunk) (sdk : Source SdkExn Chunk) : Prop where
  readable : ∀ chunk ∈ sdk.items, dialect.Readable chunk
  ending : sdk.failure = none ∨ (∃ e, sdk.failure = some (.sdk e)) ∨ Stalls sdk

/-- Once something was given, what is left to be billed has the counts that were reported, unless
the stream stalled: then nothing is. -/
theorem billable_iff (hp : Provided dialect sdk) {event : ChatStreamEvent} {rest : Source Exn ChatStreamEvent}
    (hfirst : dialect.stream request sdk = .item event rest) :
    (∃ r, billable (relayed resilient (dialect.stream request sdk)) = some r ∧
      (r.tokensIn, r.tokensOut) = dialect.reported sdk) ↔ ¬ Stalls sdk := by
  rw [billable_stream hp.readable]
  rcases hp.ending with hend | ⟨e, hend⟩ | ⟨m, hend⟩
  · rw [Stalls, hend]
    refine iff_of_true ⟨_, rfl, response_tokens hp.readable _⟩ ?_
    rintro ⟨_, he⟩
    cases he
  · have failed : dialect.streamFailure (dialect.progress (.start request) sdk) e =
        .upstreamStreamInterrupted s!"{dialect.provider.value} stream broke after partial output: {e.str}"
          (some ((dialect.progress (.start request) sdk).response dialect.provider "error")) :=
      if_neg (collected hp.readable hfirst hend)
    rw [Stalls, hend, Dialect.last, failed]
    refine iff_of_true ⟨_, rfl, response_tokens hp.readable _⟩ ?_
    rintro ⟨_, he⟩
    cases he
  · refine iff_of_false ?_ (not_not_intro ⟨m, hend⟩)
    rw [hend]
    rintro ⟨r, hr, _⟩
    cases hr

end Dialect

/-- The stream of one of the two SDKs. -/
inductive Upstream where
  | openai (sdk : Source SdkExn OpenAIAdapter.Chunk)
  | anthropic (sdk : Source SdkExn AnthropicAdapter.StreamEvent)

namespace Upstream

def stream (request : ChatRequest) : Upstream → Source Exn ChatStreamEvent
  | .openai sdk => OpenAIAdapter.openai.stream request sdk
  | .anthropic sdk => AnthropicAdapter.anthropic.stream request sdk

def Provided : Upstream → Prop
  | .openai sdk => GatewayService.Provided OpenAIAdapter.openai sdk
  | .anthropic sdk => GatewayService.Provided AnthropicAdapter.anthropic sdk

def Stalls : Upstream → Prop
  | .openai sdk => GatewayService.Stalls sdk
  | .anthropic sdk => GatewayService.Stalls sdk

def reported : Upstream → Int × Int
  | .openai sdk => OpenAIAdapter.openai.reported sdk
  | .anthropic sdk => AnthropicAdapter.anthropic.reported sdk

variable {request : ChatRequest}

theorem billable_iff (resilient : ResilientAdapter) {inner : Upstream} (hp : inner.Provided) {event : ChatStreamEvent}
    {rest : Source Exn ChatStreamEvent} (hfirst : inner.stream request = .item event rest) :
    (∃ r, billable (relayed resilient (inner.stream request)) = some r ∧ (r.tokensIn, r.tokensOut) = inner.reported) ↔
      ¬ inner.Stalls := by
  cases inner with
  | openai sdk => exact GatewayService.billable_iff hp hfirst
  | anthropic sdk => exact GatewayService.billable_iff hp hfirst

end Upstream

/-- Exactly one record is saved, and it has these counts. -/
def BilledOnce (apiKeyId : UUID) (counts : Int × Int) (u : ServedRun B) : Prop :=
  ∃ r, bills u = [⟨.record apiKeyId r, .ok ()⟩] ∧ (r.tokensIn, r.tokensOut) = counts

/-- What the committed provider was asked before its first event: to stream. -/
def opening (t : Trace ((adapterI.sum B).sum recorderI) Exn) : Trace providerI Exn := rights (lefts (lefts t))

section Trial

/-- A chunk of OpenAI's with some content. -/
def trialContent (content : String) : OpenAIAdapter.Chunk :=
  ⟨.ok "r", .ok "gpt-4o-2026", .ok none, .ok [⟨.ok (some content), .ok none⟩]⟩

/-- The trailing one, with the usage. -/
def trialUsage : OpenAIAdapter.Chunk := ⟨.ok "r", .ok "gpt-4o-2026", .ok (some ⟨.ok 3, .ok 5⟩), .ok []⟩

def trialWhole : Source SdkExn OpenAIAdapter.Chunk := .item (trialContent "hi") (.item trialUsage .stop)

def trialStalled : Source SdkExn OpenAIAdapter.Chunk := .item (trialContent "hi") (.raise (.raw (.timeoutError "")))

abbrev trialUpstream : ChatRequest := ⟨"gpt-4o", [], none, .atMostOnce⟩

theorem trial_readable (content : String) : OpenAIAdapter.openai.Readable (trialContent content) :=
  fun _ => ⟨_, _, rfl⟩

abbrev trialOpened (source : Source Exn ChatStreamEvent) : Trace ((adapterI.sum .silent).sum recorderI) Exn :=
  [⟨.inl (.inl (.inl .allow)), .ok (true, 2)⟩, ⟨.inl (.inl (.inr (.stream trialUpstream))), .ok source⟩]

/-- The provider of the one deployment is behind its breaker. -/
theorem single_resilient {candidate : Candidate} {adapter : ProviderAdapter (adapterI.sum .silent)}
    (h : single.registry candidate.provider = some adapter) (r : ChatRequest) :
    adapter.stream r = ((⟨.openai, "40.0"⟩ : ResilientAdapter).stream r).widen := by
  cases hp : candidate.provider with
  | anthropic =>
    rw [hp] at h
    cases h
  | openai =>
    rw [hp] at h
    cases h
    rfl

/-- Where the one provider was asked once, it was asked by the candidate that was committed to. -/
theorem single_opening {request : ChatRequest} {source : Source Exn ChatStreamEvent} {candidate : Candidate}
    {adapter : ProviderAdapter (adapterI.sum .silent)} {t₁ t₂ : Trace ((adapterI.sum .silent).sum recorderI) Exn}
    {served : Served (adapterI.sum .silent)}
    (hc : single.CommitsTo request ⟨7⟩ candidate adapter t₁ t₂ served) (ht : trialOpened source = t₁ ++ t₂) :
    upstream request candidate = trialUpstream ∧ opening t₂ = [⟨.stream trialUpstream, .ok source⟩] := by
  obtain ⟨event, streamIter, hfirst, _⟩ := hc.first
  rw [single_resilient hc.registered] at hfirst
  obtain ⟨s, rfl, hs⟩ := ends_inl.mp hfirst
  obtain ⟨generation, a, rest, hadmitted, _, _⟩ := stream_first hs
  have hboth : [] ++ lefts (lefts (trialOpened source)) = lefts (lefts t₁) ++ lefts s := by
    rw [ht, lefts_append, lefts_append, lefts_map_inl]
    rfl
  rw [hadmitted] at hboth
  have hlast := (List.append_inj' hboth rfl).2
  constructor
  · have hcmd := congrArg (fun s : Trace adapterI Exn => (rights s).map Event.cmd) hlast
    exact (ProviderCmd.stream.inj (List.singleton_inj.mp hcmd)).symm
  · rw [opening, lefts_map_inl, hadmitted, ← hlast]
    rfl

end Trial
end GatewayService
end Relayix
