import Relayix.Core.Resilience.ResilientAdapterProofs
import Relayix.Services.Gateway

/-! A committed stream over a `ResilientAdapter`, drained to its end.

Three generators are nested, the provider's, the adapter's and `_drain`, and the last
one decides when the others are resumed. `_drain` returns after it has handed over the
terminal response and never resumes the adapter's generator, which is suspended just
before its `record_success`. What ends that generator is its finaliser, so what the
breaker hears is the abort. -/
namespace Relayix
open Library

namespace GatewayService
variable {A B : Interface} {apiKeyId : UUID} {request : ChatRequest}

abbrev Served (A : Interface) := Gen (A.sum recorderI) Exn ChatStreamEvent Unit

/-- `stream` tried some candidates (`t₁`) and committed to this one, whose stream was
opened and run to its first event in `t₂`. -/
structure CommitsTo (gateway : GatewayService A) (request : ChatRequest) (apiKeyId : UUID)
    (candidate : Candidate) (adapter : ProviderAdapter A) (t₁ t₂ : Trace (A.sum recorderI) Exn)
    (served : Served A) : Prop where
  ends : Ends (gateway.stream request apiKeyId) (t₁ ++ t₂) (.ok served)
  registered : gateway.registry candidate.provider = some adapter
  first : ∃ event streamIter,
    Ends (adapter.stream (upstream request candidate)).anext.inl t₂
      (.ok (some (event, streamIter))) ∧
    served = drain apiKeyId streamIter event

/-- Every stream that `stream` returns was committed to by some candidate. -/
theorem tryStream_commits {self : GatewayService A} {cands : List Candidate} {ambiguous : Option Exn}
    {t : Trace (A.sum recorderI) Exn} {served : Served A}
    (h : Ends (self.tryStream request apiKeyId ambiguous cands) t (.ok served)) :
    ∃ candidate adapter t₁ t₂, t = t₁ ++ t₂ ∧ self.registry candidate.provider = some adapter ∧
      ∃ event streamIter, Ends (adapter.stream (upstream request candidate)).anext.inl t₂
        (.ok (some (event, streamIter))) ∧ served = drain apiKeyId streamIter event := by
  induction cands generalizing ambiguous t with
  | nil => cases (ends_raise.mp h).2
  | cons c rest ih =>
    rw [tryStream] at h
    cases hreg : self.registry c.provider with
    | none =>
      rw [hreg] at h
      exact ih h
    | some adapter =>
      rw [hreg] at h
      obtain ⟨r, t₁, t₂, rfl, hcall, hrest⟩ := ends_attempt_bind.mp h
      have later : ∀ amb, Ends (self.tryStream request apiKeyId amb rest) t₂ (.ok served) →
          ∃ candidate adapter u₁ u₂, t₁ ++ t₂ = u₁ ++ u₂ ∧
            self.registry candidate.provider = some adapter ∧ ∃ event streamIter,
              Ends (adapter.stream (upstream request candidate)).anext.inl u₂
                (.ok (some (event, streamIter))) ∧ served = drain apiKeyId streamIter event := by
        intro amb hr
        obtain ⟨candidate, adapter', u₁, u₂, rfl, hreg', hfirst⟩ := ih hr
        exact ⟨candidate, adapter', t₁ ++ u₁, u₂, (List.append_assoc ..).symm, hreg', hfirst⟩
      match r, hrest, hcall with
      | .ok none, hrest, _ => exact later _ hrest
      | .ok (some (event, streamIter)), hrest, hcall =>
        obtain ⟨rfl, hd⟩ := ends_ret.mp hrest
        cases hd
        exact ⟨c, adapter, [], t₁, by simp, hreg, event, streamIter, hcall, rfl⟩
      | .error e, hrest, _ =>
        cases hf : failsOver request e with
        | true =>
          simp only [hf, if_true] at hrest
          exact later _ hrest
        | false =>
          simp only [hf, Bool.false_eq_true, if_false] at hrest
          cases (ends_raise.mp hrest).2

theorem stream_commits {self : GatewayService A} {t : Trace (A.sum recorderI) Exn} {served : Served A}
    (h : Ends (self.stream request apiKeyId) t (.ok served)) :
    ∃ candidate adapter t₁ t₂, t = t₁ ++ t₂ ∧
      self.CommitsTo request apiKeyId candidate adapter t₁ t₂ served := by
  have hloop : ∃ cands, Ends (self.tryStream request apiKeyId none cands) t (.ok served) := by
    rcases ends_bind.mp h with ⟨cands, t₁, t₂, rfl, hc, hr⟩ | ⟨e, he, _⟩
    · obtain ⟨rfl, _⟩ := ends_ofExcept.mp hc
      exact ⟨cands, hr⟩
    · cases he
  obtain ⟨cands, hloop⟩ := hloop
  obtain ⟨candidate, adapter, t₁, t₂, rfl, hreg, hfirst⟩ := tryStream_commits hloop
  exact ⟨candidate, adapter, t₁, t₂, rfl, h, hreg, hfirst⟩

/-! ### The drained generator -/

theorem interrupted_ends {e : Exn} {u : Trace ((A.sum recorderI).sum (handoff ChatStreamEvent)) Exn}
    {o : Except Exn Unit} (h : Ends (interrupted apiKeyId e : Served A) u o) : ∃ e', o = .error e' := by
  unfold interrupted at h
  split at h
  · obtain ⟨_, _, ho⟩ := ends_bind_raise.mp h
    exact ⟨_, ho⟩
  · exact ⟨_, (ends_raise.mp h).2⟩

/-- A stream that gives no more items ends `_drain` in an exception. -/
theorem forward_mute {g : Gen A Exn ChatStreamEvent Unit} (hg : Mute g)
    {u : Trace ((A.sum recorderI).sum (handoff ChatStreamEvent)) Exn} {o : Except Exn Unit}
    (h : Ends (forward apiKeyId g) u o) : ∃ e, o = .error e := by
  induction g generalizing u with
  | ret a => exact ⟨_, (ends_raise.mp h).2⟩
  | raise e => exact interrupted_ends h
  | await c k ih =>
    cases c with
    | inl c =>
      obtain ⟨a, rest, _, hr⟩ := ends_await.mp h
      exact ih a (hg.2 a trivial) hr
    | inr y => exact absurd hg.1 id

/-- A turn of `_drain` on a delta goes on with the rest or fails. -/
theorem emit_delta {c : String} {k : Except Exn Unit → Gen A Exn ChatStreamEvent Unit}
    {rest : Served A} {u : Trace ((A.sum recorderI).sum (handoff ChatStreamEvent)) Exn}
    (h : Ends (emit apiKeyId (.delta c) k rest) u (.ok ())) :
    ∃ u', u = ⟨.inr (.delta c), .ok ()⟩ :: u' ∧ Ends rest u' (.ok ()) := by
  obtain ⟨a, u₁, u₂, rfl, hy, hr⟩ := ends_attempt_bind.mp h
  obtain rfl := ends_perform.mp hy
  cases a with
  | ok _ => exact ⟨u₂, rfl, hr⟩
  | error e =>
    obtain ⟨r, v₁, v₂, rfl, hi, ⟨_, rfl⟩ | ⟨e', _, he⟩⟩ := ends_tryFinally.mp hr
    · obtain ⟨e', he⟩ := interrupted_ends hi
      cases he
    · cases he

/-- The last turn: billed, handed over, and what the dropped generator still does. -/
def lastTurn (apiKeyId : UUID) (r : ChatResponse) (s : Trace A Exn) :
    Trace ((A.sum recorderI).sum (handoff ChatStreamEvent)) Exn :=
  ⟨.inl (.inr (.record apiKeyId r)), .ok ()⟩ :: ⟨.inr (.response r), .ok ()⟩ ::
    (s.map Event.inl).map Event.inl

theorem emit_response {r : ChatResponse} {k : Except Exn Unit → Gen A Exn ChatStreamEvent Unit}
    {rest : Served A} {u : Trace ((A.sum recorderI).sum (handoff ChatStreamEvent)) Exn}
    (h : Ends (emit apiKeyId (.response r) k rest) u (.ok ())) :
    ∃ s o, Ends (Gen.aclose k) s o ∧ u = lastTurn apiKeyId r s := by
  obtain ⟨o, v₁, v₂, rfl, hb, ⟨hf, rfl⟩ | ⟨e', _, he⟩⟩ := ends_tryFinally.mp h
  · have hbilled : v₁ = [⟨.inl (.inr (.record apiKeyId r)), .ok ()⟩, ⟨.inr (.response r), .ok ()⟩] := by
      rcases ends_tryExcept.mp hb with ⟨_, _, hok⟩ | ⟨e, w₁, w₂, rfl, _, hi⟩
      · rcases ends_bind.mp hok with ⟨_, w₁, w₂, rfl, hrec, hy⟩ | ⟨e, he, _⟩
        · rw [ends_perform_inl.mp hrec, ends_perform.mp hy]
          rfl
        · cases he
      · obtain ⟨e', he⟩ := interrupted_ends hi
        cases he
    obtain ⟨s', rfl, hs'⟩ := ends_inl.mp hf
    obtain ⟨s, rfl, hs⟩ := ends_inl.mp hs'
    have hclose : ∃ o, Ends (Gen.aclose k) s o := by
      rcases ends_tryExcept.mp hs with ⟨_, _, hok⟩ | ⟨e, w₁, w₂, rfl, hcl, hr⟩
      · exact ⟨_, hok⟩
      · obtain ⟨rfl, _⟩ := ends_ret.mp hr
        exact ⟨_, by simpa using hcl⟩
    obtain ⟨o, hclose⟩ := hclose
    exact ⟨s, o, hclose, by rw [hbilled]; rfl⟩
  · cases he

/-! ### Over a `ResilientAdapter` -/

section Adapter
variable {resilient : ResilientAdapter} {generation : Nat}

/-- The handlers and the cleanup of the adapter's `stream`. -/
def attended (generation : Nat) (x : Gen adapterI Exn ChatStreamEvent Unit) :
    Gen adapterI Exn ChatStreamEvent Unit :=
  (x.tryExcept (ResilientAdapter.failed generation)).tryFinally (provider .aclose).inl

/-- What the adapter's loop does once it is resumed after an event. -/
def resumed (resilient : ResilientAdapter) (generation : Nat) (event : ChatStreamEvent)
    (rest : Source Exn ChatStreamEvent) : Gen adapterI Exn ChatStreamEvent Unit :=
  match event with
  | .response _ => (report .success generation).inl
  | .delta _ => resilient.relay generation true rest

/-- The adapter's generator suspended at an event. -/
def suspended (resilient : ResilientAdapter) (generation : Nat) (event : ChatStreamEvent)
    (rest : Source Exn ChatStreamEvent) (a : Except Exn Unit) :
    Gen (adapterI.sum B) Exn ChatStreamEvent Unit :=
  (attended generation ((Prog.ofExcept a).bind fun _ => resumed resilient generation event rest)).widen

theorem attended_item (emittedAny : Bool) (event : ChatStreamEvent) (rest : Source Exn ChatStreamEvent) :
    ((attended generation (resilient.relay generation emittedAny (.item event rest))).widen :
      Gen (adapterI.sum B) Exn ChatStreamEvent Unit) =
        .await (.inr event) (suspended resilient generation event rest) := by
  cases event <;> rfl

theorem attended_mute {x : Gen adapterI Exn ChatStreamEvent Unit} (hx : Mute x) :
    Mute (attended generation x) := by
  have told : ∀ e, Mute (ResilientAdapter.failed generation e) := by
    intro e
    unfold ResilientAdapter.failed
    exact (mute_inl _).bind (fun _ _ _ => trivial) (fun _ _ _ => trivial)
  have handled : Mute (x.tryExcept (ResilientAdapter.failed generation)) :=
    hx.tryExcept (fun _ _ _ => trivial) (fun e _ _ => told e)
  exact handled.tryFinally fun _ _ _ => mute_inl _

/-- A stream that is over, or fails, gives no more items. -/
theorem attended_over (resilient : ResilientAdapter) (generation : Nat) (emittedAny : Bool)
    {source : Source Exn ChatStreamEvent} (hs : ∀ event rest, source ≠ .item event rest) :
    Mute (attended generation (resilient.relay generation emittedAny source)) := by
  apply attended_mute
  cases source with
  | item event rest => exact absurd rfl (hs event rest)
  | stop => trivial
  | raise e =>
    unfold ResilientAdapter.relay
    split <;> trivial

/-- What the breaker heard of a run of the gateway, and of a served stream. -/
def heard (t : Trace ((adapterI.sum B).sum recorderI) Exn) : Calls := lefts (lefts (lefts t))

def heardFrom (u : Trace (((adapterI.sum B).sum recorderI).sum (handoff ChatStreamEvent)) Exn) :
    Calls := heard (lefts u)

/-- Closed while it is suspended, the adapter's generator reports an abort. -/
theorem aclose_suspended {event : ChatStreamEvent} {rest : Source Exn ChatStreamEvent}
    {s : Trace (adapterI.sum B) Exn} {o : Except Exn Unit}
    (h : Ends (Gen.aclose (suspended resilient generation event rest)) s o)
    (hs : Steady (lefts (lefts s))) :
    lefts (lefts s) = [⟨.report .abort generation, .ok ()⟩] := by
  obtain ⟨a, s', rfl, hclose⟩ := ends_await.mp h
  obtain ⟨r, hr⟩ := hs _ List.mem_cons_self
  obtain rfl : a = .ok () := hr
  obtain ⟨c, s'', rfl, hend⟩ := ends_await.mp hclose
  have hnil : s'' = [] := by
    cases c with
    | ok _ => exact (ends_ret.mp hend).1
    | error e =>
      have hraised : Ends (if AsyncError.isGeneratorExit e then .ret () else .raise e :
          Prog (adapterI.sum B) Exn Unit) s'' o := hend
      split at hraised
      · exact (ends_ret.mp hraised).1
      · exact (ends_raise.mp hraised).1
  rw [hnil]
  rfl

theorem drain_response {r : ChatResponse} {rest : Source Exn ChatStreamEvent}
    {u : Trace (((adapterI.sum B).sum recorderI).sum (handoff ChatStreamEvent)) Exn}
    (h : Ends (drain apiKeyId (suspended resilient generation (.response r) rest) (.response r)) u
      (.ok ())) (hs : Steady (heardFrom u)) :
    heardFrom u = [⟨.report .abort generation, .ok ()⟩] := by
  obtain ⟨s, o, hclose, rfl⟩ := emit_response h
  have hheard : heardFrom (lastTurn apiKeyId r s) = lefts (lefts s) := by
    show lefts (lefts (lefts (lefts ((s.map Event.inl).map Event.inl)))) = _
    rw [lefts_map_inl, lefts_map_inl]
  rw [hheard] at hs ⊢
  exact aclose_suspended hclose hs

/-- A stream that does not come to its terminal response is not drained to an end. -/
theorem not_drained {c : String} {rest : Source Exn ChatStreamEvent}
    (hrest : ∀ event rest', rest ≠ .item event rest')
    {u : Trace (((adapterI.sum B).sum recorderI).sum (handoff ChatStreamEvent)) Exn} :
    ¬ Ends (drain apiKeyId (suspended resilient generation (.delta c) rest) (.delta c)) u (.ok ()) := by
  intro h
  obtain ⟨u', rfl, hr⟩ := emit_delta h
  obtain ⟨e, he⟩ := forward_mute (attended_over resilient generation true hrest).widen hr
  cases he

/-- Drained to its end, the stream tells the breaker one thing: the abort. -/
theorem drain_aborts {event : ChatStreamEvent} {rest : Source Exn ChatStreamEvent}
    {u : Trace (((adapterI.sum B).sum recorderI).sum (handoff ChatStreamEvent)) Exn}
    (h : Ends (drain apiKeyId (suspended resilient generation event rest) event) u (.ok ()))
    (hs : Steady (heardFrom u)) : heardFrom u = [⟨.report .abort generation, .ok ()⟩] := by
  induction rest generalizing event u with
  | item y rest ih =>
    cases event with
    | response r => exact drain_response h hs
    | delta c =>
      obtain ⟨u', rfl, hr⟩ := emit_delta h
      have hnext : suspended resilient generation (.delta c) (.item y rest) (.ok ()) =
          (.await (.inr y) (suspended resilient generation y rest) :
            Gen (adapterI.sum B) Exn ChatStreamEvent Unit) := attended_item true y rest
      rw [hnext] at hr
      have hs' : Steady (heardFrom u') := hs
      have hlater := ih hr hs'
      exact hlater
  | raise e =>
    cases event with
    | response r => exact drain_response h hs
    | delta c => exact absurd h (not_drained fun _ _ he => by cases he)
  | stop =>
    cases event with
    | response r => exact drain_response h hs
    | delta c => exact absurd h (not_drained fun _ _ he => by cases he)

/-- The adapter's part up to its first event: admitted, opened, suspended. -/
theorem stream_first {t : Trace (adapterI.sum B) Exn} {event : ChatStreamEvent}
    {streamIter : Except Exn Unit → Gen (adapterI.sum B) Exn ChatStreamEvent Unit}
    (h : Ends (resilient.stream request).widen.anext t (.ok (some (event, streamIter)))) :
    ∃ generation a rest, lefts t = [⟨.inl .allow, .ok (true, generation)⟩, ⟨.inr (.stream request), a⟩] ∧
      opened a = .item event rest ∧ streamIter = suspended resilient generation event rest := by
  obtain ⟨a, t', rfl, hadmitted⟩ := ends_await.mp h
  obtain e | ⟨_ | _, generation⟩ := a
  · cases (ends_raise.mp hadmitted).2
  · cases (ends_raise.mp hadmitted).2
  · obtain ⟨a, t'', rfl, hopened⟩ := ends_await.mp hadmitted
    have hrest : Ends (attended generation (resilient.relay generation false (opened a))).widen.anext t''
        (.ok (some (event, streamIter))) := by
      cases a <;> exact hopened
    cases hs : opened a with
    | item y rest =>
      rw [hs, attended_item] at hrest
      obtain ⟨rfl, hr⟩ := ends_ret.mp hrest
      cases hr
      exact ⟨generation, a, rest, rfl, hs, rfl⟩
    | raise e =>
      rw [hs] at hrest
      exact absurd hrest (attended_over resilient generation false (fun _ _ he => by cases he)).widen.anext
    | stop =>
      rw [hs] at hrest
      exact absurd hrest (attended_over resilient generation false (fun _ _ he => by cases he)).widen.anext

/-- One success for the admitted call, and no other outcome. -/
def Credited (calls : Calls) : Prop :=
  ∃ generation, calls = [⟨.allow, .ok (true, generation)⟩, ⟨.report .success generation, .ok ()⟩]

end Adapter

/-- **A served stream is never credited.** Whatever `stream` returns was committed to by
a candidate. If that candidate is served by a `ResilientAdapter`, then for every run of
the returned generator to its end the breaker heard an abort and nothing else, which
leaves its state and its failure count as they were. -/
theorem stream_never_credited (self : GatewayService (adapterI.sum B)) (request : ChatRequest)
    (apiKeyId : UUID) (t : Trace ((adapterI.sum B).sum recorderI) Exn) (served : Served (adapterI.sum B))
    (h : Ends (self.stream request apiKeyId) t (.ok served)) :
    ∃ candidate adapter t₁ t₂, t = t₁ ++ t₂ ∧
      self.CommitsTo request apiKeyId candidate adapter t₁ t₂ served ∧
      ∀ resilient : ResilientAdapter, (∀ r, adapter.stream r = (resilient.stream r).widen) →
        ∀ u, Ends served u (.ok ()) → Steady (heard t₂ ++ heardFrom u) →
          ¬ Credited (heard t₂ ++ heardFrom u) ∧
          ∃ generation, heard t₂ ++ heardFrom u =
              [⟨.allow, .ok (true, generation)⟩, ⟨.report .abort generation, .ok ()⟩] ∧
            ∀ (b : CircuitBreaker) now, (b.report now .abort generation).state = b.state ∧
              (b.report now .abort generation).failures = b.failures := by
  obtain ⟨candidate, adapter, t₁, t₂, rfl, hc⟩ := stream_commits h
  refine ⟨candidate, adapter, t₁, t₂, rfl, hc, fun resilient hr u hu hs => ?_⟩
  obtain ⟨event, streamIter, hfirst, rfl⟩ := hc.first
  rw [hr] at hfirst
  obtain ⟨s, rfl, hs'⟩ := ends_inl.mp hfirst
  obtain ⟨generation, _, rest, hadmitted, _, rfl⟩ := stream_first hs'
  have hadmission : heard (s.map Event.inl : Trace ((adapterI.sum B).sum recorderI) Exn) =
      [⟨.allow, .ok (true, generation)⟩] := by
    show lefts (lefts (lefts (s.map Event.inl))) = _
    rw [lefts_map_inl, hadmitted]
    rfl
  have habort := drain_aborts hu (steady_append.mp hs).2
  rw [hadmission, habort]
  refine ⟨?_, generation, rfl, fun b now => ?_⟩
  · rintro ⟨g, hg⟩
    cases hg
  · by_cases hg : generation = b.generation
    · subst hg
      simp [CircuitBreaker.report, CircuitBreaker.recordAbort]
    · rw [b.report_stale now .abort hg]
      exact ⟨rfl, rfl⟩

/-- A deployment with one provider, behind its breaker. -/
def single : GatewayService (adapterI.sum .silent) where
  registry
    | .openai => some ⟨fun _ => .raise .cancelledError,
        fun r => ((⟨.openai, "40.0"⟩ : ResilientAdapter).stream r).widen⟩
    | .anthropic => none
  candidatesFor _ := .ok [⟨.openai, "gpt-4o"⟩]

/-- A delta and the terminal response, taken by the consumer and billed: the abort is
all the breaker hears. -/
theorem stream_never_credited_single :
    ∃ (t₂ : Trace ((adapterI.sum .silent).sum recorderI) Exn) (served : Served (adapterI.sum .silent))
      (u : Trace (((adapterI.sum .silent).sum recorderI).sum (handoff ChatStreamEvent)) Exn),
      Ends served u (.ok ()) ∧ ¬ Credited (heard t₂ ++ heardFrom u) := by
  have hserved : ∃ served u, Ends (single.stream ⟨"default", [], none, .atMostOnce⟩ ⟨7⟩)
        [⟨.inl (.inl (.inl .allow)), .ok (true, 2)⟩,
          ⟨.inl (.inl (.inr (.stream ⟨"gpt-4o", [], none, .atMostOnce⟩))), .ok (.item (.delta "hi")
            (.item (.response ⟨.openai, "gpt-4o", "hi", 1, 1, "stop", "r"⟩) .stop))⟩] (.ok served) ∧
      Ends served u (.ok ()) ∧ heardFrom u = [⟨.report .abort 2, .ok ()⟩] :=
    ⟨_, [⟨.inr (.delta "hi"), .ok ()⟩,
        ⟨.inl (.inr (.record ⟨7⟩ ⟨.openai, "gpt-4o", "hi", 1, 1, "stop", "r"⟩)), .ok ()⟩,
        ⟨.inr (.response ⟨.openai, "gpt-4o", "hi", 1, 1, "stop", "r"⟩), .ok ()⟩,
        ⟨.inl (.inl (.inl (.inl (.report .abort 2)))), .ok ()⟩,
        ⟨.inl (.inl (.inl (.inr .aclose))), .ok ()⟩],
      .step _ (.step _ (.refl _)), .step _ (.step _ (.step _ (.step _ (.step _ (.refl _))))), rfl⟩
  obtain ⟨served, u, hstream, hu, hheard⟩ := hserved
  obtain ⟨candidate, adapter, t₁, t₂, ht, hc, hall⟩ := stream_never_credited single _ _ _ _ hstream
  refine ⟨t₂, served, u, hu, (hall ⟨.openai, "40.0"⟩ ?_ u hu ?_).1⟩
  · have hreg := hc.registered
    intro r
    cases hp : candidate.provider with
    | anthropic =>
      rw [hp] at hreg
      cases hreg
    | openai =>
      rw [hp] at hreg
      cases hreg
      rfl
  · have hsteady : Steady (heard (t₁ ++ t₂)) := by
      rw [← ht]
      exact List.forall_mem_singleton.mpr ⟨_, rfl⟩
    have hsplit : heard (t₁ ++ t₂) = heard t₁ ++ heard t₂ := by simp [heard]
    rw [hsplit] at hsteady
    rw [hheard]
    exact steady_append.mpr ⟨(steady_append.mp hsteady).2, List.forall_mem_singleton.mpr ⟨_, rfl⟩⟩

/-- The trial of a half-open breaker is served in full, and the circuit stays half open
with its failure count. -/
theorem trial_served_not_closed :
    ∃ (t : Trace ((adapterI.sum .silent).sum recorderI) Exn) (served : Served (adapterI.sum .silent))
      (u : Trace (((adapterI.sum .silent).sum recorderI).sum (handoff ChatStreamEvent)) Exn)
      (b : CircuitBreaker),
      Ends (single.stream ⟨"default", [], none, .atMostOnce⟩ ⟨7⟩) t (.ok served) ∧
      Ends served u (.ok ()) ∧
      heard t ++ heardFrom u = [⟨.allow, .ok (b.allow 30).1⟩, ⟨.report .abort 2, .ok ()⟩] ∧
      ¬ Credited (heard t ++ heardFrom u) ∧
      (b.allow 30).2.state = .halfOpen ∧ (b.allow 30).2.generation = 2 ∧
      ((b.allow 30).2.report 31 .abort 2).state = .halfOpen ∧
      ((b.allow 30).2.report 31 .abort 2).failures = 5 := by
  have hallow : (⟨5, 30, .opened, 5, 0, false, 1⟩ : CircuitBreaker).allow 30 =
      ((true, 2), ⟨5, 30, .halfOpen, 5, 0, true, 2⟩) := by decide +kernel
  refine ⟨[⟨.inl (.inl (.inl .allow)), .ok (true, 2)⟩,
      ⟨.inl (.inl (.inr (.stream ⟨"gpt-4o", [], none, .atMostOnce⟩))), .ok (.item (.delta "hi")
        (.item (.response ⟨.openai, "gpt-4o", "hi", 1, 1, "stop", "r"⟩) .stop))⟩], _,
    [⟨.inr (.delta "hi"), .ok ()⟩,
      ⟨.inl (.inr (.record ⟨7⟩ ⟨.openai, "gpt-4o", "hi", 1, 1, "stop", "r"⟩)), .ok ()⟩,
      ⟨.inr (.response ⟨.openai, "gpt-4o", "hi", 1, 1, "stop", "r"⟩), .ok ()⟩,
      ⟨.inl (.inl (.inl (.inl (.report .abort 2)))), .ok ()⟩,
      ⟨.inl (.inl (.inl (.inr .aclose))), .ok ()⟩], ⟨5, 30, .opened, 5, 0, false, 1⟩,
    .step _ (.step _ (.refl _)), .step _ (.step _ (.step _ (.step _ (.step _ (.refl _))))), ?_, ?_, ?_⟩
  · rw [hallow]
    rfl
  · rintro ⟨g, hg⟩
    cases hg
  · rw [hallow]
    exact ⟨rfl, rfl, rfl, rfl⟩

end GatewayService
end Relayix
