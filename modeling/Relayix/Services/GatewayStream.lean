import Relayix.Services.Gateway

/-! Opening streams: what `GatewayService.stream` does before it commits.

As in the buffered loop the adapters are opaque, one command for each stream opened;
its answer is the whole stream to come, of which only the first `anext` matters
here. `Opens` lists what a run of the loop can be under AT_MOST_ONCE. It has one case
the buffered loop lacks, a stream that ends before any event, and that case alone
decides whether a further provider is asked after one that may have executed. -/
namespace Relayix
open Library

/-- A stream opened at a provider. -/
@[reducible] def streamingI : Interface :=
  ⟨ProviderEnum × ChatRequest, fun _ => Source Exn ChatStreamEvent⟩

namespace GatewayService

/-- The stream of an opaque adapter: opened at its first `anext`. -/
def openedAt (p : ProviderEnum) (request : ChatRequest) : Gen streamingI Exn ChatStreamEvent Unit := do
  let source ← (@Prog.perform streamingI Exn (p, request)).inl.attempt
  Gen.replay (opened source)

/-- The gateway over opaque adapters, for the providers that are registered. -/
def streamed (registered : ProviderEnum → Bool)
    (completes : ProviderEnum → ChatRequest → Prog streamingI Exn ChatResponse)
    (candidatesFor : String → Except Exn (List Candidate)) : GatewayService streamingI where
  registry p := if registered p then some ⟨completes p, openedAt p⟩ else none
  candidatesFor := candidatesFor

abbrev Openings := Trace streamingI Exn

/-- The stream provably never executed the request. -/
def Unavailable (a : Except Exn (Source Exn ChatStreamEvent)) : Prop :=
  ∃ e, opened a = .raise e ∧ e.isUpstreamUnavailable = true

/-- The stream ended without producing any event. -/
def Silent (a : Except Exn (Source Exn ChatStreamEvent)) : Prop := opened a = .stop

/-- At most once: a further stream is opened only after one that is unavailable, so at
most one provider may have executed the request. -/
structure AtMostOnce (calls : Openings) : Prop where
  further : ∀ pre e post, calls = pre ++ e :: post → post ≠ [] → Unavailable e.answer
  executed : ∀ pre e mid e' post, calls = pre ++ e :: (mid ++ e' :: post) →
    Unavailable e.answer ∨ Unavailable e'.answer

/-- Among the registered candidates, one whose stream ends without any event, reached
through unavailable ones only, has another one after it. -/
def SilentGap (script : Openings) : Prop :=
  ∃ pre e post, script = pre ++ e :: post ∧ post ≠ [] ∧
    (∀ x ∈ pre, Unavailable x.answer) ∧ Silent e.answer

theorem not_silent_of_unavailable {a : Except Exn (Source Exn ChatStreamEvent)} (h : Unavailable a) :
    ¬ Silent a := by
  obtain ⟨e, he, _⟩ := h
  intro hs
  rw [Silent, he] at hs
  cases hs

theorem silentGap_cons {e : Event streamingI Exn} {script : Openings} :
    SilentGap (e :: script) ↔
      (Silent e.answer ∧ script ≠ []) ∨ (Unavailable e.answer ∧ SilentGap script) := by
  constructor
  · rintro ⟨pre, x, post, he, hne, hpre, hx⟩
    cases pre with
    | nil =>
      obtain ⟨rfl, rfl⟩ := List.cons.inj he
      exact .inl ⟨hx, hne⟩
    | cons y pre =>
      obtain ⟨rfl, rfl⟩ := List.cons.inj he
      obtain ⟨hy, hpre⟩ := List.forall_mem_cons.mp hpre
      exact .inr ⟨hy, pre, x, post, rfl, hne, hpre, hx⟩
  · rintro (⟨hs, hne⟩ | ⟨hu, pre, x, post, rfl, hne, hpre, hx⟩)
    · exact ⟨[], e, script, rfl, hne, fun _ h => (List.not_mem_nil h).elim, hs⟩
    · exact ⟨e :: pre, x, post, rfl, hne, List.forall_mem_cons.mpr ⟨hu, hpre⟩, hx⟩

section Loop
variable {registered : ProviderEnum → Bool}
  {completes : ProviderEnum → ChatRequest → Prog streamingI Exn ChatResponse}
  {candidatesFor : String → Except Exn (List Candidate)} {request : ChatRequest} {apiKeyId : UUID}

def asking (request : ChatRequest) (c : Candidate) : ProviderEnum × ChatRequest :=
  (c.provider, upstream request c)

theorem registry_skipped {p : ProviderEnum} (h : registered p = false) :
    (streamed registered completes candidatesFor).registry p = none := by
  simp [streamed, h]

theorem registry_found {p : ProviderEnum} (h : registered p = true) :
    (streamed registered completes candidatesFor).registry p = some ⟨completes p, openedAt p⟩ := by
  simp [streamed, h]

/-- What a run of the loop can be under AT_MOST_ONCE. -/
inductive Opens (registered : ProviderEnum → Bool) (request : ChatRequest) :
    List Candidate → Openings → Prop where
  | exhausted : Opens registered request [] []
  | skipped {c : Candidate} {rest : List Candidate} {calls : Openings} :
      registered c.provider = false → Opens registered request rest calls →
      Opens registered request (c :: rest) calls
  | moved {c : Candidate} {rest : List Candidate} {calls : Openings}
      {a : Except Exn (Source Exn ChatStreamEvent)} : registered c.provider = true →
      Unavailable a ∨ Silent a → Opens registered request rest calls →
      Opens registered request (c :: rest) (⟨asking request c, a⟩ :: calls)
  | ended {c : Candidate} {rest : List Candidate} {a : Except Exn (Source Exn ChatStreamEvent)} :
      registered c.provider = true → ¬ Unavailable a → ¬ Silent a →
      Opens registered request (c :: rest) [⟨asking request c, a⟩]

/-- One attempt at a candidate: one opening, and the first step of what it gave. -/
theorem first_ends {p : ProviderEnum} {request : ChatRequest}
    {t : Trace (streamingI.sum recorderI) Exn}
    {r : Except Exn (Option (ChatStreamEvent × (Except Exn Unit → Gen streamingI Exn ChatStreamEvent Unit)))}
    (h : Ends (openedAt p request).anext.inl t r) :
    ∃ a, t = [⟨.inl (p, request), a⟩] ∧ r = Gen.first (opened a) := by
  obtain ⟨s, rfl, hs⟩ := ends_inl.mp h
  obtain ⟨a, rest, rfl, ha⟩ := ends_await.mp hs
  have hfirst : Ends (Prog.ofExcept (Gen.first (opened a)) : Prog streamingI Exn _) rest r := by
    rw [← Gen.anext_replay]
    cases a <;> exact ha
  obtain ⟨rfl, rfl⟩ := ends_ofExcept.mp hfirst
  exact ⟨a, rfl, rfl⟩

theorem opens_of_ends {cands : List Candidate} {ambiguous : Option Exn}
    {t : Trace (streamingI.sum recorderI) Exn} {o} (hp : request.failoverPolicy = .atMostOnce)
    (h : Ends ((streamed registered completes candidatesFor).tryStream request apiKeyId ambiguous
      cands) t o) : Opens registered request cands (lefts t) := by
  induction cands generalizing ambiguous t with
  | nil =>
    obtain ⟨rfl, _⟩ := ends_raise.mp h
    exact .exhausted
  | cons c rest ih =>
    cases hreg : registered c.provider with
    | false =>
      rw [tryStream, registry_skipped hreg] at h
      exact .skipped hreg (ih h)
    | true =>
      rw [tryStream, registry_found hreg] at h
      obtain ⟨r, t₁, t₂, rfl, hcall, hrest⟩ := ends_attempt_bind.mp h
      obtain ⟨a, rfl, rfl⟩ := first_ends hcall
      cases hs : opened a with
      | stop =>
        rw [hs] at hrest
        exact .moved hreg (.inr hs) (ih hrest)
      | item y rest' =>
        rw [hs] at hrest
        obtain ⟨rfl, _⟩ := ends_ret.mp hrest
        refine .ended hreg ?_ ?_
        · rintro ⟨e, he, _⟩
          rw [hs] at he
          cases he
        · intro he
          rw [Silent, hs] at he
          cases he
      | raise e =>
        rw [hs] at hrest
        have hf : failsOver request e = e.isUpstreamUnavailable := by simp [failsOver, hp]
        cases hu : e.isUpstreamUnavailable with
        | true =>
          simp only [Gen.first, hf, hu, if_true] at hrest
          exact .moved hreg (.inl ⟨e, hs, hu⟩) (ih hrest)
        | false =>
          simp only [Gen.first, hf, hu, Bool.false_eq_true, if_false] at hrest
          obtain ⟨rfl, _⟩ := ends_raise.mp hrest
          refine .ended hreg ?_ ?_
          · rintro ⟨e', he, hu'⟩
            rw [hs] at he
            cases he
            rw [hu] at hu'
            cases hu'
          · intro he
            rw [Silent, hs] at he
            cases he

/-- The registered candidates' answers, in rank order, had each been asked. -/
def Scripts (registered : ProviderEnum → Bool) (request : ChatRequest) (cands : List Candidate)
    (script : Openings) : Prop :=
  script.map Event.cmd = (cands.filter (registered ·.provider)).map (asking request)

theorem Scripts.of_skipped {c : Candidate} {rest : List Candidate} {script : Openings}
    (h : Scripts registered request (c :: rest) script) (hreg : registered c.provider = false) :
    Scripts registered request rest script := by
  unfold Scripts at h
  rwa [List.filter_cons_of_neg (by simp [hreg])] at h

/-- The script of a registered candidate begins with its answer. -/
theorem Scripts.of_registered {c : Candidate} {rest : List Candidate} {script : Openings}
    (h : Scripts registered request (c :: rest) script) (hreg : registered c.provider = true) :
    ∃ e script', script = e :: script' ∧ Scripts registered request rest script' := by
  unfold Scripts at h
  rw [List.filter_cons_of_pos (by simpa using hreg), List.map_cons] at h
  cases script with
  | nil => cases h
  | cons e script' => exact ⟨e, script', rfl, (List.cons.inj h).2⟩

/-- The loop only ends without a call when nobody is left to be asked. -/
theorem Opens.nonempty {cands : List Candidate} {calls script : Openings}
    (h : Opens registered request cands calls) (hs : Scripts registered request cands script) :
    script ≠ [] → calls ≠ [] := by
  induction h generalizing script with
  | exhausted => exact fun hne => absurd (List.map_eq_nil_iff.mp hs) hne
  | skipped hreg _ ih => exact ih (hs.of_skipped hreg)
  | moved _ _ _ _ => exact fun _ => List.cons_ne_nil _ _
  | ended _ _ _ => exact fun _ => List.cons_ne_nil _ _

/-- A further stream is opened after one that is not unavailable. -/
def Further (calls : Openings) : Prop :=
  ∃ pre e post, calls = pre ++ e :: post ∧ post ≠ [] ∧ ¬ Unavailable e.answer

theorem further_cons {e : Event streamingI Exn} {calls : Openings} :
    Further (e :: calls) ↔ (¬ Unavailable e.answer ∧ calls ≠ []) ∨ Further calls := by
  constructor
  · rintro ⟨pre, x, post, he, hne, hx⟩
    cases pre with
    | nil =>
      obtain ⟨rfl, rfl⟩ := List.cons.inj he
      exact .inl ⟨hx, hne⟩
    | cons y pre =>
      obtain ⟨rfl, rfl⟩ := List.cons.inj he
      exact .inr ⟨pre, x, post, rfl, hne, hx⟩
  · rintro (⟨hu, hne⟩ | ⟨pre, x, post, rfl, hne, hx⟩)
    · exact ⟨[], e, calls, rfl, hne, hu⟩
    · exact ⟨e :: pre, x, post, rfl, hne, hx⟩

theorem not_further_nil : ¬ Further [] := by
  rintro ⟨pre, e, post, he, _⟩
  simp at he

/-- The loop goes on after a silent stream, and after no other that may have executed. -/
theorem Opens.further_iff {cands : List Candidate} {calls script : Openings}
    (h : Opens registered request cands calls) (hs : Scripts registered request cands script)
    (hpre : calls <+: script) : Further calls ↔ SilentGap script := by
  induction h generalizing script with
  | exhausted =>
    have hnil : script = [] := List.map_eq_nil_iff.mp hs
    rw [hnil]
    refine iff_of_false not_further_nil ?_
    rintro ⟨pre, e, post, he, _⟩
    simp at he
  | skipped hreg _ ih => exact ih (hs.of_skipped hreg) hpre
  | @moved c rest calls a hreg hpass hopens ih =>
    obtain ⟨e, script', rfl, hs'⟩ := hs.of_registered hreg
    obtain ⟨rfl, hpre'⟩ := List.cons_prefix_cons.mp hpre
    rw [further_cons, silentGap_cons, ih hs' hpre']
    have hne : calls ≠ [] ↔ script' ≠ [] := by
      refine ⟨fun hc hn => hc ?_, hopens.nonempty hs'⟩
      rw [hn] at hpre'
      exact List.prefix_nil.mp hpre'
    have hgap : SilentGap script' → script' ≠ [] := by
      rintro ⟨pre, x, post, rfl, _⟩ hn
      simp at hn
    rcases hpass with hu | hsil
    · have hnot := not_silent_of_unavailable hu
      simp [hu, hnot]
    · have hnot : ¬ Unavailable a := fun hu => not_silent_of_unavailable hu hsil
      simp only [hnot, hsil, hne, not_false_eq_true, true_and, false_and, or_false]
      exact ⟨fun h => h.elim id hgap, .inl⟩
  | @ended c rest a hreg hu hsil =>
    obtain ⟨e, script', rfl, hs'⟩ := hs.of_registered hreg
    obtain ⟨rfl, _⟩ := List.cons_prefix_cons.mp hpre
    rw [further_cons, silentGap_cons]
    simp [hu, hsil, not_further_nil]

theorem atMostOnce_iff {calls : Openings} : AtMostOnce calls ↔ ¬ Further calls := by
  constructor
  · rintro h ⟨pre, e, post, he, hne, hu⟩
    exact hu (h.further pre e post he hne)
  · intro h
    have hfurther : ∀ pre e post, calls = pre ++ e :: post → post ≠ [] → Unavailable e.answer := by
      intro pre e post he hne
      by_contra hu
      exact h ⟨pre, e, post, he, hne, hu⟩
    refine ⟨hfurther, fun pre e mid e' post he => .inl (hfurther pre e _ he ?_)⟩
    simp

end Loop

/-- **No double spend, and exactly when.** Under AT_MOST_ONCE, for every ranked list,
registry and behaviour of each candidate's stream (`script`), a run of `stream` opens
no stream after one that may have executed, unless a silent one stands before another
candidate. -/
theorem stream_atMostOnce_iff (registered : ProviderEnum → Bool)
    (completes : ProviderEnum → ChatRequest → Prog streamingI Exn ChatResponse)
    (candidatesFor : String → Except Exn (List Candidate)) (request : ChatRequest) (apiKeyId : UUID)
    (cands : List Candidate) (hc : candidatesFor request.model = .ok cands)
    (hp : request.failoverPolicy = .atMostOnce) (script : Openings)
    (hs : Scripts registered request cands script)
    (t : Trace (streamingI.sum recorderI) Exn) (o)
    (h : Ends ((streamed registered completes candidatesFor).stream request apiKeyId) t o)
    (hpre : lefts t <+: script) :
    AtMostOnce (lefts t) ↔ ¬ SilentGap script := by
  have hloop : Ends ((streamed registered completes candidatesFor).tryStream request apiKeyId none
      cands) t o := by
    unfold stream at h
    rw [show (streamed registered completes candidatesFor).candidatesFor request.model = .ok cands
      from hc] at h
    exact h
  rw [atMostOnce_iff, (opens_of_ends hp hloop).further_iff hs hpre]

/-- An unavailable candidate, then one that streams: nothing was executed twice. -/
theorem stream_atMostOnce_served :
    AtMostOnce
      [⟨(.openai, ⟨"gpt-4o", [], none, .atMostOnce⟩), .ok (.raise (.upstreamUnavailable "refused"))⟩,
        ⟨(.anthropic, ⟨"claude-sonnet-5", [], none, .atMostOnce⟩), .ok (.item (.delta "hi") .stop)⟩] := by
  have hend : ∃ g, Ends ((streamed (fun _ => true) (fun _ _ => .raise .cancelledError)
      (fun _ => .ok [⟨.openai, "gpt-4o"⟩, ⟨.anthropic, "claude-sonnet-5"⟩])).stream
        ⟨"default", [], none, .atMostOnce⟩ ⟨7⟩)
      [⟨.inl (.openai, ⟨"gpt-4o", [], none, .atMostOnce⟩),
          .ok (.raise (.upstreamUnavailable "refused"))⟩,
        ⟨.inl (.anthropic, ⟨"claude-sonnet-5", [], none, .atMostOnce⟩),
          .ok (.item (.delta "hi") .stop)⟩] (.ok g) := ⟨_, .step _ (.step _ (.refl _))⟩
  obtain ⟨g, hend⟩ := hend
  refine (stream_atMostOnce_iff _ _ _ _ _ _ rfl rfl _ ?_ _ (.ok g) hend (List.prefix_refl _)).mpr ?_
  · rfl
  · intro hgap
    obtain ⟨hs, _⟩ | ⟨_, hgap⟩ := silentGap_cons.mp hgap
    · cases hs
    · obtain ⟨hs, _⟩ | ⟨⟨e, he, _⟩, _⟩ := silentGap_cons.mp hgap
      · cases hs
      · cases he

/-- The first candidate's stream is opened and ends without any event; the request goes
on to the second provider, which serves it. -/
theorem stream_executed_twice :
    ∃ (t : Trace (streamingI.sum recorderI) Exn) (g : Gen (streamingI.sum recorderI) Exn
        ChatStreamEvent Unit),
      Ends ((streamed (fun _ => true) (fun _ _ => .raise .cancelledError)
        (fun _ => .ok [⟨.openai, "gpt-4o"⟩, ⟨.anthropic, "claude-sonnet-5"⟩])).stream
          ⟨"default", [], none, .atMostOnce⟩ ⟨7⟩) t (.ok g) ∧
      lefts t =
        [⟨(.openai, ⟨"gpt-4o", [], none, .atMostOnce⟩), .ok .stop⟩,
          ⟨(.anthropic, ⟨"claude-sonnet-5", [], none, .atMostOnce⟩), .ok (.item (.delta "hi") .stop)⟩] ∧
      ¬ AtMostOnce (lefts t) := by
  refine ⟨[⟨.inl (.openai, ⟨"gpt-4o", [], none, .atMostOnce⟩), .ok .stop⟩,
    ⟨.inl (.anthropic, ⟨"claude-sonnet-5", [], none, .atMostOnce⟩), .ok (.item (.delta "hi") .stop)⟩],
    _, .step _ (.step _ (.refl _)), rfl, fun h => ?_⟩
  obtain ⟨e, he, _⟩ := h.further [] _ _ rfl (List.cons_ne_nil _ _)
  cases he

end GatewayService
end Relayix
