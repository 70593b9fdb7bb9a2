import Relayix.Services.Gateway

/-! The failover loop of `GatewayService.complete`, in full.

The adapters are opaque here, one command for each call, so a run is the list of
calls with their outcomes and the list of usage records. `Tries` says once what a
run of the loop can be, a case for each way a candidate can leave it; `Failover` is
the specification, and each of its fields is an induction on `Tries`. -/
namespace Relayix
open Library

/-- A buffered call to a provider. -/
@[reducible] def completionI : Interface := ⟨ProviderEnum × ChatRequest, fun _ => ChatResponse⟩

namespace GatewayService

/-- The gateway over opaque adapters, for the providers that are registered. -/
def buffering (registered : ProviderEnum → Bool)
    (streams : ProviderEnum → ChatRequest → Gen completionI Exn ChatStreamEvent Unit)
    (candidatesFor : String → Except Exn (List Candidate)) : GatewayService completionI where
  registry p :=
    if registered p then some ⟨fun request => .perform (p, request), streams p⟩ else none
  candidatesFor := candidatesFor

/-- The call that a candidate gets. -/
def asked (request : ChatRequest) (c : Candidate) : ProviderEnum × ChatRequest :=
  (c.provider, upstream request c)

abbrev Attempts := Trace completionI Exn
abbrev Records := Trace recorderI Exn

section Loop
variable {registered : ProviderEnum → Bool}
  {streams : ProviderEnum → ChatRequest → Gen completionI Exn ChatStreamEvent Unit}
  {candidatesFor : String → Except Exn (List Candidate)} {request : ChatRequest} {apiKeyId : UUID}

/-- What a run of the loop can be. -/
inductive Tries (registered : ProviderEnum → Bool) (request : ChatRequest) (apiKeyId : UUID) :
    Option Exn → List Candidate → Attempts → Records → Except Exn ChatResponse → Prop where
  | exhausted (ambiguous : Option Exn) : Tries registered request apiKeyId ambiguous [] [] []
      (.error (ambiguous.getD providerNotAvailable))
  | skipped {ambiguous : Option Exn} {c : Candidate} {rest : List Candidate} {calls : Attempts}
      {records : Records} {o : Except Exn ChatResponse} : registered c.provider = false →
      Tries registered request apiKeyId ambiguous rest calls records o →
      Tries registered request apiKeyId ambiguous (c :: rest) calls records o
  | moved {ambiguous : Option Exn} {c : Candidate} {rest : List Candidate} {calls : Attempts}
      {records : Records} {o : Except Exn ChatResponse} {e : Exn} : registered c.provider = true →
      failsOver request e = true →
      Tries registered request apiKeyId (remember ambiguous e) rest calls records o →
      Tries registered request apiKeyId ambiguous (c :: rest)
        (⟨asked request c, .error e⟩ :: calls) records o
  | raised {ambiguous : Option Exn} {c : Candidate} {rest : List Candidate} {e : Exn} :
      registered c.provider = true → failsOver request e = false →
      Tries registered request apiKeyId ambiguous (c :: rest) [⟨asked request c, .error e⟩] []
        (.error e)
  | served {ambiguous : Option Exn} {c : Candidate} {rest : List Candidate} (r : ChatResponse)
      (a : Except Exn Unit) : registered c.provider = true →
      Tries registered request apiKeyId ambiguous (c :: rest) [⟨asked request c, .ok r⟩]
        [⟨.record apiKeyId r, a⟩] (a.map fun _ => r)

/-- The run ended where a response was recorded. -/
theorem served_ends {r : ChatResponse} {t : Trace (completionI.sum recorderI) Exn}
    {o : Except Exn ChatResponse}
    (h : Ends ((record apiKeyId r : Prog (completionI.sum recorderI) Exn Unit).bind fun _ => .ret r)
      t o) :
    lefts t = [] ∧ ∃ a, rights t = [⟨.record apiKeyId r, a⟩] ∧ o = a.map fun _ => r := by
  rcases ends_perform_bind.mp h with ⟨a, rest, rfl, hr⟩ | ⟨e, rfl, rfl⟩
  · obtain ⟨rfl, rfl⟩ := ends_ret.mp hr
    exact ⟨rfl, .ok a, rfl, rfl⟩
  · exact ⟨rfl, .error e, rfl, rfl⟩

theorem tries_of_ends {cands : List Candidate} {ambiguous : Option Exn}
    {t : Trace (completionI.sum recorderI) Exn} {o : Except Exn ChatResponse}
    (h : Ends ((buffering registered streams candidatesFor).tryComplete request apiKeyId ambiguous
      cands) t o) :
    Tries registered request apiKeyId ambiguous cands (lefts t) (rights t) o := by
  induction cands generalizing ambiguous t with
  | nil =>
    obtain ⟨rfl, rfl⟩ := ends_raise.mp h
    exact .exhausted ambiguous
  | cons c rest ih =>
    cases hreg : registered c.provider with
    | false =>
      have hskip : (buffering registered streams candidatesFor).registry c.provider = none := by
        simp [buffering, hreg]
      rw [tryComplete, hskip] at h
      exact .skipped hreg (ih h)
    | true =>
      have hget : (buffering registered streams candidatesFor).registry c.provider =
          some ⟨fun request => .perform (c.provider, request), streams c.provider⟩ := by
        simp [buffering, hreg]
      rw [tryComplete, hget] at h
      obtain ⟨a, t₁, t₂, rfl, hcall, hrest⟩ := ends_attempt_bind.mp h
      obtain rfl := ends_perform_inl.mp hcall
      cases a with
      | ok r =>
        obtain ⟨hl, a, hr, rfl⟩ := served_ends hrest
        rw [lefts_append, rights_append, hl, hr]
        exact .served r a hreg
      | error e =>
        cases hf : failsOver request e with
        | true =>
          simp only [hf, if_true] at hrest
          exact .moved hreg hf (ih hrest)
        | false =>
          simp only [hf, Bool.false_eq_true, if_false] at hrest
          obtain ⟨rfl, rfl⟩ := ends_raise.mp hrest
          exact .raised hreg hf

end Loop

/-! ### The specification -/

/-- A call that provably never executed. -/
def unexecuted (a : Except Exn ChatResponse) : Bool :=
  match a with
  | .error e => e.isUpstreamUnavailable
  | .ok _ => false

/-- The ambiguity a call ended in. -/
def ambiguity (a : Except Exn ChatResponse) : Option Exn :=
  match a with
  | .error e => if e.isUpstreamAmbiguous then some e else none
  | .ok _ => none

/-- A call after which the next candidate may be tried. -/
def Passed (request : ChatRequest) (a : Except Exn ChatResponse) : Prop :=
  ∃ e, a = .error e ∧ (e.isUpstreamUnavailable = true ∨
    e.isUpstreamAmbiguous = true ∧ request.failoverPolicy = .atLeastOnce)

/-- What the loop owes, as a statement about its calls, its records and its outcome. -/
structure Failover (registered : ProviderEnum → Bool) (request : ChatRequest) (apiKeyId : UUID)
    (cands : List Candidate) (calls : Attempts) (records : Records) (o : Except Exn ChatResponse) :
    Prop where
  /-- a prefix of the registered candidates, in rank order, each asked once with its model -/
  rank : ∃ n, calls.map Event.cmd =
    ((cands.filter (registered ·.provider)).take n).map (asked request)
  moves : ∀ pre e post, calls = pre ++ e :: post → post ≠ [] → Passed request e.answer
  single : request.failoverPolicy = .atMostOnce → calls.countP (!unexecuted ·.answer) ≤ 1
  returns : ∀ r, o = .ok r ↔ ∃ pre c, calls = pre ++ [⟨c, .ok r⟩]
  recorded : ∀ r, o = .ok r → records = [⟨.record apiKeyId r, .ok ()⟩]
  unrecorded : ∀ e, o = .error e → records = []
  /-- what a candidate raised and the loop does not pass over is what is raised -/
  raises : ∀ pre c e, calls = pre ++ [⟨c, .error e⟩] → ¬ Passed request (.error e) → o = .error e
  /-- exhausted: the last ambiguity, if there was one -/
  exhausted : calls.length = (cands.filter (registered ·.provider)).length →
    (∀ e ∈ calls, Passed request e.answer) →
    o = .error ((calls.filterMap (ambiguity ·.answer)).getLast?.getD providerNotAvailable)

section Spec
variable {registered : ProviderEnum → Bool} {request : ChatRequest} {apiKeyId : UUID}
  {ambiguous : Option Exn} {cands : List Candidate} {calls : Attempts} {records : Records}
  {o : Except Exn ChatResponse}

theorem passed_iff {e : Exn} : Passed request (.error e) ↔ failsOver request e = true := by
  simp [Passed, failsOver]

theorem not_passed_ok (r : ChatResponse) : ¬ Passed request (.ok r) := by
  rintro ⟨e, he, _⟩
  cases he

theorem remember_eq (e : Exn) :
    remember ambiguous e = if e.isUpstreamAmbiguous then some e else ambiguous := by
  unfold remember
  cases h : e.isUpstreamUnavailable with
  | true => simp [Exn.not_ambiguous_of_unavailable h]
  | false => simp

namespace Tries

theorem rank (h : Tries registered request apiKeyId ambiguous cands calls records o) :
    ∃ n, calls.map Event.cmd = ((cands.filter (registered ·.provider)).take n).map (asked request) := by
  induction h with
  | exhausted => exact ⟨0, rfl⟩
  | skipped hreg _ ih =>
    obtain ⟨n, hn⟩ := ih
    refine ⟨n, ?_⟩
    rw [hn, List.filter_cons_of_neg (by simp [hreg])]
  | moved hreg _ _ ih =>
    obtain ⟨n, hn⟩ := ih
    refine ⟨n + 1, ?_⟩
    rw [List.filter_cons_of_pos (by simpa using hreg), List.take_succ_cons, List.map_cons,
      List.map_cons, hn]
  | raised hreg _ =>
    refine ⟨1, ?_⟩
    rw [List.filter_cons_of_pos (by simpa using hreg)]
    rfl
  | served r a hreg =>
    refine ⟨1, ?_⟩
    rw [List.filter_cons_of_pos (by simpa using hreg)]
    rfl

theorem moves (h : Tries registered request apiKeyId ambiguous cands calls records o) :
    ∀ pre e post, calls = pre ++ e :: post → post ≠ [] → Passed request e.answer := by
  induction h with
  | exhausted => simp
  | skipped _ _ ih => exact ih
  | moved _ hf _ ih =>
    intro pre e post he hne
    cases pre with
    | nil =>
      obtain ⟨rfl, rfl⟩ := List.cons.inj he
      exact passed_iff.mpr hf
    | cons x pre => exact ih pre e post (List.cons.inj he).2 hne
  | raised _ _ =>
    intro pre e post he hne
    cases pre with
    | nil => exact absurd (List.cons.inj he).2.symm hne
    | cons x pre => simp at he
  | served r a _ =>
    intro pre e post he hne
    cases pre with
    | nil => exact absurd (List.cons.inj he).2.symm hne
    | cons x pre => simp at he

theorem returns (h : Tries registered request apiKeyId ambiguous cands calls records o)
    (hrec : ∀ e ∈ records, e.answer = .ok ()) (r : ChatResponse) :
    o = .ok r ↔ ∃ pre c, calls = pre ++ [⟨c, .ok r⟩] := by
  induction h with
  | exhausted => simp
  | skipped _ _ ih => exact ih hrec
  | moved _ _ _ ih =>
    rw [ih hrec]
    constructor
    · rintro ⟨pre, c, rfl⟩
      exact ⟨_ :: pre, c, rfl⟩
    · rintro ⟨pre, c, he⟩
      cases pre with
      | nil => cases (List.cons.inj he).1
      | cons x pre => exact ⟨pre, c, (List.cons.inj he).2⟩
  | raised _ _ =>
    constructor
    · intro ho
      cases ho
    · rintro ⟨pre, c, he⟩
      cases pre with
      | nil => cases List.singleton_inj.mp he
      | cons x pre => simp at he
  | @served _ c _ r' a _ =>
    have ha : a = .ok () := hrec _ List.mem_cons_self
    subst ha
    constructor
    · intro ho
      cases ho
      exact ⟨[], asked request c, rfl⟩
    · rintro ⟨pre, c, he⟩
      cases pre with
      | nil =>
        cases List.singleton_inj.mp he
        rfl
      | cons x pre => simp at he

/-- What stops the loop leaves it. -/
theorem raises (h : Tries registered request apiKeyId ambiguous cands calls records o) :
    ∀ pre c e, calls = pre ++ [⟨c, .error e⟩] → ¬ Passed request (.error e) → o = .error e := by
  induction h with
  | exhausted => simp
  | skipped _ _ ih => exact ih
  | moved _ hf _ ih =>
    intro pre c e he hstop
    cases pre with
    | nil =>
      obtain ⟨hhead, _⟩ := List.cons.inj he
      cases hhead
      exact absurd (passed_iff.mpr hf) hstop
    | cons x pre => exact ih pre c e (List.cons.inj he).2 hstop
  | raised _ _ =>
    intro pre c e he _
    cases pre with
    | nil =>
      cases List.singleton_inj.mp he
      rfl
    | cons x pre => simp at he
  | served r a _ =>
    intro pre c e he _
    cases pre with
    | nil => cases List.singleton_inj.mp he
    | cons x pre => simp at he

/-- At most once: only the last call can have ended in doubt. -/
theorem single (h : Tries registered request apiKeyId ambiguous cands calls records o)
    (hp : request.failoverPolicy = .atMostOnce) : calls.countP (!unexecuted ·.answer) ≤ 1 := by
  induction h with
  | exhausted => exact Nat.zero_le _
  | skipped _ _ ih => exact ih
  | @moved _ _ _ _ _ _ e _ hf _ ih =>
    have hu : e.isUpstreamUnavailable = true := by simpa [failsOver, hp] using hf
    rw [List.countP_cons_of_neg (by simp [unexecuted, hu])]
    exact ih
  | raised _ _ => exact List.countP_le_length
  | served _ _ _ => exact List.countP_le_length

theorem records_eq (h : Tries registered request apiKeyId ambiguous cands calls records o)
    (hrec : ∀ e ∈ records, e.answer = .ok ()) :
    (∃ r, o = .ok r ∧ records = [⟨.record apiKeyId r, .ok ()⟩]) ∨ (∃ e, o = .error e) ∧ records = [] := by
  induction h with
  | exhausted => exact .inr ⟨⟨_, rfl⟩, rfl⟩
  | skipped _ _ ih => exact ih hrec
  | moved _ _ _ ih => exact ih hrec
  | raised _ _ => exact .inr ⟨⟨_, rfl⟩, rfl⟩
  | served r a _ =>
    have ha : a = .ok () := hrec _ List.mem_cons_self
    subst ha
    exact .inl ⟨r, rfl, rfl⟩

/-- Every candidate passed over: what is raised is the last ambiguity, the one already
remembered included. -/
theorem exhaust (h : Tries registered request apiKeyId ambiguous cands calls records o)
    (hlen : calls.length = (cands.filter (registered ·.provider)).length)
    (hall : ∀ e ∈ calls, Passed request e.answer) :
    o = .error (((calls.filterMap (ambiguity ·.answer)).getLast?.or ambiguous).getD
      providerNotAvailable) := by
  induction h with
  | exhausted => rfl
  | skipped hreg _ ih =>
    rw [List.filter_cons_of_neg (by simp [hreg])] at hlen
    exact ih hlen hall
  | @moved ambiguous c rest calls _ _ e hreg hf _ ih =>
    rw [List.filter_cons_of_pos (by simpa using hreg)] at hlen
    rw [ih (Nat.succ.inj hlen) fun x hx => hall x (List.mem_cons_of_mem _ hx), remember_eq]
    cases ha : e.isUpstreamAmbiguous with
    | false => simp [ambiguity, ha]
    | true =>
      have hcons : (⟨asked request c, .error e⟩ :: calls : Attempts).filterMap (ambiguity ·.answer) =
          e :: calls.filterMap (ambiguity ·.answer) := by
        simp [ambiguity, ha]
      rw [hcons, List.getLast?_cons]
      cases (calls.filterMap (ambiguity ·.answer)).getLast? <;> rfl
  | raised _ hf =>
    have hp := passed_iff.mp (hall _ List.mem_cons_self)
    rw [hf] at hp
    cases hp
  | served r _ _ => exact absurd (hall _ List.mem_cons_self) (not_passed_ok r)

end Tries
end Spec

/-- **The failover loop.** For every ranked list, registry and policy, every assignment
of an outcome to each call gives a run of `complete`, and a run in which the recorder
succeeds is `Failover`. -/
theorem complete_failover (registered : ProviderEnum → Bool)
    (streams : ProviderEnum → ChatRequest → Gen completionI Exn ChatStreamEvent Unit)
    (candidatesFor : String → Except Exn (List Candidate)) (request : ChatRequest) (apiKeyId : UUID)
    (cands : List Candidate) (hc : candidatesFor request.model = .ok cands) :
    (∀ answer, ∃ t o,
      Ends ((buffering registered streams candidatesFor).complete request apiKeyId) t o ∧
        Follows answer t) ∧
    ∀ t o, Ends ((buffering registered streams candidatesFor).complete request apiKeyId) t o →
      (∀ e ∈ rights t, e.answer = .ok ()) →
        Failover registered request apiKeyId cands (lefts t) (rights t) o := by
  refine ⟨ends_total _, fun t o h hrec => ?_⟩
  have hloop : Ends ((buffering registered streams candidatesFor).tryComplete request apiKeyId none
      cands) t o := by
    unfold complete at h
    rw [show (buffering registered streams candidatesFor).candidatesFor request.model = .ok cands
      from hc] at h
    exact h
  have ht := tries_of_ends hloop
  refine ⟨ht.rank, ht.moves, ht.single, ht.returns hrec, fun r ho => ?_, fun e ho => ?_, ht.raises,
    fun hlen hall => ?_⟩
  · obtain ⟨r', ho', hr⟩ | ⟨⟨e, ho'⟩, _⟩ := ht.records_eq hrec
    · rw [ho] at ho'
      cases ho'
      exact hr
    · rw [ho] at ho'
      cases ho'
  · obtain ⟨r', ho', _⟩ | ⟨_, hr⟩ := ht.records_eq hrec
    · rw [ho] at ho'
      cases ho'
    · exact hr
  · have hex := ht.exhaust hlen hall
    rwa [Option.or_none] at hex

/-- The first candidate is unavailable and the second serves: one record, for its
response. -/
theorem complete_failover_second :
    Failover (fun _ => true) ⟨"default", [], none, .atMostOnce⟩ ⟨7⟩
      [⟨.openai, "gpt-4o"⟩, ⟨.anthropic, "claude-sonnet-5"⟩]
      [⟨(.openai, ⟨"gpt-4o", [], none, .atMostOnce⟩), .error (.upstreamUnavailable "refused")⟩,
        ⟨(.anthropic, ⟨"claude-sonnet-5", [], none, .atMostOnce⟩),
          .ok ⟨.anthropic, "claude-sonnet-5", "hi", 1, 1, "stop", "r"⟩⟩]
      [⟨.record ⟨7⟩ ⟨.anthropic, "claude-sonnet-5", "hi", 1, 1, "stop", "r"⟩, .ok ()⟩]
      (.ok ⟨.anthropic, "claude-sonnet-5", "hi", 1, 1, "stop", "r"⟩) := by
  refine (complete_failover (fun _ => true) (fun _ _ => .ret ()) (fun _ =>
    .ok [⟨.openai, "gpt-4o"⟩, ⟨.anthropic, "claude-sonnet-5"⟩]) ⟨"default", [], none, .atMostOnce⟩
    ⟨7⟩ _ rfl).2
    [⟨.inl (.openai, ⟨"gpt-4o", [], none, .atMostOnce⟩), .error (.upstreamUnavailable "refused")⟩,
      ⟨.inl (.anthropic, ⟨"claude-sonnet-5", [], none, .atMostOnce⟩),
        .ok ⟨.anthropic, "claude-sonnet-5", "hi", 1, 1, "stop", "r"⟩⟩,
      ⟨.inr (.record ⟨7⟩ ⟨.anthropic, "claude-sonnet-5", "hi", 1, 1, "stop", "r"⟩), .ok ()⟩] _ ?_ ?_
  · exact .step _ (.step _ (.step _ (.refl _)))
  · exact List.forall_mem_singleton.mpr rfl

end GatewayService
end Relayix
