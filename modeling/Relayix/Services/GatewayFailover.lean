import Relayix.Services.GatewayComplete
import Relayix.Services.GatewayStream

/-! One failover, buffered or streamed.

`complete` and `stream` keep two copies of one loop. What decides how either goes on is what a
candidate came to: something, nothing, or an exception. `Tried` is a run of the loop in these
terms. Both copies are shown to be such runs, so what is said of one is said of the other. -/
namespace Relayix
open Library
namespace GatewayService

/-- What a candidate came to: it gave something, nothing, or an exception. -/
abbrev Attempt (Y : Type) := (ProviderEnum × ChatRequest) × Except Exn (Option Y)

/-- An exception that the loop has no `except` clause for. -/
def unforeseen (e : Exn) : Bool := !e.isUpstreamUnavailable && !e.isUpstreamAmbiguous

/-- What a run of the loop can be. -/
inductive Tried (registered : ProviderEnum → Bool) (request : ChatRequest) {Y : Type} :
    Option Exn → List Candidate → List (Attempt Y) → Except Exn Y → Prop where
  | exhausted (ambiguous : Option Exn) :
      Tried registered request ambiguous [] [] (.error (ambiguous.getD providerNotAvailable))
  | skipped {ambiguous : Option Exn} {c : Candidate} {rest : List Candidate} {calls : List (Attempt Y)}
      {o : Except Exn Y} : registered c.provider = false →
      Tried registered request ambiguous rest calls o →
      Tried registered request ambiguous (c :: rest) calls o
  | moved {ambiguous : Option Exn} {c : Candidate} {rest : List Candidate} {calls : List (Attempt Y)}
      {o : Except Exn Y} {e : Exn} : registered c.provider = true → failsOver request e = true →
      Tried registered request (remember ambiguous e) rest calls o →
      Tried registered request ambiguous (c :: rest) ((asked request c, .error e) :: calls) o
  | silent {ambiguous : Option Exn} {c : Candidate} {rest : List Candidate} {calls : List (Attempt Y)}
      {o : Except Exn Y} : registered c.provider = true →
      Tried registered request ambiguous rest calls o →
      Tried registered request ambiguous (c :: rest) ((asked request c, .ok none) :: calls) o
  | raised {ambiguous : Option Exn} {c : Candidate} {rest : List Candidate} {e : Exn} :
      registered c.provider = true → failsOver request e = false →
      Tried registered request ambiguous (c :: rest) [(asked request c, .error e)] (.error e)
  | gave {ambiguous : Option Exn} {c : Candidate} {rest : List Candidate} (y : Y) :
      registered c.provider = true →
      Tried registered request ambiguous (c :: rest) [(asked request c, .ok (some y))] (.ok y)

/-! ### Both loops -/

/-- A committed stream: its first event, and the adapter's generator suspended there. -/
abbrev Opened (A : Interface) := ChatStreamEvent × (Except Exn Unit → Gen A Exn ChatStreamEvent Unit)

/-- The calls of a buffered run, and of a streamed one. -/
def buffers (calls : Attempts) : List (Attempt ChatResponse) :=
  calls.map fun e => (e.cmd, e.answer.map some)

def opens (calls : Openings) : List (Attempt (Opened streamingI)) :=
  calls.map fun e => (e.cmd, Gen.first (opened e.answer))

section Loops
variable {registered : ProviderEnum → Bool}
  {streams : ProviderEnum → ChatRequest → Gen completionI Exn ChatStreamEvent Unit}
  {completes : ProviderEnum → ChatRequest → Prog streamingI Exn ChatResponse}
  {candidatesFor : String → Except Exn (List Candidate)} {request : ChatRequest} {apiKeyId : UUID}
  {ambiguous : Option Exn} {cands : List Candidate}

/-- What is left of a buffered run once a candidate has answered: the bill. -/
inductive Billed (apiKeyId : UUID) : Except Exn ChatResponse → Records → Except Exn ChatResponse → Prop where
  | failed (e : Exn) : Billed apiKeyId (.error e) [] (.error e)
  | answered (r : ChatResponse) (a : Except Exn Unit) :
      Billed apiKeyId (.ok r) [⟨.record apiKeyId r, a⟩] (a.map fun _ => r)

/-- Where the recorder succeeds, the outcome is the loop's. -/
theorem Billed.succeeded {o o' : Except Exn ChatResponse} {records : Records} (h : Billed apiKeyId o' records o)
    (hrec : ∀ e ∈ records, e.answer = .ok ()) : o = o' := by
  cases h with
  | failed e => rfl
  | answered r a =>
    obtain rfl : a = .ok () := hrec _ List.mem_cons_self
    rfl

theorem Tries.tried {calls : Attempts} {records : Records} {o : Except Exn ChatResponse}
    (h : Tries registered request apiKeyId ambiguous cands calls records o) :
    ∃ o', Tried registered request ambiguous cands (buffers calls) o' ∧ Billed apiKeyId o' records o := by
  induction h with
  | exhausted ambiguous => exact ⟨_, .exhausted ambiguous, .failed _⟩
  | skipped hreg _ ih =>
    obtain ⟨o', ht, hb⟩ := ih
    exact ⟨o', .skipped hreg ht, hb⟩
  | moved hreg hf _ ih =>
    obtain ⟨o', ht, hb⟩ := ih
    exact ⟨o', .moved hreg hf ht, hb⟩
  | raised hreg hf => exact ⟨_, .raised hreg hf, .failed _⟩
  | served r a hreg => exact ⟨_, .gave r hreg, .answered r a⟩

theorem tried_of_tryStream {t : Trace (streamingI.sum recorderI) Exn}
    {o : Except Exn (Gen (streamingI.sum recorderI) Exn ChatStreamEvent Unit)}
    (h : Ends ((streamed registered completes candidatesFor).tryStream request apiKeyId ambiguous cands) t o) :
    ∃ o' : Except Exn (Opened streamingI), Tried registered request ambiguous cands (opens (lefts t)) o' ∧
      o = o'.map fun y => drain apiKeyId y.2 y.1 := by
  induction cands generalizing ambiguous t with
  | nil =>
    obtain ⟨rfl, rfl⟩ := ends_raise.mp h
    exact ⟨_, .exhausted ambiguous, rfl⟩
  | cons c rest ih =>
    cases hreg : registered c.provider with
    | false =>
      rw [tryStream, registry_skipped hreg] at h
      obtain ⟨o', ht, ho⟩ := ih h
      exact ⟨o', .skipped hreg ht, ho⟩
    | true =>
      rw [tryStream, registry_found hreg] at h
      obtain ⟨r, t₁, t₂, rfl, hcall, hrest⟩ := ends_attempt_bind.mp h
      obtain ⟨a, rfl, rfl⟩ := first_ends hcall
      have hcalls : opens (lefts ([⟨.inl (asked request c), a⟩] ++ t₂)) =
          (asked request c, Gen.first (opened a)) :: opens (lefts t₂) := rfl
      rw [show (c.provider, upstream request c) = asked request c from rfl, hcalls]
      cases hs : Gen.first (opened a) with
      | ok first =>
        rw [hs] at hrest
        cases first with
        | none =>
          obtain ⟨o', ht, ho⟩ := ih hrest
          exact ⟨o', .silent hreg ht, ho⟩
        | some y =>
          obtain ⟨rfl, rfl⟩ := ends_ret.mp hrest
          exact ⟨.ok y, .gave y hreg, rfl⟩
      | error e =>
        rw [hs] at hrest
        cases hf : failsOver request e with
        | true =>
          simp only [hf, if_true] at hrest
          obtain ⟨o', ht, ho⟩ := ih hrest
          exact ⟨o', .moved hreg hf ht, ho⟩
        | false =>
          simp only [hf, Bool.false_eq_true, if_false] at hrest
          obtain ⟨rfl, rfl⟩ := ends_raise.mp hrest
          exact ⟨.error e, .raised hreg hf, rfl⟩

/-- A run begins by ranking the candidates, or ends there. -/
theorem complete_ends {t : Trace (completionI.sum recorderI) Exn} {o : Except Exn ChatResponse}
    (h : Ends ((buffering registered streams candidatesFor).complete request apiKeyId) t o) :
    (∃ e, candidatesFor request.model = .error e ∧ t = [] ∧ o = .error e) ∨
      ∃ cands, candidatesFor request.model = .ok cands ∧
        Tries registered request apiKeyId none cands (lefts t) (rights t) o := by
  unfold complete at h
  rw [show (buffering registered streams candidatesFor).candidatesFor = candidatesFor from rfl] at h
  cases hc : candidatesFor request.model with
  | error e =>
    rw [hc] at h
    obtain ⟨rfl, rfl⟩ := ends_raise.mp h
    exact .inl ⟨e, rfl, rfl, rfl⟩
  | ok cands =>
    rw [hc] at h
    exact .inr ⟨cands, rfl, tries_of_ends h⟩

theorem stream_ends {t : Trace (streamingI.sum recorderI) Exn}
    {o : Except Exn (Gen (streamingI.sum recorderI) Exn ChatStreamEvent Unit)}
    (h : Ends ((streamed registered completes candidatesFor).stream request apiKeyId) t o) :
    (∃ e, candidatesFor request.model = .error e ∧ t = [] ∧ o = .error e) ∨
      ∃ cands o', candidatesFor request.model = .ok cands ∧
        Tried registered request none cands (opens (lefts t)) o' ∧ o = o'.map fun y => drain apiKeyId y.2 y.1 := by
  unfold stream at h
  rw [show (streamed registered completes candidatesFor).candidatesFor = candidatesFor from rfl] at h
  cases hc : candidatesFor request.model with
  | error e =>
    rw [hc] at h
    obtain ⟨rfl, rfl⟩ := ends_raise.mp h
    exact .inl ⟨e, rfl, rfl, rfl⟩
  | ok cands =>
    rw [hc] at h
    obtain ⟨o', ht, ho⟩ := tried_of_tryStream h
    exact .inr ⟨cands, o', rfl, ht, ho⟩

end Loops

/-! ### How the loop fails -/

/-- The call ended in doubt: its provider may have executed the request. -/
def Doubtful {Y : Type} (a : Attempt Y) : Prop := ∃ e, a.2 = .error e ∧ e.isUpstreamAmbiguous = true

/-- The call left the loop as it was: its provider was never reached, or gave nothing. -/
def Harmless {Y : Type} (a : Attempt Y) : Prop :=
  a.2 = .ok none ∨ ∃ e, a.2 = .error e ∧ e.isUpstreamUnavailable = true

theorem Harmless.not_doubtful {Y : Type} {a : Attempt Y} (h : Harmless a) : ¬ Doubtful a := by
  rintro ⟨e, he, hamb⟩
  rcases h with h | ⟨e', h, hu⟩
  · rw [he] at h
    cases h
  · obtain rfl : e = e' := Except.error.inj (he.symm.trans h)
    rw [Exn.not_ambiguous_of_unavailable hu] at hamb
    cases hamb

theorem unforeseen_iff {e : Exn} :
    unforeseen e = true ↔ e.isUpstreamUnavailable = false ∧ e.isUpstreamAmbiguous = false := by
  simp [unforeseen]

section Failing
variable {registered : ProviderEnum → Bool} {request : ChatRequest} {Y : Type} {ambiguous : Option Exn}
  {cands : List Candidate} {calls : List (Attempt Y)} {o : Except Exn Y} {e : Exn}

/-- Failed with no ambiguity: nobody was in doubt and nobody is left, or the last call raised
what no clause foresees. -/
theorem Tried.failed (h : Tried registered request ambiguous cands calls o)
    (hamb : ∀ x, ambiguous = some x → x.isUpstreamAmbiguous = true) (ho : o = .error e)
    (he : e.isUpstreamAmbiguous = false) :
    (ambiguous = none ∧ ∀ a ∈ calls, Harmless a) ∨
      ∃ pre asked, calls = pre ++ [(asked, .error e)] ∧ unforeseen e = true := by
  induction h with
  | exhausted ambiguous =>
    cases ambiguous with
    | none => exact .inl ⟨rfl, fun _ hmem => absurd hmem List.not_mem_nil⟩
    | some x =>
      obtain rfl : x = e := Except.error.inj ho
      rw [hamb x rfl] at he
      cases he
  | skipped _ _ ih => exact ih hamb ho
  | @moved ambiguous c rest calls o x _ hf _ ih =>
    have hamb' : ∀ y, remember ambiguous x = some y → y.isUpstreamAmbiguous = true := by
      intro y hy
      rw [remember_eq] at hy
      by_cases hx : x.isUpstreamAmbiguous = true
      · rw [if_pos hx] at hy
        cases hy
        exact hx
      · rw [if_neg hx] at hy
        exact hamb y hy
    rcases ih hamb' ho with ⟨hnone, hall⟩ | ⟨pre, asked, rfl, hun⟩
    · rw [remember_eq] at hnone
      by_cases hx : x.isUpstreamAmbiguous = true
      · rw [if_pos hx] at hnone
        cases hnone
      · rw [if_neg hx] at hnone
        have hu : x.isUpstreamUnavailable = true := by simpa [failsOver, hx] using hf
        exact .inl ⟨hnone, List.forall_mem_cons.mpr ⟨.inr ⟨x, rfl, hu⟩, hall⟩⟩
    · exact .inr ⟨_ :: pre, asked, rfl, hun⟩
  | silent _ _ ih =>
    rcases ih hamb ho with ⟨hnone, hall⟩ | ⟨pre, asked, rfl, hun⟩
    · exact .inl ⟨hnone, List.forall_mem_cons.mpr ⟨.inl rfl, hall⟩⟩
    · exact .inr ⟨_ :: pre, asked, rfl, hun⟩
  | @raised _ c _ x _ hf =>
    obtain rfl : x = e := Except.error.inj ho
    have hu : x.isUpstreamUnavailable = false := (Bool.or_eq_false_iff.mp hf).1
    exact .inr ⟨[], asked request c, rfl, unforeseen_iff.mpr ⟨hu, he⟩⟩
  | gave y _ => cases ho

/-- What no clause foresees leaves the loop at once. -/
theorem Tried.of_unforeseen (h : Tried registered request ambiguous cands calls o)
    {pre : List (Attempt Y)} {asked : ProviderEnum × ChatRequest} (hcalls : calls = pre ++ [(asked, .error e)])
    (hun : unforeseen e = true) : o = .error e := by
  induction h generalizing pre with
  | exhausted => simp at hcalls
  | skipped _ _ ih => exact ih hcalls
  | moved _ hf _ ih =>
    cases pre with
    | nil =>
      cases (List.cons.inj hcalls).1
      obtain ⟨hu, ha⟩ := unforeseen_iff.mp hun
      simp [failsOver, hu, ha] at hf
    | cons x pre => exact ih (List.cons.inj hcalls).2
  | silent _ _ ih =>
    cases pre with
    | nil => cases (List.cons.inj hcalls).1
    | cons x pre => exact ih (List.cons.inj hcalls).2
  | raised _ _ =>
    cases pre with
    | nil =>
      cases List.singleton_inj.mp hcalls
      rfl
    | cons x pre => simp at hcalls
  | gave y _ =>
    cases pre with
    | nil => cases List.singleton_inj.mp hcalls
    | cons x pre => simp at hcalls

/-- After a call in doubt, the last one raised what no clause foresees. -/
def Lost {Y : Type} (calls : List (Attempt Y)) : Prop :=
  ∃ pre asked e, calls = pre ++ [(asked, .error e)] ∧ unforeseen e = true ∧ ∃ a ∈ pre, Doubtful a

/-- Failed with no ambiguity after a call in doubt: it was lost. -/
theorem Tried.lost_iff (h : Tried registered request none cands calls o) :
    Lost calls ↔ (∃ a ∈ calls, Doubtful a) ∧ ∃ e, o = .error e ∧ e.isUpstreamAmbiguous = false := by
  constructor
  · rintro ⟨pre, asked, e, rfl, hun, a, ha, hdoubt⟩
    exact ⟨⟨a, List.mem_append_left _ ha, hdoubt⟩, e, h.of_unforeseen rfl hun, (unforeseen_iff.mp hun).2⟩
  · rintro ⟨⟨a, ha, hdoubt⟩, e, ho, he⟩
    rcases h.failed nofun ho he with ⟨_, hall⟩ | ⟨pre, asked, rfl, hun⟩
    · exact absurd hdoubt (hall a ha).not_doubtful
    · refine ⟨pre, asked, e, rfl, hun, a, ?_, hdoubt⟩
      rcases List.mem_append.mp ha with ha | ha
      · exact ha
      · rw [List.mem_singleton.mp ha] at hdoubt
        obtain ⟨e', he', hamb⟩ := hdoubt
        cases he'
        rw [he] at hamb
        cases hamb

end Failing

/-! ### In lockstep -/

/-- Two candidates' outcomes agree: both raise the same exception, or both give something. -/
def Agrees {Y Z : Type} : Except Exn (Option Y) → Except Exn (Option Z) → Prop
  | .error e, .error e' => e = e'
  | .ok (some _), .ok (some _) => True
  | _, _ => False

/-- Where both loops ask the same candidate at the same place, what they get agrees. -/
def InStep {Y Z : Type} (calls : List (Attempt Y)) (calls' : List (Attempt Z)) : Prop :=
  ∀ (n : Nat) a b, calls[n]? = some a → calls'[n]? = some b → a.1 = b.1 → Agrees a.2 b.2

/-- Both failed with the same exception, or both stopped at something. -/
inductive SameEnd {Y Z : Type} : Except Exn Y → Except Exn Z → Prop where
  | failed (e : Exn) : SameEnd (.error e) (.error e)
  | gave (y : Y) (z : Z) : SameEnd (.ok y) (.ok z)

section Lockstep
variable {registered : ProviderEnum → Bool} {request : ChatRequest} {Y Z : Type} {ambiguous : Option Exn}
  {cands : List Candidate} {calls : List (Attempt Y)} {calls' : List (Attempt Z)} {o : Except Exn Y}
  {o' : Except Exn Z}

theorem InStep.head {a : Attempt Y} {b : Attempt Z} (h : InStep (a :: calls) (b :: calls')) (hab : a.1 = b.1) :
    Agrees a.2 b.2 :=
  h 0 a b rfl rfl hab

theorem InStep.tail {a : Attempt Y} {b : Attempt Z} (h : InStep (a :: calls) (b :: calls')) :
    InStep calls calls' :=
  fun n => h (n + 1)

/-- The next call of the other loop, given what the first one's came to. -/
theorem Tried.of_raise {c : Candidate} {rest : List Candidate} {e : Exn}
    (h : Tried registered request ambiguous (c :: rest) calls' o') (hreg : registered c.provider = true)
    (hstep : InStep ((asked request c, .error e) :: calls) calls') :
    (failsOver request e = true ∧ ∃ later, calls' = (asked request c, .error e) :: later ∧
      Tried registered request (remember ambiguous e) rest later o') ∨
    failsOver request e = false ∧ calls' = [(asked request c, .error e)] ∧ o' = .error e := by
  cases h with
  | skipped hskip _ =>
    rw [hreg] at hskip
    cases hskip
  | moved _ hf hrest =>
    obtain rfl := hstep.head rfl
    exact .inl ⟨hf, _, rfl, hrest⟩
  | silent _ _ => exact (hstep.head rfl).elim
  | raised _ hf =>
    obtain rfl := hstep.head rfl
    exact .inr ⟨hf, rfl, rfl⟩
  | gave _ _ => exact (hstep.head rfl).elim

/-- Where what the candidates come to agrees, two runs ask the same candidates and end alike. -/
theorem Tried.lockstep (h : Tried registered request ambiguous cands calls o)
    (h' : Tried registered request ambiguous cands calls' o') (hstep : InStep calls calls') :
    calls.map Prod.fst = calls'.map Prod.fst ∧ SameEnd o o' := by
  induction h generalizing calls' with
  | exhausted ambiguous =>
    cases h' with
    | exhausted => exact ⟨rfl, .failed _⟩
  | skipped hreg _ ih =>
    cases h' with
    | skipped _ hrest => exact ih hrest hstep
    | moved hreg' _ _ | silent hreg' _ | raised hreg' _ | gave _ hreg' =>
      rw [hreg] at hreg'
      cases hreg'
  | moved hreg hf _ ih =>
    rcases h'.of_raise hreg hstep with ⟨_, later, rfl, hrest⟩ | ⟨hf', _, _⟩
    · obtain ⟨hcalls, hend⟩ := ih hrest hstep.tail
      exact ⟨by rw [List.map_cons, List.map_cons, hcalls], hend⟩
    · rw [hf] at hf'
      cases hf'
  | silent hreg _ _ =>
    cases h' with
    | skipped hskip _ =>
      rw [hreg] at hskip
      cases hskip
    | moved _ _ _ | silent _ _ | raised _ _ | gave _ _ => exact (hstep.head rfl).elim
  | raised hreg hf =>
    rcases h'.of_raise hreg hstep with ⟨hf', _, _, _⟩ | ⟨_, rfl, rfl⟩
    · rw [hf] at hf'
      cases hf'
    · exact ⟨rfl, .failed _⟩
  | gave y hreg =>
    cases h' with
    | skipped hskip _ =>
      rw [hreg] at hskip
      cases hskip
    | gave z _ => exact ⟨rfl, .gave y z⟩
    | moved _ _ _ | silent _ _ | raised _ _ => exact (hstep.head rfl).elim

/-- What the loop stops at was given by the last candidate it asked. -/
theorem Tried.last (h : Tried registered request ambiguous cands calls o) {y : Y} (ho : o = .ok y) :
    ∃ pre asked, calls = pre ++ [(asked, .ok (some y))] := by
  induction h with
  | exhausted => cases ho
  | skipped _ _ ih => exact ih ho
  | moved _ _ _ ih | silent _ _ ih =>
    obtain ⟨pre, c, rfl⟩ := ih ho
    exact ⟨_ :: pre, c, rfl⟩
  | raised _ _ => cases ho
  | gave y _ =>
    cases ho
    exact ⟨[], _, rfl⟩

end Lockstep

/-- How the two entry points end: with the same exception, or the stream committed to the
candidate whose response was returned. -/
inductive Alike (apiKeyId : UUID) (calls : Attempts) (calls' : Openings) :
    Except Exn ChatResponse → Except Exn (Gen (streamingI.sum recorderI) Exn ChatStreamEvent Unit) → Prop where
  | failed (e : Exn) : Alike apiKeyId calls calls' (.error e) (.error e)
  | committed {pre : List (Attempt ChatResponse)} {pre' : List (Attempt (Opened streamingI))}
      {asked : ProviderEnum × ChatRequest} (r : ChatResponse) (first : Opened streamingI)
      (complete : buffers calls = pre ++ [(asked, .ok (some r))])
      (stream : opens calls' = pre' ++ [(asked, .ok (some first))]) :
      Alike apiKeyId calls calls' (.ok r) (.ok (drain apiKeyId first.2 first.1))

theorem map_buffers (calls : Attempts) : (buffers calls).map Prod.fst = calls.map Event.cmd := by
  simp [buffers]

theorem map_opens (calls : Openings) : (opens calls).map Prod.fst = calls.map Event.cmd := by
  simp [opens]

/-- Two lists of calls with the same candidates, each stopped at its last one. -/
theorem last_eq {Y Z : Type} {pre : List (Attempt Y)} {pre' : List (Attempt Z)} {a : Attempt Y} {b : Attempt Z}
    (h : (pre ++ [a]).map Prod.fst = (pre' ++ [b]).map Prod.fst) : a.1 = b.1 := by
  rw [List.map_append, List.map_append] at h
  exact List.singleton_inj.mp (List.append_inj' h rfl).2

/-- **Before it commits, streaming is buffering.** For every ranked list, registry and policy,
where a candidate's stream begins as its buffered call would answer, both entry points ask the
same candidates in the same order and end alike. -/
theorem stream_like_complete (registered : ProviderEnum → Bool)
    (streams : ProviderEnum → ChatRequest → Gen completionI Exn ChatStreamEvent Unit)
    (completes : ProviderEnum → ChatRequest → Prog streamingI Exn ChatResponse)
    (candidatesFor : String → Except Exn (List Candidate)) (request : ChatRequest) (apiKeyId : UUID)
    (t : Trace (completionI.sum recorderI) Exn) (o : Except Exn ChatResponse)
    (u : Trace (streamingI.sum recorderI) Exn)
    (s : Except Exn (Gen (streamingI.sum recorderI) Exn ChatStreamEvent Unit))
    (hc : Ends ((buffering registered streams candidatesFor).complete request apiKeyId) t o)
    (hs : Ends ((streamed registered completes candidatesFor).stream request apiKeyId) u s)
    (hrec : ∀ e ∈ rights t, e.answer = .ok ()) (hstep : InStep (buffers (lefts t)) (opens (lefts u))) :
    (lefts t).map Event.cmd = (lefts u).map Event.cmd ∧ Alike apiKeyId (lefts t) (lefts u) o s := by
  rcases complete_ends hc with ⟨e, hcands, rfl, rfl⟩ | ⟨cands, hcands, htries⟩
  · rcases stream_ends hs with ⟨e', hcands', rfl, rfl⟩ | ⟨_, _, hcands', _⟩
    · obtain rfl : e = e' := Except.error.inj (hcands.symm.trans hcands')
      exact ⟨rfl, .failed e⟩
    · rw [hcands] at hcands'
      cases hcands'
  · rcases stream_ends hs with ⟨e', hcands', _⟩ | ⟨cands', s', hcands', htried', rfl⟩
    · rw [hcands] at hcands'
      cases hcands'
    · obtain rfl : cands = cands' := Except.ok.inj (hcands.symm.trans hcands')
      obtain ⟨o', htried, hbilled⟩ := htries.tried
      obtain ⟨hcalls, hend⟩ := htried.lockstep htried' hstep
      refine ⟨by rw [← map_buffers, hcalls, map_opens], ?_⟩
      obtain rfl := hbilled.succeeded hrec
      cases hend with
      | failed e => exact .failed e
      | gave r first =>
        obtain ⟨pre, asked, hpre⟩ := htried.last rfl
        obtain ⟨pre', asked', hpre'⟩ := htried'.last rfl
        rw [hpre, hpre'] at hcalls
        obtain rfl : asked = asked' := last_eq hcalls
        exact .committed r first hpre hpre'

/-- The first candidate is unavailable either way; the second answers and streams. -/
theorem stream_like_complete_second :
    ∃ (t : Trace (completionI.sum recorderI) Exn) (u : Trace (streamingI.sum recorderI) Exn) (r : ChatResponse)
      (s : Except Exn (Gen (streamingI.sum recorderI) Exn ChatStreamEvent Unit)),
      (lefts t).map Event.cmd = (lefts u).map Event.cmd ∧ Alike ⟨7⟩ (lefts t) (lefts u) (.ok r) s := by
  let first : ProviderEnum × ChatRequest := (.openai, ⟨"gpt-4o", [], none, .atMostOnce⟩)
  let second : ProviderEnum × ChatRequest := (.anthropic, ⟨"claude-sonnet-5", [], none, .atMostOnce⟩)
  let answer : ChatResponse := ⟨.anthropic, "claude-sonnet-5", "hi", 1, 1, "stop", "r"⟩
  let ranked : String → Except Exn (List Candidate) :=
    fun _ => .ok [⟨.openai, "gpt-4o"⟩, ⟨.anthropic, "claude-sonnet-5"⟩]
  have hc : Ends ((buffering (fun _ => true) (fun _ _ => .ret ()) ranked).complete
      ⟨"default", [], none, .atMostOnce⟩ ⟨7⟩)
      [⟨.inl first, .error (.upstreamUnavailable "refused")⟩, ⟨.inl second, .ok answer⟩,
        ⟨.inr (.record ⟨7⟩ answer), .ok ()⟩] (.ok answer) := .step _ (.step _ (.step _ (.refl _)))
  have hs : ∃ s, Ends ((streamed (fun _ => true) (fun _ _ => .raise .cancelledError) ranked).stream
      ⟨"default", [], none, .atMostOnce⟩ ⟨7⟩)
      [⟨.inl first, .ok (.raise (.upstreamUnavailable "refused"))⟩,
        ⟨.inl second, .ok (.item (.delta "hi") .stop)⟩] (.ok s) := ⟨_, .step _ (.step _ (.refl _))⟩
  obtain ⟨s, hs⟩ := hs
  refine ⟨_, _, answer, .ok s, stream_like_complete _ _ _ _ _ _ _ _ _ _ hc hs
    (List.forall_mem_singleton.mpr rfl) fun n a b ha hb _ => ?_⟩
  match n with
  | 0 =>
    cases ha
    cases hb
    rfl
  | 1 =>
    cases ha
    cases hb
    trivial
  | n + 2 => cases ha

end GatewayService
end Relayix
