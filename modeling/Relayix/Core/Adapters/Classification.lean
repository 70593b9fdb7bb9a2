import Relayix.Core.Adapters.AnthropicAdapter
import Relayix.Core.Adapters.OpenAIAdapter

/-! How a stream that fails is classified.

What an exception of a stream means is what its class says: nothing was run, it may have been,
or a part of the answer has been given. An exception of the SDK is classified wherever in the
stream it is raised. A chunk that cannot be read is not: `complete` catches what its fields raise,
and `stream` does not. -/
namespace Relayix
open Library

/-- Both `UpstreamUnavailable`, or both `UpstreamAmbiguous`. -/
def Exn.sameClass : Exn → Exn → Bool
  | .upstreamUnavailable _, .upstreamUnavailable _ | .upstreamAmbiguous _, .upstreamAmbiguous _ => true
  | _, _ => false

namespace Dialect
variable {Chunk Completion : Type} {dialect : Dialect Chunk}

/-- What ends a stream before its time. -/
inductive Failure (dialect : Dialect Chunk) where
  | sdk (e : SdkError)
  | unreadable (chunk : Chunk) (h : dialect.Unreadable chunk) (rest : Source SdkExn Chunk)

def Failure.isSdk : dialect.Failure → Bool
  | .sdk _ => true
  | .unreadable .. => false

def Failure.source : dialect.Failure → Source SdkExn Chunk
  | .sdk e => .raise (.sdk e)
  | .unreadable chunk _ rest => .item chunk rest

/-- A stream that fails after some chunks. -/
structure Failing (dialect : Dialect Chunk) where
  chunks : List Chunk
  readable : ∀ chunk ∈ chunks, dialect.Readable chunk
  failure : dialect.Failure

def Failing.source (f : dialect.Failing) : Source SdkExn Chunk := .after f.chunks f.failure.source

/-- The last counts that were reported before it failed. -/
def Failing.reported (f : dialect.Failing) : Int × Int := dialect.reported (.after f.chunks .stop)

/-- Raised as by `complete`, for the same exception of the SDK or for a response it cannot read. -/
def Failure.Buffered (complete : Except SdkExn Completion → Except Exn ChatResponse) (e : Exn) : dialect.Failure → Prop
  | .sdk e' => ∃ e'', complete (.error (.sdk e')) = .error e'' ∧ e.sameClass e'' = true
  | .unreadable .. => ∃ m, e = .upstreamAmbiguous m

/-- The exception that a failure has to raise once these deltas have been given. -/
structure Fits (complete : Except SdkExn Completion → Except Exn ChatResponse) (f : dialect.Failing)
    (contents : List String) (e : Exn) : Prop where
  upstream : e.isUpstreamError = true
  interrupted : contents ≠ [] → ∃ m r, e = .upstreamStreamInterrupted m (some r) ∧
    r.content = String.join contents ∧ (r.tokensIn, r.tokensOut) = f.reported
  clean : contents = [] → f.failure.Buffered complete e

def Classified (complete : Except SdkExn Completion → Except Exn ChatResponse) (f : dialect.Failing)
    (out : Source Exn ChatStreamEvent) : Prop :=
  ∃ contents e, out = given contents (.raise e) ∧ Fits complete f contents e

theorem failure_given (contents : List String) (rest : Source Exn ChatStreamEvent) :
    (given contents rest).failure = rest.failure := by
  induction contents with
  | nil => rfl
  | cons content contents ih => exact ih

/-- Chunks that can be read are their deltas, and leave the counts that they reported. -/
theorem run_after {chunks : List Chunk} (h : ∀ chunk ∈ chunks, dialect.Readable chunk) (p : Progress) :
    ∃ contents p', p'.contentParts = p.contentParts ++ contents ∧
      p'.tokensIn = (chunks.filterMap fun chunk => (dialect.reports chunk).1).getLast?.getD p.tokensIn ∧
      p'.tokensOut = (chunks.filterMap fun chunk => (dialect.reports chunk).2).getLast?.getD p.tokensOut ∧
      ∀ rest, dialect.run p (.after chunks rest) = given contents (dialect.run p' rest) := by
  induction chunks generalizing p with
  | nil => exact ⟨[], p, (List.append_nil _).symm, rfl, rfl, fun rest => rfl⟩
  | cons chunk chunks ih =>
    obtain ⟨hchunk, hchunks⟩ := List.forall_mem_cons.mp h
    obtain ⟨delta, p₁, hread⟩ := hchunk p
    obtain ⟨hin, hout⟩ := dialect.read_tokens hread
    obtain ⟨contents, p', hcontents, ihin, ihout, hrun⟩ := ih hchunks p₁
    refine ⟨delta.toList ++ contents, p', ?_, ?_, ?_, fun rest => ?_⟩
    · rw [hcontents, dialect.read_content hread, List.append_assoc]
    · rw [ihin, hin, getLast_filterMap_cons]
    · rw [ihout, hout, getLast_filterMap_cons]
    · show dialect.run p (.item chunk (.after chunks rest)) = _
      rw [run, hread]
      cases delta with
      | none => exact hrun rest
      | some content => exact congrArg (Source.item (.delta content)) (hrun rest)

/-- Before anything was given, a failure is in doubt or was none of the provider's doing. -/
theorem cleanError_cases (e : SdkError) :
    (∃ m, dialect.cleanError e = .upstreamAmbiguous m) ∨ ∃ m, dialect.cleanError e = .upstreamUnavailable m := by
  cases e with
  | apiTimeout m => exact .inl ⟨_, rfl⟩
  | apiConnection m => exact .inr ⟨_, rfl⟩
  | apiStatus code m =>
    by_cases hcode : code ≥ 500
    · exact .inl ⟨_, if_pos hcode⟩
    · exact .inr ⟨_, if_neg hcode⟩
  | other m => exact .inl ⟨_, rfl⟩

theorem cleanError_sameClass (e : SdkError) : (dialect.cleanError e).sameClass (dialect.cleanError e) = true := by
  obtain ⟨m, h⟩ | ⟨m, h⟩ := cleanError_cases e <;> rw [h] <;> rfl

theorem cleanError_upstream (e : SdkError) : (dialect.cleanError e).isUpstreamError = true := by
  obtain ⟨m, h⟩ | ⟨m, h⟩ := cleanError_cases e <;> rw [h] <;> rfl

theorem not_upstream_of_malformed {e : Exn} (h : e.isMalformed = true) : e.isUpstreamError = false := by
  cases e with
  | exception name m => rfl
  | _ => exact absurd h Bool.false_ne_true

/-- For a response it cannot read, `complete` raises that it is in doubt. -/
theorem complete_malformed {parse : Completion → Except Exn ChatResponse} {response : Completion} {e : Exn}
    (hparse : parse response = .error e) (h : e.isMalformed = true) :
    ∃ m, dialect.complete parse (.ok response) = .error (.upstreamAmbiguous m) := by
  refine ⟨s!"{dialect.provider.value} returned a malformed response: {e.str}", ?_⟩
  simp only [complete, hparse, if_pos h]

variable {parse : Completion → Except Exn ChatResponse} {request : ChatRequest}

/-- An exception of the SDK is classified after any chunks. -/
theorem sdk_classified {chunks : List Chunk} (readable : ∀ chunk ∈ chunks, dialect.Readable chunk) (e : SdkError) :
    Classified (dialect.complete parse) ⟨chunks, readable, .sdk e⟩
      (dialect.stream request (.after chunks (.raise (.sdk e)))) := by
  obtain ⟨contents, p, hcontents, hin, hout, hrun⟩ := run_after readable (.start request)
  have hcontents : p.contentParts = contents := hcontents
  refine ⟨contents, dialect.streamFailure p e, hrun _, ?_⟩
  by_cases hempty : contents = []
  · have hclean : dialect.streamFailure p e = dialect.cleanError e := if_pos (hcontents.trans hempty)
    rw [hclean]
    exact {
      upstream := cleanError_upstream e
      interrupted := fun h => absurd hempty h
      clean := fun _ => ⟨_, rfl, cleanError_sameClass e⟩
    }
  · have hinterrupted : dialect.streamFailure p e =
        .upstreamStreamInterrupted s!"{dialect.provider.value} stream broke after partial output: {e.str}"
          (some (p.response dialect.provider "error")) := if_neg fun h => hempty (hcontents.symm.trans h)
    rw [hinterrupted]
    have hreported : Failing.reported ⟨chunks, readable, .sdk e⟩ = (p.tokensIn, p.tokensOut) := by
      rw [hin, hout, Failing.reported, reported, Source.items_after, Source.items, List.append_nil]
      rfl
    exact {
      upstream := rfl
      interrupted := fun _ => ⟨_, _, rfl, congrArg String.join hcontents, hreported.symm⟩
      clean := fun h => absurd h hempty
    }

/-- What a chunk raises that cannot be read, the stream raises. -/
theorem unreadable_raised {f : dialect.Failing} {chunk : Chunk} {h : dialect.Unreadable chunk} {rest : Source SdkExn Chunk}
    (hf : f.failure = .unreadable chunk h rest) :
    ∃ e : Exn, e.isMalformed = true ∧ (dialect.stream request f.source).failure = some e := by
  obtain ⟨contents, p, _, _, _, hrun⟩ := run_after f.readable (.start request)
  have hstream : dialect.stream request f.source = given contents (dialect.run p (.item chunk rest)) := by
    rw [stream, Failing.source, hf]
    exact hrun _
  rw [hstream, failure_given]
  obtain ⟨e, hmalformed, hread | ⟨delta, hread⟩⟩ := h p
  · refine ⟨e, hmalformed, ?_⟩
    rw [run, hread]
    rfl
  · refine ⟨e, hmalformed, ?_⟩
    rw [run, hread]
    cases delta <;> rfl

/-- A failure is classified exactly when it is the SDK's. -/
theorem classified_exactly (f : dialect.Failing) :
    Classified (dialect.complete parse) f (dialect.stream request f.source) ↔ f.failure.isSdk = true := by
  constructor
  · rintro ⟨contents, e, hout, hfits⟩
    cases hf : f.failure with
    | sdk e => rfl
    | unreadable chunk h rest =>
      obtain ⟨e', hmalformed, hfailure⟩ := unreadable_raised hf
      rw [hout, failure_given] at hfailure
      cases hfailure
      have hnot : e.isUpstreamError = false := not_upstream_of_malformed hmalformed
      exact absurd hfits.upstream (by rw [hnot]; exact Bool.false_ne_true)
  · intro h
    obtain ⟨chunks, readable, failure⟩ := f
    cases failure with
    | sdk e => exact sdk_classified readable e
    | unreadable chunk _ rest => exact absurd h Bool.false_ne_true

end Dialect

namespace OpenAIAdapter

/-- A chunk with one choice. -/
def spoken (content : Except Exn (Option String)) : Chunk where
  id := .ok "chatcmpl-1"
  model := .ok "gpt-4o"
  usage := .ok none
  choices := .ok [{ content, finishReason := .ok none }]

/-- A choice whose `delta` is `None`. -/
def deltaless : Except Exn (Option String) :=
  .error (.exception "AttributeError" "'NoneType' object has no attribute 'content'")

theorem spoken_readable (content : Option String) : openai.Readable (spoken (.ok content)) :=
  fun _ => ⟨_, _, rfl⟩

theorem deltaless_unreadable : openai.Unreadable (spoken deltaless) :=
  fun _ => ⟨_, rfl, .inl rfl⟩

end OpenAIAdapter
end Relayix
