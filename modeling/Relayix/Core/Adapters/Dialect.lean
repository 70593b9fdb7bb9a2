import Relayix.Core.Exceptions

/-! What the provider adapters have in common (`core/adapters/`).

`stream` is written twice, once for each SDK, around one loop: a chunk is read into the progress
of the request, which gives a delta or not, until the SDK's stream ends or raises. A `Dialect` is
what the two do not share, and holds what is true of how either reads a chunk. -/
namespace Relayix
open Library

/-- An error of the SDK, by the clause that catches it, with its `str`. -/
inductive SdkError where
  | apiTimeout (message : String)
  | apiConnection (message : String)
  | apiStatus (statusCode : Int) (message : String)
  /-- any other `OpenAIError` or `AnthropicError` -/
  | other (message : String)
  deriving DecidableEq

def SdkError.str : SdkError → String
  | .apiTimeout m | .apiConnection m | .apiStatus _ m | .other m => m

/-- What is raised where the SDK is awaited: an error of its own, or what no clause names. A stall
is of the second kind, and is given as the `TimeoutError` that its cancellation becomes outside. -/
inductive SdkExn where
  | sdk (e : SdkError)
  | raw (e : Exn)
  deriving DecidableEq

/-- The local variables of `stream`. -/
structure Progress where
  contentParts : List String := []
  requestId : Option String := none
  modelName : String
  tokensIn : Int := 0
  tokensOut : Int := 0
  finishReasonRaw : Option String := none

def Progress.start (request : ChatRequest) : Progress := { modelName := request.model }

/-- `if text:` -/
def truthy (text : Option String) : Option String := text.filter (· ≠ "")

/-- The delta of a chunk is kept before it is yielded. -/
def Progress.add (self : Progress) (delta : Option String) : Progress :=
  { self with contentParts := self.contentParts ++ delta.toList }

/-- The last reason that says something is kept. -/
def Progress.finished (self : Progress) (raw : Option String) : Progress :=
  { self with finishReasonRaw := (truthy raw).or self.finishReasonRaw }

def Progress.response (self : Progress) (provider : ProviderEnum) (finishReason : String) : ChatResponse where
  provider := provider
  model := self.modelName
  content := String.join self.contentParts
  tokensIn := self.tokensIn
  tokensOut := self.tokensOut
  finishReason := finishReason
  requestId := self.requestId.getD ""

/-- How an adapter reads the chunks of its SDK. Reading can raise before the delta of a chunk is
yielded, or after it. -/
structure Dialect (Chunk : Type) where
  provider : ProviderEnum
  finishReasonMap : List (String × String)
  read : Progress → Chunk → Except Exn (Option String × Except Exn Progress)
  /-- the input and output tokens that a chunk reports -/
  reports : Chunk → Option Int × Option Int
  read_content {p p' : Progress} {chunk : Chunk} {delta : Option String} :
    read p chunk = .ok (delta, .ok p') → p'.contentParts = p.contentParts ++ delta.toList
  read_tokens {p p' : Progress} {chunk : Chunk} {delta : Option String} :
    read p chunk = .ok (delta, .ok p') →
      p'.tokensIn = (reports chunk).1.getD p.tokensIn ∧ p'.tokensOut = (reports chunk).2.getD p.tokensOut

namespace Dialect
variable {Chunk : Type} (self : Dialect Chunk)

/-- `_FINISH_REASON_MAP.get(raw, "stop")` -/
def finishReason (raw : Option String) : String :=
  (raw.bind fun raw => self.finishReasonMap.lookup raw).getD "stop"

/-- The classification of a failure before anything was yielded. -/
def cleanError : SdkError → Exn
  | .apiTimeout m => .upstreamAmbiguous s!"{self.provider.value} timed out: {m}"
  | .apiConnection m => .upstreamUnavailable s!"{self.provider.value} connection failed: {m}"
  | .apiStatus code m =>
    if code ≥ 500 then .upstreamAmbiguous s!"{self.provider.value} server error {code}: {m}"
    else .upstreamUnavailable s!"{self.provider.value} rejected request {code}: {m}"
  | .other m => .upstreamAmbiguous s!"{self.provider.value} request failed: {m}"

/-- `_raise_stream_failure` -/
def streamFailure (p : Progress) (e : SdkError) : Exn :=
  if p.contentParts = [] then self.cleanError e
  else .upstreamStreamInterrupted s!"{self.provider.value} stream broke after partial output: {e.str}"
    (some (p.response self.provider "error"))

/-- `stream` from here on. -/
def run (p : Progress) : Source SdkExn Chunk → Source Exn ChatStreamEvent
  | .item chunk rest =>
    match self.read p chunk with
    | .error e => .raise e
    | .ok (some content, .ok p) => .item (.delta content) (run p rest)
    | .ok (some content, .error e) => .item (.delta content) (.raise e)
    | .ok (none, .ok p) => run p rest
    | .ok (none, .error e) => .raise e
  | .raise (.sdk e) => .raise (self.streamFailure p e)
  | .raise (.raw e) => .raise e
  | .stop => .item (.response (p.response self.provider (self.finishReason p.finishReasonRaw))) .stop

/-- `complete`, given what the SDK answered and how the adapter reads a response: a 200 that
cannot be read has been executed and billed. -/
def complete {Completion : Type} (parse : Completion → Except Exn ChatResponse) :
    Except SdkExn Completion → Except Exn ChatResponse
  | .error (.sdk e) => .error (self.cleanError e)
  | .error (.raw e) => .error e
  | .ok response =>
    match parse response with
    | .ok r => .ok r
    | .error e =>
      .error (if e.isMalformed then .upstreamAmbiguous s!"{self.provider.value} returned a malformed response: {e.str}" else e)

def stream (request : ChatRequest) (source : Source SdkExn Chunk) : Source Exn ChatStreamEvent :=
  self.run (.start request) source

/-! ### Readable streams -/

/-- A chunk that can be read, whatever came before it. -/
def Readable (chunk : Chunk) : Prop := ∀ p, ∃ delta p', self.read p chunk = .ok (delta, .ok p')

/-- A chunk with a field that raises where it is read, before the delta of the chunk or after it. -/
def Unreadable (chunk : Chunk) : Prop :=
  ∀ p, ∃ e : Exn, e.isMalformed = true ∧
    (self.read p chunk = .error e ∨ ∃ delta, self.read p chunk = .ok (delta, .error e))

/-- The variables when the chunks have been read. -/
def progress (p : Progress) : Source SdkExn Chunk → Progress
  | .item chunk rest =>
    match self.read p chunk with
    | .ok (_, .ok p) => progress p rest
    | _ => p
  | .raise _ | .stop => p

/-- The last count that was reported, and 0 before there was one. -/
def reported (source : Source SdkExn Chunk) : Int × Int :=
  ((source.items.filterMap fun chunk => (self.reports chunk).1).getLast?.getD 0,
    (source.items.filterMap fun chunk => (self.reports chunk).2).getLast?.getD 0)

/-- How a stream ends that was read to its end. -/
def last (p : Progress) : Option SdkExn → Source Exn ChatStreamEvent
  | none => .item (.response (p.response self.provider (self.finishReason p.finishReasonRaw))) .stop
  | some (.sdk e) => .raise (self.streamFailure p e)
  | some (.raw e) => .raise e

/-- Deltas in front of a stream. -/
def given (contents : List String) (rest : Source Exn ChatStreamEvent) : Source Exn ChatStreamEvent :=
  contents.foldr (fun content rest => .item (.delta content) rest) rest

section Readable
variable {self} {p : Progress} {source : Source SdkExn Chunk}

theorem getLast_filterMap_cons {f : Chunk → Option Int} (chunk : Chunk) (rest : List Chunk) (n : Int) :
    ((chunk :: rest).filterMap f).getLast?.getD n = (rest.filterMap f).getLast?.getD ((f chunk).getD n) := by
  cases h : f chunk with
  | none =>
    rw [List.filterMap_cons_none h]
    rfl
  | some m =>
    rw [List.filterMap_cons_some h, List.getLast?_cons]
    cases (rest.filterMap f).getLast? <;> rfl

/-- Read to its end, a stream has left the last counts that it reported. -/
theorem progress_tokens (h : ∀ chunk ∈ source.items, self.Readable chunk) :
    (self.progress p source).tokensIn =
        (source.items.filterMap fun chunk => (self.reports chunk).1).getLast?.getD p.tokensIn ∧
      (self.progress p source).tokensOut =
        (source.items.filterMap fun chunk => (self.reports chunk).2).getLast?.getD p.tokensOut := by
  induction source generalizing p with
  | raise e => exact ⟨rfl, rfl⟩
  | stop => exact ⟨rfl, rfl⟩
  | item chunk rest ih =>
    obtain ⟨hchunk, hrest⟩ := List.forall_mem_cons.mp h
    obtain ⟨delta, p', hread⟩ := hchunk p
    obtain ⟨hin, hout⟩ := self.read_tokens hread
    obtain ⟨ihin, ihout⟩ := ih (p := p') hrest
    have hnext : self.progress p (.item chunk rest) = self.progress p' rest := by
      rw [progress, hread]
    rw [hnext, ihin, ihout, hin, hout]
    exact ⟨(getLast_filterMap_cons ..).symm, (getLast_filterMap_cons ..).symm⟩

/-- Read to its end, a stream is its deltas, which the progress has collected, and its last turn. -/
theorem run_eq (h : ∀ chunk ∈ source.items, self.Readable chunk) :
    ∃ contents, (self.progress p source).contentParts = p.contentParts ++ contents ∧
      self.run p source = given contents (self.last (self.progress p source) source.failure) := by
  induction source generalizing p with
  | raise e =>
    refine ⟨[], (List.append_nil _).symm, ?_⟩
    cases e <;> rfl
  | stop => exact ⟨[], (List.append_nil _).symm, rfl⟩
  | item chunk rest ih =>
    obtain ⟨hchunk, hrest⟩ := List.forall_mem_cons.mp h
    obtain ⟨delta, p', hread⟩ := hchunk p
    obtain ⟨contents, hcontents, hrun⟩ := ih (p := p') hrest
    have hnext : self.progress p (.item chunk rest) = self.progress p' rest := by
      rw [progress, hread]
    refine ⟨delta.toList ++ contents, ?_, ?_⟩
    · rw [hnext, hcontents, self.read_content hread, List.append_assoc]
    · rw [hnext, run, hread]
      cases delta with
      | none => exact hrun
      | some content => exact congrArg (Source.item (.delta content)) hrun

end Readable
end Dialect
end Relayix
