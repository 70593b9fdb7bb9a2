import Relayix.Core.Adapters.Dialect

/-! Anthropic's events (`core/adapters/anthropic_adapter.py`).

A field is what reading it gives, as for OpenAI's chunks. Only the types that the adapter asks
for have their fields here. -/
namespace Relayix
namespace AnthropicAdapter

/-- The delta of a `content_block_delta`. -/
inductive BlockDelta where
  | textDelta (text : Except Exn String)
  /-- of another type, or of none that can be read -/
  | other (type : Except Exn Unit)

inductive StreamEvent where
  /-- `message_start`, with the fields of its message -/
  | messageStart (id model : Except Exn String) (inputTokens : Except Exn Int)
  | contentBlockDelta (delta : Except Exn BlockDelta)
  | messageDelta (outputTokens : Except Exn Int) (stopReason : Except Exn (Option String))
  /-- of another type, or of none that can be read -/
  | other (type : Except Exn Unit)

/-- `_FINISH_REASON_MAP` -/
def finishReasonMap : List (String × String) :=
  [("end_turn", "stop"), ("stop_sequence", "stop"), ("max_tokens", "length"), ("tool_use", "tool_use"),
    ("refusal", "content_filter")]

/-- The text of a delta, `None` where it has none. -/
def text : BlockDelta → Except Exn (Option String)
  | .textDelta text => text.map some
  | .other type => type.map fun _ => none

def read (p : Progress) : StreamEvent → Except Exn (Option String × Except Exn Progress)
  | .messageStart id model inputTokens => do
    let requestId ← id
    let modelName ← model
    let tokensIn ← inputTokens
    .ok (none, .ok { p with requestId := some requestId, modelName, tokensIn })
  | .contentBlockDelta delta => do
    let delta ← delta
    let text ← text delta
    .ok (truthy text, .ok (p.add (truthy text)))
  | .messageDelta outputTokens stopReason => do
    let tokensOut ← outputTokens
    let stopReason ← stopReason
    .ok (none, .ok ({ p with tokensOut }.finished stopReason))
  | .other type => do
    type
    .ok (none, .ok p)

/-- The counts of an event, where they can be read. -/
def reports : StreamEvent → Option Int × Option Int
  | .messageStart _ _ inputTokens => (inputTokens.toOption, none)
  | .messageDelta outputTokens _ => (none, outputTokens.toOption)
  | .contentBlockDelta _ | .other _ => (none, none)

/-- What an event does to the content and to the counts. -/
theorem read_ok {p p' : Progress} {event : StreamEvent} {delta : Option String}
    (h : read p event = .ok (delta, .ok p')) :
    p'.contentParts = p.contentParts ++ delta.toList ∧ p'.tokensIn = (reports event).1.getD p.tokensIn ∧
      p'.tokensOut = (reports event).2.getD p.tokensOut := by
  cases event with
  | messageStart id model inputTokens =>
    obtain ⟨requestId, _, h⟩ := ok_of_bind h
    obtain ⟨modelName, _, h⟩ := ok_of_bind h
    obtain ⟨tokensIn, rfl, h⟩ := ok_of_bind h
    cases h
    exact ⟨(List.append_nil _).symm, rfl, rfl⟩
  | contentBlockDelta delta' =>
    obtain ⟨_, _, h⟩ := ok_of_bind h
    obtain ⟨text, _, h⟩ := ok_of_bind h
    cases h
    exact ⟨rfl, rfl, rfl⟩
  | messageDelta outputTokens stopReason =>
    obtain ⟨tokensOut, rfl, h⟩ := ok_of_bind h
    obtain ⟨reason, _, h⟩ := ok_of_bind h
    cases h
    exact ⟨(List.append_nil _).symm, rfl, rfl⟩
  | other type =>
    obtain ⟨_, _, h⟩ := ok_of_bind h
    cases h
    exact ⟨(List.append_nil _).symm, rfl, rfl⟩

def anthropic : Dialect StreamEvent where
  provider := .anthropic
  finishReasonMap := finishReasonMap
  read := read
  reports := reports
  read_content h := (read_ok h).1
  read_tokens h := (read_ok h).2

/-! ### Whole messages -/

/-- A block of the content. -/
inductive ContentBlock where
  | textBlock (text : Except Exn String)
  /-- of another type, or of none that can be read -/
  | other (type : Except Exn Unit)

structure Message where
  id : Except Exn String
  model : Except Exn String
  /-- `usage.input_tokens` -/
  inputTokens : Except Exn Int
  /-- `usage.output_tokens` -/
  outputTokens : Except Exn Int
  stopReason : Except Exn (Option String)
  content : Except Exn (List ContentBlock)

/-- The texts of the text blocks. -/
def texts : List ContentBlock → Except Exn (List String)
  | [] => .ok []
  | .textBlock text :: rest => do
    let text ← text
    let texts ← texts rest
    .ok (text :: texts)
  | .other type :: rest => do
    type
    texts rest

def parse (response : Message) : Except Exn ChatResponse := do
  let blocks ← response.content
  let texts ← texts blocks
  let model ← response.model
  let tokensIn ← response.inputTokens
  let tokensOut ← response.outputTokens
  let reason ← response.stopReason
  let requestId ← response.id
  .ok {
    provider := .anthropic
    model := model
    content := String.join texts
    tokensIn := tokensIn
    tokensOut := tokensOut
    finishReason := anthropic.finishReason reason
    requestId := requestId
  }

def complete : Except SdkExn Message → Except Exn ChatResponse := anthropic.complete parse

end AnthropicAdapter
end Relayix
