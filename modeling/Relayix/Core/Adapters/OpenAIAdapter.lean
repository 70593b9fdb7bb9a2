import Relayix.Core.Adapters.Dialect

/-! OpenAI's chunks (`core/adapters/openai_adapter.py`).

A field is what reading it gives, since a chunk that is not shaped as expected raises where the
adapter reads it. -/
namespace Relayix
namespace OpenAIAdapter

structure CompletionUsage where
  promptTokens : Except Exn Int
  completionTokens : Except Exn Int

structure Choice where
  /-- `delta.content`, and `message.content` of a whole completion -/
  content : Except Exn (Option String)
  finishReason : Except Exn (Option String)

structure Chunk where
  id : Except Exn String
  model : Except Exn String
  usage : Except Exn (Option CompletionUsage)
  choices : Except Exn (List Choice)

/-- `_FINISH_REASON_MAP` -/
def finishReasonMap : List (String × String) :=
  [("stop", "stop"), ("length", "length"), ("tool_calls", "tool_use"), ("content_filter", "content_filter")]

/-- Usage is `None` on every chunk but one. -/
def count (p : Progress) : Option CompletionUsage → Except Exn Progress
  | none => .ok p
  | some usage => do
    let tokensIn ← usage.promptTokens
    let tokensOut ← usage.completionTokens
    .ok { p with tokensIn, tokensOut }

/-- The first choice; the trailing usage-only chunk has none. -/
def choose (p : Progress) : List Choice → Except Exn (Option String × Except Exn Progress)
  | [] => .ok (none, .ok p)
  | choice :: _ => do
    let content ← choice.content
    .ok (truthy content, choice.finishReason.map (p.add (truthy content)).finished)

def read (p : Progress) (chunk : Chunk) : Except Exn (Option String × Except Exn Progress) := do
  let requestId ← chunk.id
  let modelName ← chunk.model
  let usage ← chunk.usage
  let p ← count { p with requestId := some requestId, modelName } usage
  let choices ← chunk.choices
  choose p choices

/-- The usage of a chunk, where it can be read. -/
def reports (chunk : Chunk) : Option Int × Option Int :=
  match chunk.usage with
  | .ok (some usage) => (usage.promptTokens.toOption, usage.completionTokens.toOption)
  | _ => (none, none)

theorem count_ok {p p' : Progress} {usage : Option CompletionUsage} (h : count p usage = .ok p') :
    p'.contentParts = p.contentParts ∧
      p'.tokensIn = (usage.bind fun usage => usage.promptTokens.toOption).getD p.tokensIn ∧
      p'.tokensOut = (usage.bind fun usage => usage.completionTokens.toOption).getD p.tokensOut := by
  cases usage with
  | none =>
    cases h
    exact ⟨rfl, rfl, rfl⟩
  | some usage =>
    obtain ⟨tokensIn, hin, h⟩ := ok_of_bind h
    obtain ⟨tokensOut, hout, h⟩ := ok_of_bind h
    cases h
    rw [Option.bind_some, Option.bind_some, hin, hout]
    exact ⟨rfl, rfl, rfl⟩

theorem choose_ok {p p' : Progress} {choices : List Choice} {delta : Option String}
    (h : choose p choices = .ok (delta, .ok p')) :
    p'.contentParts = p.contentParts ++ delta.toList ∧ p'.tokensIn = p.tokensIn ∧ p'.tokensOut = p.tokensOut := by
  cases choices with
  | nil =>
    cases h
    exact ⟨(List.append_nil _).symm, rfl, rfl⟩
  | cons choice rest =>
    obtain ⟨content, _, h⟩ := ok_of_bind h
    obtain ⟨rfl, hfinished⟩ := Prod.mk.inj (Except.ok.inj h)
    cases hreason : choice.finishReason with
    | error e =>
      rw [hreason] at hfinished
      cases hfinished
    | ok reason =>
      rw [hreason] at hfinished
      cases hfinished
      exact ⟨rfl, rfl, rfl⟩

/-- What a chunk does to the content and to the counts. -/
theorem read_ok {p p' : Progress} {chunk : Chunk} {delta : Option String} (h : read p chunk = .ok (delta, .ok p')) :
    p'.contentParts = p.contentParts ++ delta.toList ∧ p'.tokensIn = (reports chunk).1.getD p.tokensIn ∧
      p'.tokensOut = (reports chunk).2.getD p.tokensOut := by
  obtain ⟨requestId, _, h⟩ := ok_of_bind h
  obtain ⟨modelName, _, h⟩ := ok_of_bind h
  obtain ⟨usage, husage, h⟩ := ok_of_bind h
  obtain ⟨p₁, hcount, h⟩ := ok_of_bind h
  obtain ⟨choices, _, h⟩ := ok_of_bind h
  obtain ⟨hcontent, hin, hout⟩ := choose_ok h
  obtain ⟨hcontent₁, hin₁, hout₁⟩ := count_ok hcount
  have hreports : reports chunk = (usage.bind fun usage => usage.promptTokens.toOption,
      usage.bind fun usage => usage.completionTokens.toOption) := by
    unfold reports
    rw [husage]
    cases usage <;> rfl
  rw [hreports]
  exact ⟨hcontent.trans (congrArg (· ++ delta.toList) hcontent₁), hin.trans hin₁, hout.trans hout₁⟩

def openai : Dialect Chunk where
  provider := .openai
  finishReasonMap := finishReasonMap
  read := read
  reports := reports
  read_content h := (read_ok h).1
  read_tokens h := (read_ok h).2

/-! ### Whole completions -/

structure ChatCompletion where
  id : Except Exn String
  model : Except Exn String
  usage : Except Exn (Option CompletionUsage)
  choices : Except Exn (List Choice)

/-- `response.choices[0]` -/
def first : List Choice → Except Exn Choice
  | [] => .error (.exception "IndexError" "list index out of range")
  | choice :: _ => .ok choice

/-- An attribute of `None` is asked for where there is no usage. -/
def present : Option CompletionUsage → Except Exn CompletionUsage
  | none => .error (.exception "AttributeError" "'NoneType' object has no attribute 'prompt_tokens'")
  | some usage => .ok usage

def parse (response : ChatCompletion) : Except Exn ChatResponse := do
  let choices ← response.choices
  let choice ← first choices
  let content ← choice.content
  let model ← response.model
  let usage ← response.usage
  let usage ← present usage
  let tokensIn ← usage.promptTokens
  let tokensOut ← usage.completionTokens
  let reason ← choice.finishReason
  let requestId ← response.id
  .ok {
    provider := .openai
    model := model
    content := content.getD ""
    tokensIn := tokensIn
    tokensOut := tokensOut
    finishReason := openai.finishReason reason
    requestId := requestId
  }

def complete : Except SdkExn ChatCompletion → Except Exn ChatResponse := openai.complete parse

end OpenAIAdapter
end Relayix
