import Relayix.Api.V1.ChatStream
import Relayix.Library.EventStream
import Relayix.Library.JsonReader

/-! The text of a streamed body.

`_encode_sse` writes a frame as two lines and a blank one. The data of a delta is what `json.dumps`
makes of a dict, and that of the response what pydantic makes of its schema, `modelDumpJson`, of which
only is used that it writes JSON on one line; the dict of an error may hold a float, so what
`json.dumps` makes of it is `dumpError`. A client reads as `_parse_sse` of the tests does. -/
namespace Relayix
open Library

namespace ChatResponseSchema

/-- The fields that pydantic writes. -/
def json (self : ChatResponseSchema) : Json :=
  .obj [("provider", .str self.provider.value), ("model", .str self.model), ("content", .str self.content),
    ("tokens_in", .int self.tokensIn), ("tokens_out", .int self.tokensOut), ("finish_reason", .str self.finishReason),
    ("request_id", .str self.requestId)]

/-- The response that a client reads off them. -/
def responseOf (body : Json) : Option ChatResponse := do
  let provider ← ProviderEnum.ofValue? (← (← body.field? "provider").str?)
  let model ← (← body.field? "model").str?
  let content ← (← body.field? "content").str?
  let tokensIn ← (← body.field? "tokens_in").int?
  let tokensOut ← (← body.field? "tokens_out").int?
  let finishReason ← (← body.field? "finish_reason").str?
  let requestId ← (← body.field? "request_id").str?
  some { provider, model, content, tokensIn, tokensOut, finishReason, requestId }

theorem responseOf_json (response : ChatResponse) : responseOf (fromDomain response).json = some response := by
  obtain ⟨provider, model, content, tokensIn, tokensOut, finishReason, requestId⟩ := response
  cases provider <;> rfl

end ChatResponseSchema

namespace Frame

def event : Frame → String
  | .delta _ => "delta"
  | .done _ => "done"
  | .error _ => "error"

section Text
variable (modelDumpJson : ChatResponseSchema → String) (dumpError : ErrorBody → String)

def data : Frame → String
  | .delta content => String.ofList (Json.obj [("content", .str content)]).spaced
  | .done body => modelDumpJson body
  | .error body => dumpError body

/-- What is yielded for a frame. -/
def text (f : Frame) : String := "event: " ++ f.event ++ "\ndata: " ++ f.data modelDumpJson dumpError ++ "\n\n"

theorem toList_text (f : Frame) :
    (f.text modelDumpJson dumpError).toList = EventStream.frame f.event (f.data modelDumpJson dumpError) := by
  have hline : "\ndata: ".toList = '\n' :: EventStream.dataTag := rfl
  simp only [text, String.toList_append, hline, EventStream.frame, EventStream.block, List.append_assoc, List.cons_append]
  rfl

theorem event_unbroken (f : Frame) : EventStream.Unbroken f.event := by
  cases f with
  | delta _ => exact (by decide : EventStream.Unbroken "delta")
  | done _ => exact (by decide : EventStream.Unbroken "done")
  | error _ => exact (by decide : EventStream.Unbroken "error")

end Text
end Frame

namespace Chat
open EventStream (Entry Unbroken)

section Body
variable (modelDumpJson : ChatResponseSchema → String) (dumpError : ErrorBody → String)

/-- The text of a body. -/
def bodyText (frames : List Frame) : String := String.join (frames.map (Frame.text modelDumpJson dumpError))

end Body

/-- `_parse_sse` -/
def parseSse (text : String) : Option (List (Entry Json)) := EventStream.parse Json.loads text.toList

/-- The event that an entry tells of. -/
def eventOf (entry : Entry Json) : Option ChatStreamEvent := do
  let data ← entry.data
  match entry.event with
  | some "delta" => (← data.field? "content").str?.map .delta
  | some "done" => (ChatResponseSchema.responseOf data).map .response
  | _ => none

/-- The events that a client reads off a body, one for each entry. -/
def readSse (text : String) : Option (List ChatStreamEvent) := do
  (← parseSse text).mapM eventOf

section Reader
variable {modelDumpJson : ChatResponseSchema → String} {dumpError : ErrorBody → String}

theorem toList_bodyText (frames : List Frame) : (bodyText modelDumpJson dumpError frames).toList =
    EventStream.stream (frames.map fun f => (f.event, f.data modelDumpJson dumpError)) := by
  induction frames with
  | nil => rfl
  | cons f frames ih =>
    rw [bodyText, List.map_cons, String.join_cons, String.toList_append, Frame.toList_text, ← bodyText, ih]
    rfl

/-- The JSON value that an event is told by. -/
def jsonOf : ChatStreamEvent → Json
  | .delta content => .obj [("content", .str content)]
  | .response r => (ChatResponseSchema.fromDomain r).json

theorem unbroken_of_writes {x : Json} {s : String} (h : Json.Writes x s.toList) : Unbroken s :=
  fun hmem => absurd (h.oneLine '\n' hmem) (by decide)

/-- The data of an event is JSON on one line. -/
theorem data_writes (hdump : ∀ body, Json.Writes body.json (modelDumpJson body).toList) (event : ChatStreamEvent) :
    Json.Writes (jsonOf event) ((frame event).data modelDumpJson dumpError).toList := by
  cases event with
  | delta content =>
    rw [show (frame (.delta content)).data modelDumpJson dumpError = String.ofList (jsonOf (.delta content)).spaced from rfl,
      String.toList_ofList]
    exact Json.spaced_writes _
  | response r => exact hdump (.fromDomain r)

theorem eventOf_frame (event : ChatStreamEvent) : eventOf ⟨some (frame event).event, some (jsonOf event)⟩ = some event := by
  cases event with
  | delta content => rfl
  | response r =>
    show (ChatResponseSchema.responseOf (ChatResponseSchema.fromDomain r).json).map ChatStreamEvent.response = _
    rw [ChatResponseSchema.responseOf_json]
    rfl

theorem mapM_eventOf (events : List ChatStreamEvent) :
    (events.map fun event => ⟨some (frame event).event, some (jsonOf event)⟩).mapM eventOf = some events := by
  induction events with
  | nil => rfl
  | cons event events ih =>
    rw [List.map_cons, List.mapM_cons, eventOf_frame, ih]
    rfl

/-- The events are read off the text of their frames. -/
theorem readSse_frames (hdump : ∀ body, Json.Writes body.json (modelDumpJson body).toList) (events : List ChatStreamEvent) :
    readSse (bodyText modelDumpJson dumpError (events.map frame)) = some events := by
  have hparse : parseSse (bodyText modelDumpJson dumpError (events.map frame)) =
      some (events.map fun event => ⟨some (frame event).event, some (jsonOf event)⟩) := by
    rw [parseSse, toList_bodyText, List.map_map]
    refine EventStream.parse_stream (fun event _ => ?_) fun event _ => ?_
    · exact ⟨(frame event).event_unbroken, unbroken_of_writes (data_writes hdump event)⟩
    · rw [← String.ofList_toList (s := (frame event).data modelDumpJson dumpError)]
      exact Json.loads_writes (data_writes hdump event)
  rw [readSse, hparse]
  exact mapM_eventOf events

end Reader

/-! ### The encoder's text -/

section Encoder
variable {I : Interface} {modelDumpJson : ChatResponseSchema → String} {dumpError : ErrorBody → String}

/-- On every run in which its items are taken, the generator gives these events and returns. -/
def Gives (g : Gen I Exn ChatStreamEvent Unit) (events : List ChatStreamEvent) : Prop :=
  ∀ s o, Ends g s o → (∀ x ∈ rights s, x.answer = .ok ()) → o = .ok () ∧ given s = events

theorem gives_replay (events : List ChatStreamEvent) :
    Gives (Gen.replay (.after events .stop) : Gen I Exn ChatStreamEvent Unit) events := by
  intro s o h htaken
  induction events generalizing s with
  | nil =>
    obtain ⟨rfl, rfl⟩ := ends_ret.mp h
    exact ⟨rfl, rfl⟩
  | cons event events ih =>
    obtain ⟨a, rest, rfl, hr⟩ := ends_await.mp h
    obtain ⟨ha, hrest⟩ := List.forall_mem_cons.mp htaken
    obtain rfl : a = .ok () := ha
    obtain ⟨ho, hgiven⟩ := ih rest hr hrest
    exact ⟨ho, congrArg (event :: ·) hgiven⟩

/-- **Framing loses nothing.** The body of every stream of deltas and a response is read to its end,
and its text is read back as these events, one for each block. -/
theorem encodeSse_lossless (hdump : ∀ body, Json.Writes body.json (modelDumpJson body).toList)
    {g : Gen I Exn ChatStreamEvent Unit} {contents : List String} {response : ChatResponse}
    (hg : Gives g (contents.map .delta ++ [.response response])) :
    (∃ b o, Ends (encodeSse g) b o ∧ ∀ x ∈ rights b, x.answer = .ok ()) ∧
    ∀ b o, Ends (encodeSse g) b o → (∀ x ∈ rights b, x.answer = .ok ()) → o = .ok () ∧
      readSse (bodyText modelDumpJson dumpError (frames b)) = some (contents.map .delta ++ [.response response]) := by
  refine ⟨exists_taken _ .cancelledError, fun b o' h htaken => ?_⟩
  obtain ⟨s, o, hs, hall, _, hend⟩ := encodeSse_ends h htaken
  obtain ⟨rfl, hgiven⟩ := hg s o hs hall
  generalize frames b = fs at hend ⊢
  cases hend with
  | returned =>
    refine ⟨rfl, ?_⟩
    rw [hgiven]
    exact readSse_frames hdump _

end Encoder

/-! ### On one stream -/

def trialContents : List String := ["two\n\nblocks", "\r\nevent: done\ndata: \x7b\x7d\n\n"]

def trialDumpJson (body : ChatResponseSchema) : String := String.ofList body.json.text

def trialDumpError (body : ErrorBody) : String :=
  String.ofList (Json.obj [("error_code", .str body.errorCode), ("message", .str body.message)]).spaced

def trialStream : Gen .silent Exn ChatStreamEvent Unit :=
  Gen.replay (.after (trialContents.map .delta ++ [.response GatewayService.trialAnswer]) .stop)

/-- Contents that look like frames stay contents. -/
theorem encodeSse_lossless_trial : ∃ b o, Ends (encodeSse trialStream) b o ∧ o = .ok () ∧
    readSse (bodyText trialDumpJson trialDumpError (frames b)) =
      some (trialContents.map .delta ++ [.response GatewayService.trialAnswer]) := by
  have hdump : ∀ body, Json.Writes body.json (trialDumpJson body).toList := by
    intro body
    rw [trialDumpJson, String.toList_ofList]
    exact Json.text_writes body.json
  obtain ⟨⟨b, o, hends, htaken⟩, hread⟩ := encodeSse_lossless hdump (gives_replay _)
  exact ⟨b, o, hends, hread b o hends htaken⟩

end Chat
end Relayix
