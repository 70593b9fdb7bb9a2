import Mathlib.Data.List.Forall2
import Relayix.Core.Adapters.AnthropicAdapter
import Relayix.Core.Adapters.OpenAIAdapter

/-! That a stream and a buffered call come to the same response.

A provider tells the same generation whole or in pieces. However the pieces are cut and whatever
stands between them, `stream` gives the text on piece by piece and ends in the response that
`complete` returns. -/
namespace Relayix
open Library

/-- What the provider has generated, however it is told. -/
structure Generated where
  requestId : String
  model : String
  text : String
  tokensIn : Int
  tokensOut : Int
  stopReason : Option String

/-- What one chunk tells of it. -/
structure Piece where
  identity : Option (String × String) := none
  text : String := ""
  tokensIn : Option Int := none
  tokensOut : Option Int := none
  stopReason : Option String := none

/-- The delta that is given for it. -/
def Piece.delta (self : Piece) : Option String := truthy (some self.text)

/-- Every piece told, these are the generation's: its text, its counts, and its stop reason, which
is told once at least and never with another value. -/
structure Told (g : Generated) (pieces : List Piece) : Prop where
  text : String.join (pieces.map Piece.text) = g.text
  tokensIn : (pieces.filterMap Piece.tokensIn).getLast? = some g.tokensIn
  tokensOut : (pieces.filterMap Piece.tokensOut).getLast? = some g.tokensOut
  reason : ∀ piece ∈ pieces, ∀ r, truthy piece.stopReason = some r → truthy g.stopReason = some r
  reported : ∀ r, truthy g.stopReason = some r → ∃ piece ∈ pieces, truthy piece.stopReason = some r

def Progress.take (self : Progress) (piece : Piece) : Progress where
  contentParts := self.contentParts ++ piece.delta.toList
  requestId := (piece.identity.map fun i => some i.1).getD self.requestId
  modelName := (piece.identity.map Prod.snd).getD self.modelName
  tokensIn := piece.tokensIn.getD self.tokensIn
  tokensOut := piece.tokensOut.getD self.tokensOut
  finishReasonRaw := ((truthy piece.stopReason).map some).getD self.finishReasonRaw

/-! ### The last that was told -/

theorem foldl_getD {α β : Type} (f : β → Option α) (xs : List β) (a : α) :
    xs.foldl (fun a x => (f x).getD a) a = (xs.filterMap f).getLast?.getD a := by
  induction xs generalizing a with
  | nil => rfl
  | cons x xs ih =>
    rw [List.foldl_cons, ih]
    cases h : f x with
    | none => rw [List.filterMap_cons_none h, Option.getD_none]
    | some b =>
      rw [List.filterMap_cons_some h, List.getLast?_cons, Option.getD_some, Option.getD_some]

section Foldl
variable {pieces : List Piece} {p : Progress}

/-- A field that a piece overwrites, where it tells it, is as it was told last. -/
theorem foldl_take {α : Type} (field : Progress → α) (told : Piece → Option α)
    (h : ∀ p piece, field (p.take piece) = (told piece).getD (field p)) :
    field (pieces.foldl Progress.take p) = (pieces.filterMap told).getLast?.getD (field p) := by
  rw [← foldl_getD]
  induction pieces generalizing p with
  | nil => rfl
  | cons piece pieces ih =>
    rw [List.foldl_cons, List.foldl_cons, ih, h]

theorem foldl_take_content : (pieces.foldl Progress.take p).contentParts = p.contentParts ++ pieces.filterMap Piece.delta := by
  induction pieces generalizing p with
  | nil => exact (List.append_nil _).symm
  | cons piece pieces ih =>
    rw [List.foldl_cons, ih]
    show p.contentParts ++ piece.delta.toList ++ pieces.filterMap Piece.delta = _
    rw [List.append_assoc]
    cases h : piece.delta with
    | none => rw [List.filterMap_cons_none h, Option.toList_none, List.nil_append]
    | some text => rw [List.filterMap_cons_some h, Option.toList_some, List.singleton_append]

end Foldl

theorem truthy_empty : truthy (some "") = none := by decide

theorem truthy_absent : truthy none = none := rfl

theorem truthy_some {text : Option String} {s : String} (h : truthy text = some s) : text = some s ∧ s ≠ "" := by
  obtain ⟨htext, hne⟩ := Option.filter_eq_some_iff.mp h
  exact ⟨htext, of_decide_eq_true hne⟩

theorem truthy_none {s : String} (h : truthy (some s) = none) : s = "" := by
  by_contra hne
  have hsome : truthy (some s) = some s := Option.filter_some_pos (decide_eq_true hne)
  rw [h] at hsome
  cases hsome

theorem deltas_ne {pieces : List Piece} {s : String} (h : s ∈ pieces.filterMap Piece.delta) : s ≠ "" := by
  obtain ⟨piece, _, hs⟩ := List.mem_filterMap.mp h
  exact (truthy_some hs).2

/-- What is left out is empty. -/
theorem join_deltas (pieces : List Piece) : String.join (pieces.filterMap Piece.delta) = String.join (pieces.map Piece.text) := by
  induction pieces with
  | nil => rfl
  | cons piece pieces ih =>
    rw [List.map_cons, String.join_cons, ← ih]
    cases h : piece.delta with
    | none => rw [List.filterMap_cons_none h, truthy_none h, String.empty_append]
    | some s =>
      have htext : piece.text = s := Option.some.inj (truthy_some h).1
      rw [List.filterMap_cons_some h, String.join_cons, htext]

/-- Of a list with one value throughout, the last is that value. -/
theorem getLast_of_forall {α : Type} {xs : List α} {a : α} (h : ∀ x ∈ xs, x = a) (hne : xs ≠ []) :
    xs.getLast? = some a := by
  rw [List.getLast?_eq_some_getLast hne]
  exact congrArg some (h _ (List.getLast_mem hne))

/-- The stop reason that was told last is the generation's. -/
theorem Told.reason_last {g : Generated} {pieces : List Piece} (h : Told g pieces) :
    (pieces.filterMap fun piece => (truthy piece.stopReason).map some).getLast?.getD none = truthy g.stopReason := by
  have hall : ∀ x ∈ pieces.filterMap (fun piece => (truthy piece.stopReason).map some), x = truthy g.stopReason := by
    intro x hx
    obtain ⟨piece, hpiece, hx⟩ := List.mem_filterMap.mp hx
    obtain ⟨r, hr, rfl⟩ := Option.map_eq_some_iff.mp hx
    exact (h.reason piece hpiece r hr).symm
  by_cases hne : pieces.filterMap (fun piece => (truthy piece.stopReason).map some) = []
  · rw [hne]
    cases hg : truthy g.stopReason with
    | none => rfl
    | some r =>
      obtain ⟨piece, hpiece, hr⟩ := h.reported r hg
      have hmem : some r ∈ pieces.filterMap (fun piece => (truthy piece.stopReason).map some) :=
        List.mem_filterMap.mpr ⟨piece, hpiece, by rw [hr, Option.map_some]⟩
      rw [hne] at hmem
      cases hmem
  · rw [getLast_of_forall hall hne, Option.getD_some]

namespace Dialect
variable {Chunk : Type} (self : Dialect Chunk)

/-- The chunk is read as this piece. -/
def Reads (chunk : Chunk) (piece : Piece) : Prop :=
  ∀ p, self.read p chunk = .ok (piece.delta, .ok (p.take piece))

/-- The response that a generation comes to. -/
def generated (g : Generated) : ChatResponse where
  provider := self.provider
  model := g.model
  content := g.text
  tokensIn := g.tokensIn
  tokensOut := g.tokensOut
  finishReason := self.finishReason g.stopReason
  requestId := g.requestId

variable {self}

theorem run_pieces {chunks : List Chunk} {pieces : List Piece} (h : List.Forall₂ self.Reads chunks pieces)
    (rest : Source SdkExn Chunk) (p : Progress) :
    self.run p (.after chunks rest) =
      given (pieces.filterMap Piece.delta) (self.run (pieces.foldl Progress.take p) rest) := by
  induction h generalizing p with
  | nil => rfl
  | @cons chunk piece chunks pieces hread _ ih =>
    show self.run p (.item chunk (.after chunks rest)) = _
    rw [run, hread p, List.foldl_cons]
    cases hdelta : piece.delta with
    | none =>
      rw [List.filterMap_cons_none hdelta]
      exact ih _
    | some content =>
      rw [List.filterMap_cons_some hdelta]
      exact congrArg (Source.item (.delta content)) (ih _)

/-- An empty stop reason says what none says. -/
theorem finishReason_truthy (h : self.finishReasonMap.lookup "" = none) (raw : Option String) :
    self.finishReason (truthy raw) = self.finishReason raw := by
  cases raw with
  | none => rfl
  | some r =>
    by_cases hr : r = ""
    · rw [hr]
      exact congrArg (Option.getD · "stop") h.symm
    · have htruthy : truthy (some r) = some r := by simp [truthy, hr]
      rw [htruthy]

/-- Told in pieces, a generation is its deltas and its response. -/
theorem stream_told {chunks : List Chunk} {pieces : List Piece} {g : Generated} (h : List.Forall₂ self.Reads chunks pieces)
    (hmap : self.finishReasonMap.lookup "" = none) (htold : Told g pieces)
    (hidentity : (pieces.filterMap Piece.identity).getLast? = some (g.requestId, g.model)) (request : ChatRequest) :
    self.stream request (.after chunks .stop) =
      given (pieces.filterMap Piece.delta) (.item (.response (self.generated g)) .stop) := by
  let p := pieces.foldl Progress.take (.start request)
  have hcontent : String.join p.contentParts = g.text := by
    rw [foldl_take_content]
    exact (join_deltas _).trans htold.text
  have hid : p.requestId = some g.requestId := by
    rw [foldl_take Progress.requestId (fun piece => piece.identity.map fun i => some i.1) fun _ _ => rfl,
      ← List.map_filterMap, List.getLast?_map, hidentity]
    rfl
  have hmodel : p.modelName = g.model := by
    rw [foldl_take Progress.modelName (fun piece => piece.identity.map Prod.snd) fun _ _ => rfl,
      ← List.map_filterMap, List.getLast?_map, hidentity]
    rfl
  have hin : p.tokensIn = g.tokensIn := by
    rw [foldl_take Progress.tokensIn Piece.tokensIn fun _ _ => rfl, htold.tokensIn]
    rfl
  have hout : p.tokensOut = g.tokensOut := by
    rw [foldl_take Progress.tokensOut Piece.tokensOut fun _ _ => rfl, htold.tokensOut]
    rfl
  have hreason : p.finishReasonRaw = truthy g.stopReason := by
    rw [foldl_take Progress.finishReasonRaw (fun piece => (truthy piece.stopReason).map some) fun _ _ => rfl]
    exact htold.reason_last
  have hresponse : p.response self.provider (self.finishReason p.finishReasonRaw) = self.generated g := by
    rw [hreason, finishReason_truthy hmap]
    simp only [Progress.response, hcontent, hid, hmodel, hin, hout, generated, Option.getD_some]
  rw [stream, run_pieces h, run, hresponse]

/-- A generation streamed is the generation answered whole: deltas, none of them empty, that make
up the text, and then the response that the buffered call returns. -/
structure Agree (buffered : Except Exn ChatResponse) (streamed : Source Exn ChatStreamEvent) (contents : List String)
    (r : ChatResponse) : Prop where
  streamed : streamed = given contents (.item (.response r) .stop)
  nonempty : ∀ content ∈ contents, content ≠ ""
  content : String.join contents = r.content
  buffered : buffered = .ok r

theorem agree_told {chunks : List Chunk} {pieces : List Piece} {g : Generated} {buffered : Except Exn ChatResponse}
    (h : List.Forall₂ self.Reads chunks pieces) (hmap : self.finishReasonMap.lookup "" = none) (htold : Told g pieces)
    (hidentity : (pieces.filterMap Piece.identity).getLast? = some (g.requestId, g.model)) (request : ChatRequest)
    (hbuffered : buffered = .ok (self.generated g)) :
    Agree buffered (self.stream request (.after chunks .stop)) (pieces.filterMap Piece.delta) (self.generated g) where
  streamed := stream_told h hmap htold hidentity request
  nonempty _ := deltas_ne
  content := (join_deltas pieces).trans htold.text
  buffered := hbuffered

end Dialect

namespace OpenAIAdapter

/-- A chunk as it is sent: a usage or none, and the content and finish reason of each choice. -/
structure Sent where
  usage : Option (Int × Int)
  choices : List (Option String × Option String)

namespace Sent
variable (g : Generated) (self : Sent)

def chunk : Chunk where
  id := .ok g.requestId
  model := .ok g.model
  usage := .ok (self.usage.map fun counts => ⟨.ok counts.1, .ok counts.2⟩)
  choices := .ok (self.choices.map fun choice => ⟨.ok choice.1, .ok choice.2⟩)

def piece : Piece where
  identity := some (g.requestId, g.model)
  text := (self.choices.head?.bind Prod.fst).getD ""
  tokensIn := self.usage.map Prod.fst
  tokensOut := self.usage.map Prod.snd
  stopReason := self.choices.head?.bind Prod.snd

theorem reads : openai.Reads (self.chunk g) (self.piece g) := by
  intro p
  obtain ⟨usage, choices⟩ := self
  have hcount : ∀ p, count p ((usage.map fun counts => (⟨.ok counts.1, .ok counts.2⟩ : CompletionUsage))) =
      .ok { p with tokensIn := (usage.map Prod.fst).getD p.tokensIn, tokensOut := (usage.map Prod.snd).getD p.tokensOut } := by
    intro p
    cases usage <;> rfl
  have hchoose : ∀ p, choose p (choices.map fun choice => ⟨.ok choice.1, .ok choice.2⟩) =
      .ok (truthy (some ((choices.head?.bind Prod.fst).getD "")),
        .ok ((p.add (truthy (some ((choices.head?.bind Prod.fst).getD "")))).finished (choices.head?.bind Prod.snd))) := by
    intro p
    cases choices with
    | nil => simp [choose, Progress.add, Progress.finished, truthy_empty, truthy_absent]
    | cons choice choices =>
      obtain ⟨content, reason⟩ := choice
      cases content <;> rfl
  show (count _ _).bind _ = _
  rw [hcount]
  show choose _ _ = _
  rw [hchoose]
  cases h : truthy (choices.head?.bind Prod.snd) <;> simp [Progress.add, Progress.finished, Progress.take, piece, Piece.delta, h]

end Sent

/-- Every chunk carries the id and the model, and the usage is in one of them. -/
theorem identity_last {g : Generated} {sents : List Sent} (h : Told g (sents.map (Sent.piece g))) :
    ((sents.map (Sent.piece g)).filterMap Piece.identity).getLast? = some (g.requestId, g.model) := by
  refine getLast_of_forall (fun x hx => ?_) fun hnil => ?_
  · obtain ⟨piece, hpiece, hx⟩ := List.mem_filterMap.mp hx
    obtain ⟨sent, _, rfl⟩ := List.mem_map.mp hpiece
    exact (Option.some.inj hx).symm
  · have hin := h.tokensIn
    cases sents with
    | nil => cases hin
    | cons sent sents => cases hnil

/-- The completion of a generation, its text absent where it is empty, with other choices behind the first. -/
def completion (g : Generated) (content : Option String) (others : List Choice) : ChatCompletion where
  id := .ok g.requestId
  model := .ok g.model
  usage := .ok (some ⟨.ok g.tokensIn, .ok g.tokensOut⟩)
  choices := .ok (⟨.ok content, .ok g.stopReason⟩ :: others)

theorem complete_completion {g : Generated} {content : Option String} (h : content.getD "" = g.text)
    (others : List Choice) : complete (.ok (completion g content others)) = .ok (openai.generated g) := by
  rw [Dialect.generated, ← h]
  rfl

end OpenAIAdapter

namespace AnthropicAdapter

/-- An event as it is sent behind `message_start`. -/
inductive Sent where
  | textDelta (text : String)
  | otherDelta
  | messageDelta (outputTokens : Int) (stopReason : Option String)
  | other

def Sent.event : Sent → StreamEvent
  | .textDelta text => .contentBlockDelta (.ok (.textDelta (.ok text)))
  | .otherDelta => .contentBlockDelta (.ok (.other (.ok ())))
  | .messageDelta outputTokens stopReason => .messageDelta (.ok outputTokens) (.ok stopReason)
  | .other => .other (.ok ())

def Sent.piece : Sent → Piece
  | .textDelta text => { text }
  | .messageDelta outputTokens stopReason => { tokensOut := some outputTokens, stopReason }
  | .otherDelta | .other => {}

theorem Sent.reads (sent : Sent) : anthropic.Reads sent.event sent.piece := by
  intro p
  cases sent with
  | textDelta text => rfl
  | otherDelta => rfl
  | messageDelta outputTokens stopReason =>
    have hfinished : ({ p with tokensOut := outputTokens }.finished stopReason : Progress) =
        p.take (piece (.messageDelta outputTokens stopReason)) := by
      cases h : truthy stopReason <;> simp [Progress.finished, Progress.take, piece, Piece.delta, truthy_empty, h]
    exact congrArg (fun p => Except.ok (none, Except.ok p)) hfinished
  | other =>
    have hsame : p = p.take {} := by simp [Progress.take, Piece.delta, truthy_empty, truthy_absent]
    exact congrArg (fun p => Except.ok (none, Except.ok p)) hsame

def started (g : Generated) : StreamEvent := .messageStart (.ok g.requestId) (.ok g.model) (.ok g.tokensIn)

def startedPiece (g : Generated) : Piece := { identity := some (g.requestId, g.model), tokensIn := some g.tokensIn }

theorem started_reads (g : Generated) : anthropic.Reads (started g) (startedPiece g) := by
  intro p
  have hstarted : { p with requestId := some g.requestId, modelName := g.model, tokensIn := g.tokensIn } =
      p.take (startedPiece g) := by
    simp [Progress.take, startedPiece, Piece.delta, truthy_empty, truthy_absent]
  exact congrArg (fun p => Except.ok (none, Except.ok p)) hstarted

/-- Only `message_start` carries the id and the model. -/
theorem identity_last (g : Generated) (sents : List Sent) :
    ((startedPiece g :: sents.map Sent.piece).filterMap Piece.identity).getLast? = some (g.requestId, g.model) := by
  have hnone : (sents.map Sent.piece).filterMap Piece.identity = [] := by
    refine List.filterMap_eq_nil_iff.mpr fun piece hpiece => ?_
    obtain ⟨sent, _, rfl⟩ := List.mem_map.mp hpiece
    cases sent <;> rfl
  show (((_, _) :: (sents.map Sent.piece).filterMap Piece.identity).getLast?) = _
  rw [hnone]
  rfl

/-- The message of a generation: its text in any number of blocks, with blocks of other types among them. -/
def message (g : Generated) (blocks : List (Option String)) : Message where
  id := .ok g.requestId
  model := .ok g.model
  inputTokens := .ok g.tokensIn
  outputTokens := .ok g.tokensOut
  stopReason := .ok g.stopReason
  content := .ok (blocks.map fun
    | some text => .textBlock (.ok text)
    | none => .other (.ok ()))

theorem texts_blocks (blocks : List (Option String)) :
    texts (blocks.map fun
      | some text => .textBlock (.ok text)
      | none => .other (.ok ())) = .ok blocks.reduceOption := by
  induction blocks with
  | nil => rfl
  | cons block blocks ih =>
    cases block with
    | none => exact ih
    | some text =>
      show (texts _).bind _ = _
      rw [ih]
      rfl

theorem complete_message {g : Generated} {blocks : List (Option String)} (h : String.join blocks.reduceOption = g.text) :
    complete (.ok (message g blocks)) = .ok (anthropic.generated g) := by
  have hparse : parse (message g blocks) = .ok (anthropic.generated g) := by
    show (texts _).bind _ = _
    rw [texts_blocks, Dialect.generated, ← h]
    rfl
  simp only [complete, Dialect.complete, hparse]

end AnthropicAdapter

/-- Either adapter comes to the same response whether a generation is told whole or in pieces. -/
theorem stream_agrees_complete (request : ChatRequest) (g : Generated) :
    (∀ (sents : List OpenAIAdapter.Sent) (content : Option String) (others : List OpenAIAdapter.Choice),
      Told g (sents.map (OpenAIAdapter.Sent.piece g)) → content.getD "" = g.text →
      ∃ contents r, Dialect.Agree (OpenAIAdapter.complete (.ok (OpenAIAdapter.completion g content others)))
        (OpenAIAdapter.openai.stream request (.after (sents.map (OpenAIAdapter.Sent.chunk g)) .stop)) contents r) ∧
    (∀ (sents : List AnthropicAdapter.Sent) (blocks : List (Option String)),
      Told g (AnthropicAdapter.startedPiece g :: sents.map AnthropicAdapter.Sent.piece) → String.join blocks.reduceOption = g.text →
      ∃ contents r, Dialect.Agree (AnthropicAdapter.complete (.ok (AnthropicAdapter.message g blocks)))
        (AnthropicAdapter.anthropic.stream request
          (.after (AnthropicAdapter.started g :: sents.map AnthropicAdapter.Sent.event) .stop)) contents r) := by
  constructor
  · intro sents content others htold hcontent
    have hreads : List.Forall₂ OpenAIAdapter.openai.Reads (sents.map (OpenAIAdapter.Sent.chunk g))
        (sents.map (OpenAIAdapter.Sent.piece g)) := by
      rw [List.forall₂_map_left_iff, List.forall₂_map_right_iff, List.forall₂_same]
      exact fun sent _ => OpenAIAdapter.Sent.reads g sent
    exact ⟨_, _, Dialect.agree_told hreads rfl htold (OpenAIAdapter.identity_last htold) request
      (OpenAIAdapter.complete_completion hcontent others)⟩
  · intro sents blocks htold hblocks
    have hreads : List.Forall₂ AnthropicAdapter.anthropic.Reads
        (AnthropicAdapter.started g :: sents.map AnthropicAdapter.Sent.event)
        (AnthropicAdapter.startedPiece g :: sents.map AnthropicAdapter.Sent.piece) := by
      refine .cons (AnthropicAdapter.started_reads g) ?_
      rw [List.forall₂_map_left_iff, List.forall₂_map_right_iff, List.forall₂_same]
      exact fun sent _ => AnthropicAdapter.Sent.reads sent
    exact ⟨_, _, Dialect.agree_told hreads rfl htold (AnthropicAdapter.identity_last g sents) request
      (AnthropicAdapter.complete_message hblocks)⟩

/-- A greeting, its text cut in two, told by either provider. -/
def greeting : Generated where
  requestId := "gen-1"
  model := "m"
  text := "Hello"
  tokensIn := 9
  tokensOut := 2
  stopReason := some "stop"

theorem greeting_agrees :
    (∃ contents r, Dialect.Agree (OpenAIAdapter.complete (.ok (OpenAIAdapter.completion greeting (some "Hello") [])))
      (OpenAIAdapter.openai.stream { model := "m", messages := [] } (.after
        (([⟨none, [(some "", none)]⟩, ⟨none, [(some "Hel", none)]⟩, ⟨none, [(some "lo", none)]⟩,
          ⟨none, [(none, some "stop")]⟩, ⟨some (9, 2), []⟩] : List OpenAIAdapter.Sent).map
          (OpenAIAdapter.Sent.chunk greeting)) .stop)) contents r) ∧
    (∃ contents r, Dialect.Agree (AnthropicAdapter.complete (.ok (AnthropicAdapter.message greeting [some "Hello"])))
      (AnthropicAdapter.anthropic.stream { model := "m", messages := [] } (.after (AnthropicAdapter.started greeting ::
        ([.other, .textDelta "Hel", .otherDelta, .textDelta "lo", .messageDelta 2 (some "stop"), .other] :
          List AnthropicAdapter.Sent).map AnthropicAdapter.Sent.event) .stop)) contents r) := by
  refine ⟨(stream_agrees_complete _ greeting).1 _ (some "Hello") [] ?_ rfl,
    (stream_agrees_complete _ greeting).2 _ [some "Hello"] ?_ rfl⟩
  · exact {
      text := by decide
      tokensIn := rfl
      tokensOut := rfl
      reason := by simp [OpenAIAdapter.Sent.piece, truthy_absent, greeting]
      reported := fun r h => ⟨_, List.mem_of_getElem? (show _[3]? = some _ from rfl), h⟩
    }
  · exact {
      text := by decide
      tokensIn := rfl
      tokensOut := rfl
      reason := by simp [AnthropicAdapter.Sent.piece, AnthropicAdapter.startedPiece, truthy_absent, greeting]
      reported := fun r h => ⟨_, List.mem_of_getElem? (show _[5]? = some _ from rfl), h⟩
    }

end Relayix
