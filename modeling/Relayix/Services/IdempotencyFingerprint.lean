import Mathlib
import Relayix.Library.Json
import Relayix.Services.Idempotency

/-! What a fingerprint tells of a request (`IdempotencyService._fingerprint`).

The hash is taken of one text, and the text tells the whole payload: no content of a message can
make one conversation read like another. -/
namespace Relayix
open Library

/-- The dict that is dumped. -/
def Payload.json (self : Payload) : Json :=
  .obj [("model", .str self.model),
    ("messages", .arr (self.messages.map fun m => .obj [("role", .str m.role), ("content", .str m.content)])),
    ("max_tokens", self.maxTokens.elim .null .int)]

def Payload.canonical (self : Payload) : String := self.json.dumps

/-- With its keys in order. -/
def Payload.sorted (self : Payload) : Json :=
  .obj [("max_tokens", self.maxTokens.elim .null .int),
    ("messages", .arr (self.messages.map fun m => .obj [("content", .str m.content), ("role", .str m.role)])),
    ("model", .str self.model)]

theorem insert_content_role (content role : Json) :
    List.insertionSort (fun a b : String × Json => a.1 ≤ b.1) [("role", role), ("content", content)] =
      [("content", content), ("role", role)] := by
  have h : ¬ "role" ≤ "content" := by decide
  simp [List.insertionSort, List.orderedInsert, h]

theorem insert_model_messages_tokens (model messages tokens : Json) :
    List.insertionSort (fun a b : String × Json => a.1 ≤ b.1)
        [("model", model), ("messages", messages), ("max_tokens", tokens)] =
      [("max_tokens", tokens), ("messages", messages), ("model", model)] := by
  have h₁ : ¬ "messages" ≤ "max_tokens" := by decide
  have h₂ : ¬ "model" ≤ "max_tokens" := by decide
  have h₃ : ¬ "model" ≤ "messages" := by decide
  simp [List.insertionSort, List.orderedInsert, h₁, h₂, h₃]

theorem sortKeys_json (p : Payload) : p.json.sortKeys = p.sorted := by
  have hmessages : Json.sortItems (p.messages.map fun m => .obj [("role", .str m.role), ("content", .str m.content)]) =
      p.messages.map fun m => .obj [("content", .str m.content), ("role", .str m.role)] := by
    rw [Json.sortItems_eq_map, List.map_map]
    refine List.map_congr_left fun m _ => ?_
    exact congrArg Json.obj (insert_content_role (.str m.content) (.str m.role))
  have htokens : (p.maxTokens.elim Json.null Json.int).sortKeys = p.maxTokens.elim .null .int := by
    cases p.maxTokens <;> rfl
  simp only [Payload.json, Json.sortKeys, Json.sortMembers, hmessages, htokens, insert_model_messages_tokens]
  rfl

theorem message_injective : Function.Injective fun m : Message =>
    Json.obj [("content", .str m.content), ("role", .str m.role)] := by
  intro m n h
  obtain ⟨role, content⟩ := m
  obtain ⟨role', content'⟩ := n
  simp only [Json.obj.injEq, List.cons.injEq, Prod.mk.injEq, Json.str.injEq, true_and, and_true] at h
  rw [h.1, h.2]

/-- A message is told by its two fields, and a limit by its number. -/
theorem sorted_injective {p q : Payload} (h : p.sorted = q.sorted) : p = q := by
  obtain ⟨model, messages, maxTokens⟩ := p
  obtain ⟨model', messages', maxTokens'⟩ := q
  simp only [Payload.sorted, Json.obj.injEq, List.cons.injEq, Prod.mk.injEq, Json.arr.injEq, Json.str.injEq, true_and,
    and_true] at h
  obtain ⟨htokens, hmessages, rfl⟩ := h
  obtain rfl := message_injective.list_map hmessages
  cases maxTokens <;> cases maxTokens' <;> cases htokens <;> rfl

/-- The text tells the payload. -/
theorem canonical_injective {p q : Payload} (h : p.canonical = q.canonical) : p = q := by
  have hsorted := Json.dumps_injective h
  rw [sortKeys_json, sortKeys_json] at hsorted
  exact sorted_injective hsorted

example : (Payload.mk "gpt-4o" [⟨"user", "say \"hi\"\n"⟩] (some 5)).canonical =
    "\x7b\"max_tokens\":5,\"messages\":[\x7b\"content\":\"say \\\"hi\\\"\\n\",\"role\":\"user\"\x7d],\"model\":\"gpt-4o\"\x7d" := by
  decide

namespace IdempotencyService

/-- The service, its digest the hash of the canonical text. -/
def hashing (store : RedisIdempotencyStore) (sha256 : ByteArray → String) : IdempotencyService where
  store := store
  digest payload := sha256 payload.canonical.toUTF8

def payload (request : ChatRequest) : Payload := ⟨request.model, request.messages, request.maxTokens⟩

/-- Where the hash does not collide on their two texts, two requests have one fingerprint exactly
when they are one conversation: the same model, the same limit, the same messages in order. -/
theorem fingerprint_eq_iff (store : RedisIdempotencyStore) (sha256 : ByteArray → String) (r r' : ChatRequest)
    (hsha : sha256 (payload r).canonical.toUTF8 = sha256 (payload r').canonical.toUTF8 →
      (payload r).canonical.toUTF8 = (payload r').canonical.toUTF8) :
    (hashing store sha256).fingerprint r = (hashing store sha256).fingerprint r' ↔
      r.model = r'.model ∧ r.maxTokens = r'.maxTokens ∧ r.messages = r'.messages := by
  constructor
  · intro h
    have hpayload : payload r = payload r' := canonical_injective (String.toByteArray_inj.mp (hsha h))
    obtain ⟨hmodel, hmessages, htokens⟩ := Payload.mk.inj hpayload
    exact ⟨hmodel, htokens, hmessages⟩
  · rintro ⟨hmodel, htokens, hmessages⟩
    unfold fingerprint
    rw [hmodel, htokens, hmessages]

/-- One message with a quote and a line break in it, and the same words in two messages. -/
def quoted : ChatRequest := { model := "gpt-4o", messages := [⟨"user", "say \"hi\"\n"⟩], maxTokens := some 5 }

def parted : ChatRequest := { model := "gpt-4o", messages := [⟨"user", "say "⟩, ⟨"user", "hi"⟩], maxTokens := some 5 }

/-- The hash, on the texts of these two. -/
def quotedHash (bytes : ByteArray) : String :=
  if bytes = (payload quoted).canonical.toUTF8 then "203f8f39f95c5527e98c2bc609908c5d14532a18e4510f6f7b782625bcff3354"
  else "5dc35f4404f18b1fb79ae6cf732ebaa9c3778ffa26c7d0099e9716103a416029"

theorem fingerprint_eq_iff_quoted :
    (hashing ⟨120, 86400⟩ quotedHash).fingerprint quoted = (hashing ⟨120, 86400⟩ quotedHash).fingerprint parted ↔
      quoted.model = parted.model ∧ quoted.maxTokens = parted.maxTokens ∧ quoted.messages = parted.messages := by
  refine fingerprint_eq_iff _ quotedHash quoted parted fun h => ?_
  by_contra hne
  rw [quotedHash, quotedHash, if_pos rfl, if_neg (Ne.symm hne)] at h
  exact absurd h (by decide)

end IdempotencyService
end Relayix
