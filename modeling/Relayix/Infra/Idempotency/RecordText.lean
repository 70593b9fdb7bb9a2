import Relayix.Infra.Idempotency.RedisStore
import Relayix.Library.Simulation
import Relayix.Library.JsonReader

/-! The texts that Redis keeps.

Redis stores strings: `reserve`, `complete` and `mark_ambiguous` write what `json.dumps` makes of a
dict, and `reserve` looks its fields up in what `json.loads` makes of the string. `lettered` is the
server with the texts in it, each command together with the dump or the load around it; where a
key holds the text of a record, it answers as the server that keeps the record itself. -/
namespace Relayix
open Library

namespace ResponseBody

/-- The dict of `_serialize`. -/
def json (self : ResponseBody) : Json :=
  .obj [("provider", .str self.provider), ("model", .str self.model), ("content", .str self.content),
    ("tokens_in", .int self.tokensIn), ("tokens_out", .int self.tokensOut), ("finish_reason", .str self.finishReason),
    ("request_id", .str self.requestId)]

/-- The fields that `_deserialize` looks up. -/
def ofJson (body : Json) : Option ResponseBody := do
  let provider ← (← body.field? "provider").str?
  let model ← (← body.field? "model").str?
  let content ← (← body.field? "content").str?
  let tokensIn ← (← body.field? "tokens_in").int?
  let tokensOut ← (← body.field? "tokens_out").int?
  let finishReason ← (← body.field? "finish_reason").str?
  let requestId ← (← body.field? "request_id").str?
  some { provider, model, content, tokensIn, tokensOut, finishReason, requestId }

@[simp] theorem ofJson_json (body : ResponseBody) : ofJson body.json = some body := rfl

end ResponseBody

namespace Record

/-- The dicts that are dumped: only `mark_ambiguous` writes an `error`. -/
def json (self : Record) : Json :=
  .obj ([("status", .str self.status), ("fingerprint", .str self.fingerprint),
    ("response", self.response.elim .null ResponseBody.json)] ++ self.error.elim [] fun error => [("error", .str error)])

/-- `json.dumps(record)` -/
def text (self : Record) : String := String.ofList self.json.spaced

/-- The fields that `reserve` looks up, `error` with `.get`. -/
def ofJson (existing : Json) : Option Record := do
  let status ← (← existing.field? "status").str?
  let fingerprint ← (← existing.field? "fingerprint").str?
  let response ← match ← existing.field? "response" with
    | .null => some none
    | body => (ResponseBody.ofJson body).map some
  let error ← match existing.field? "error" with
    | none | some .null => some none
    | some error => error.str?.map some
  some { status, fingerprint, response, error }

def ofText (raw : String) : Option Record := (Json.loads raw).bind ofJson

theorem ofJson_json (record : Record) : ofJson record.json = some record := by
  obtain ⟨status, fingerprint, response, error⟩ := record
  cases response <;> cases error <;> rfl

/-- **A record survives its text**: what `reserve` reads is what was written. -/
@[simp] theorem ofText_text (record : Record) : ofText record.text = some record := by
  rw [ofText, text, Json.loads_spaced, Option.bind_some, ofJson_json]

example : (Record.parked "ab" "timed out").text =
    "\x7b\"status\": \"ambiguous\", \"fingerprint\": \"ab\", \"response\": null, \"error\": \"timed out\"\x7d" := by
  decide

-- From here on a text is only what it is the text of.
attribute [irreducible] text

end Record

/-! ### The server with the texts -/

abbrev TextRedis := Expiring String String

/-- A text that none of the three methods wrote. -/
def unreadable : Exn := .valueError "not a record"

def TextRedis.exec (w : TextRedis) : (c : RedisCmd) → Except Exn (redisI.Ans c) × TextRedis
  | .set name value nx ex =>
    if ex ≤ 0 then (.error invalidExpire, w)
    else if nx && (w.read name).isSome then (.ok false, w)
    else (.ok true, w.write name value.text ex)
  | .get name =>
    match w.read name with
    | none => (.ok none, w)
    | some raw => ((Record.ofText raw).elim (.error unreadable) fun record => .ok (some record), w)
  | .delete name => (.ok (if (w.read name).isSome then 1 else 0), w.erase name)

section Exec
variable {w : TextRedis} {name : String} {value record : Record} {nx : Bool} {ex : Int}

theorem TextRedis.exec_granted (hex : 0 < ex) (h : nx = true → w.read name = none) :
    w.exec (.set name value nx ex) = (.ok true, w.write name value.text ex) := by
  have hset : (nx && (w.read name).isSome) = false := by
    cases nx with
    | false => rfl
    | true => simp [h rfl]
  simp [exec, not_le.mpr hex, hset]

theorem TextRedis.exec_refused {raw : String} (hex : 0 < ex) (h : w.read name = some raw) :
    w.exec (.set name value true ex) = (.ok false, w) := by
  simp [exec, not_le.mpr hex, h]

theorem TextRedis.exec_found (h : w.read name = some record.text) : w.exec (.get name) = (.ok (some record), w) := by
  simp [exec, h]

end Exec

/-- `served`, with the texts. -/
def lettered (J : Interface) : World (redisI.sum J) Exn TextRedis where
  answers w c a w' :=
    match c, a with
    | .inl c, a => (a, w') = w.exec c ∨ ∃ e, a = .error e ∧ (w' = w ∨ w' = (w.exec c).2)
    | .inr _, _ => w' = w
  elapses := Expiring.Waits

/-- The same time, and under `name` the text of the record there. -/
structure Lettered (name : String) (v : TextRedis) (w : Redis) : Prop where
  now : v.now = w.now
  entry : v.entries name = (w.entries name).map fun e => ⟨e.value.text, e.deadline⟩

namespace Lettered
variable {name : String} {v v' : TextRedis} {w : Redis}

theorem read_eq (h : Lettered name v w) : v.read name = (w.read name).map Record.text := by
  simp only [Expiring.read, Expiring.find, h.entry, h.now]
  cases w.entries name with
  | none => rfl
  | some e => by_cases hlt : w.now < e.deadline <;> simp [Option.filter, hlt]

theorem write (h : Lettered name v w) (record : Record) (ttl : ℚ) :
    Lettered name (v.write name record.text ttl) (w.write name record ttl) := by
  refine ⟨h.now, ?_⟩
  rw [Expiring.write_entries_self, Expiring.write_entries_self, h.now]
  rfl

theorem erase (h : Lettered name v w) : Lettered name (v.erase name) (w.erase name) := by
  refine ⟨h.now, ?_⟩
  rw [Expiring.erase_entries_self, Expiring.erase_entries_self]
  rfl

/-- A command on the key is answered alike, and leaves them alike. -/
theorem exec (h : Lettered name v w) {c : RedisCmd} (hc : c.name = name) :
    (w.exec c).1 = (v.exec c).1 ∧ Lettered name (v.exec c).2 (w.exec c).2 := by
  have hread := h.read_eq
  cases c with
  | set name' value nx ex =>
    obtain rfl : name' = name := hc
    simp only [Redis.exec, TextRedis.exec, hread, Option.isSome_map]
    by_cases hex : ex ≤ 0
    · simp only [hex, if_true]
      exact ⟨trivial, h⟩
    · by_cases hnx : (nx && (w.read name').isSome) = true
      · simp only [hex, hnx, if_true, if_false]
        exact ⟨trivial, h⟩
      · simp only [hex, hnx, Bool.false_eq_true, if_false]
        exact ⟨trivial, h.write value ex⟩
  | get name' =>
    obtain rfl : name' = name := hc
    simp only [Redis.exec, TextRedis.exec, hread]
    cases w.read name' with
    | none => exact ⟨rfl, h⟩
    | some record => exact ⟨by simp, by simpa using h⟩
  | delete name' =>
    obtain rfl : name' = name := hc
    simp only [Redis.exec, TextRedis.exec, hread, Option.isSome_map]
    exact ⟨trivial, h.erase⟩

end Lettered

/-- Calls on the key cannot tell the two servers apart. -/
def letteredSimulation (J : Interface) (name : String) : Simulation (lettered J) (served J) (Named J name) (fun _ => False) where
  same := Lettered name
  within := by
    intro v w v' c a hc hsame ha
    obtain c | c := c
    · obtain ⟨hanswer, hafter⟩ := hsame.exec hc
      rcases ha with ha | ⟨e, rfl, rfl | rfl⟩
      · have hfirst : a = (w.exec c).1 := (congrArg Prod.fst ha).trans hanswer.symm
        have hsecond : v' = (v.exec c).2 := congrArg Prod.snd ha
        rw [hsecond]
        exact ⟨(w.exec c).2, .inl (by rw [hfirst]), hafter⟩
      · exact ⟨w, .inr ⟨e, rfl, .inl rfl⟩, hsame⟩
      · exact ⟨(w.exec c).2, .inr ⟨e, rfl, .inr rfl⟩, hafter⟩
    · obtain rfl : v' = v := ha
      exact ⟨w, rfl, hsame⟩
  beside := fun h => h.elim
  elapses := by
    intro v w v' hsame hw
    refine ⟨{ w with now := v'.now }, ⟨?_, rfl⟩, rfl, ?_⟩
    · rw [← hsame.now]
      exact hw.later
    · rw [hw.entries]
      exact hsame.entry

end Relayix
