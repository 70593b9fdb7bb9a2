import Relayix.Api.V1.ChatUsage
import Relayix.Services.IdempotencyCharges

/-! A request, and the record of its idempotency key.

A request that has a key acquires its record before a provider is asked, under the key that its lookup
answered, and inserts its row while it holds it. From then on it keeps the record. One that has none
leaves the store alone. -/
namespace Relayix
open Library
open UsageRecorder (clockI ofSession)

variable {A : Interface}

/-! ### The endpoint -/

namespace Chat
open IdempotencyService (charging)

theorem createCompletion_charging {payload : ChatRequestSchema} {service : GatewayService A} {apiKeyId : UUID}
    {idempotency : IdempotencyService} {key : String} :
    (createCompletion payload service apiKeyId idempotency (some key)).Obeys (charging A (redisKey apiKeyId key))
      (fun o s => ∀ completion, o = .ok completion → completion.Keeps (charging A (redisKey apiKeyId key)) s) .outside := by
  unfold createCompletion
  split
  · apply (IdempotencyService.executeStream_charging GatewayService.stream_once).bind
    · rintro events s hevents _ hc
      cases hc
      exact encodeSse_keeps (hevents events rfl)
    · exact fun _ _ _ _ hc => by cases hc
  · apply (IdempotencyService.execute_charging GatewayService.complete_once).bind
    · rintro response s _ _ hc
      cases hc
      trivial
    · exact fun _ _ _ _ hc => by cases hc

end Chat

/-- An endpoint on the record `name`. -/
def answering (A : Interface) (name : String) : Monitor (endpointI A) Exn Claim where
  next
    | claim, .inl c, a => claim.next c a
    | claim, .inr (.inl (.inr _)), .ok _ => claim.charge
    | claim, _, _ => claim
  allowed
    | claim, .inl c => claim.MayAsk name c
    | claim, .inr (.inl (.inl _)) => claim.held = true
    | claim, .inr (.inl (.inr _)) => claim = .holding
    | _, .inr (.inr _) => True
  expects _ _ := True

theorem answer_answering {call : ChatCall A} {apiKeyId : UUID} {key : String} (hkey : call.idempotencyKey = some key) :
    (call.answer apiKeyId).Obeys (answering A (redisKey apiKeyId key)) (fun _ _ => True) .outside := by
  have created : (Chat.createCompletion call.payload call.service apiKeyId call.idempotency (some key)).Obeys
      (IdempotencyService.charging A (redisKey apiKeyId key)) _ .outside := Chat.createCompletion_charging
  unfold ChatCall.answer
  rw [hkey]
  apply Prog.Obeys.assoc
  refine Prog.Obeys.mono (Prog.Obeys.along (f := id)
    (M := (IdempotencyService.charging A (redisKey apiKeyId key)).handing Frame) (Q := fun _ _ => True) ?_ ?_ ?_ ?_)
      fun _ _ _ => trivial
  · rintro s ((c | c | c) | c) hc <;> exact hc
  · rintro s ((c | c | c) | c) a _ <;> cases a <;> rfl
  · rintro ((c | c | c) | c) a _ <;> trivial
  · apply created.handing.bind
    · intro completion s h
      cases completion with
      | streaming body => exact h _ rfl
      | json response => trivial
    · exact fun _ _ _ => trivial

/-! ### The request -/

/-- What the other requests can tell of a request. -/
structure Claimant where
  idempotencyKey : Option String
  /-- the key that its lookup answered -/
  caller : Option UUID := none
  claim : Claim := .outside

namespace Claimant

/-- The record that it is about. -/
def slot (self : Claimant) : Option Slot := self.caller.bind fun apiKeyId => self.idempotencyKey.map fun key => (apiKeyId, key)

theorem slot_eq_some {self : Claimant} {slot : Slot} :
    self.slot = some slot ↔ self.caller = some slot.1 ∧ self.idempotencyKey = some slot.2 := by
  obtain ⟨key, caller, claim⟩ := self
  obtain ⟨apiKeyId, key'⟩ := slot
  cases caller <;> cases key <;> simp [Claimant.slot]

end Claimant

/-- A request, its recordings as the gateway asks for them. -/
def claiming (A : Interface) : Monitor (appI A) Exn Claimant where
  next
    | s, .inl (.select _), .ok (some row) => { s with caller := some row.id }
    | s, .inr (.inr (.inl c)), a => { s with claim := s.claim.next c a }
    | s, .inr (.inr (.inr (.inl (.inr _)))), .ok _ => { s with claim := s.claim.charge }
    | s, _, _ => s
  allowed
    | s, .inl _ => s.caller = none ∧ s.claim = .outside
    | _, .inr (.inl c) => WellNamed .silent (.inl c)
    | s, .inr (.inr (.inl c)) => ∃ slot, s.slot = some slot ∧ s.claim.MayAsk slot.name c
    | s, .inr (.inr (.inr (.inl (.inl _)))) => s.caller ≠ none ∧ (s.idempotencyKey ≠ none → s.claim.held = true)
    | s, .inr (.inr (.inr (.inl (.inr _)))) => s.idempotencyKey ≠ none → s.claim = .holding
    | _, .inr (.inr (.inr (.inr _))) => True
  expects _ _ := True

section Request
variable {sha256 : ByteArray → String} {defaultRateLimitRpm : Nat} {call : ChatCall A} {pricing : PricingTable} {apiKeyId : UUID}

theorem currentApiKey_claiming {authorization : Option String} {s : Claimant} (hcaller : s.caller = none) (hclaim : s.claim = .outside) :
    (currentApiKey sha256 authorization).Obeys (claiming A).onLeft
      (fun o s' => ∀ row, o = .ok row → s' = { s with caller := some row.id }) s := by
  unfold currentApiKey
  cases bearerToken authorization with
  | error e => exact fun row h => by cases h
  | ok token =>
    refine ⟨⟨hcaller, hclaim⟩, fun a _ => ?_⟩
    rcases a with e | _ | row
    · exact fun row h => by cases h
    · exact fun row h => by cases h
    · rintro row' h
      cases h
      rfl

/-- The endpoint, in the name of the key that was looked up. -/
theorem answer_claiming :
    (call.answer apiKeyId).inr.inr.Obeys (claiming A) (fun _ _ => True) ⟨call.idempotencyKey, some apiKeyId, .outside⟩ := by
  apply Prog.Obeys.inr
  apply Prog.Obeys.inr
  cases hkey : call.idempotencyKey with
  | none =>
    have acts : (call.answer apiKeyId).Asks (Acts apiKeyId none) := hkey ▸ answer_asks
    refine (acts.steady fun c hc => ?_).mono fun _ _ _ => trivial
    rcases c with c | (c | c) | c
    · obtain ⟨key, hnone, _⟩ := hc
      cases hnone
    · exact ⟨⟨Option.some_ne_none _, fun h => absurd rfl h⟩, fun a => by cases a <;> rfl⟩
    · exact ⟨fun h => absurd rfl h, fun a => by cases a <;> rfl⟩
    · exact ⟨trivial, fun a => by cases a <;> rfl⟩
  | some key =>
    refine Prog.Obeys.mono (Prog.Obeys.along (f := fun claim : Claim => (⟨some key, some apiKeyId, claim⟩ : Claimant)) ?_ ?_
      (fun _ _ _ => trivial) (answer_answering hkey)) fun _ _ _ => trivial
    · rintro claim (c | (c | c) | c) hc
      · exact ⟨(apiKeyId, key), rfl, hc⟩
      · exact ⟨Option.some_ne_none _, fun _ => hc⟩
      · exact fun _ => hc
      · trivial
    · rintro claim (c | (c | c) | c) a _ <;> cases a <;> rfl

theorem serve_claiming :
    (call.serve sha256 defaultRateLimitRpm).Obeys (claiming A) (fun _ _ => True) { idempotencyKey := call.idempotencyKey } := by
  apply Prog.Obeys.bind (Prog.Obeys.inl (currentApiKey_claiming rfl rfl))
  · intro row s hs
    obtain rfl := hs row rfl
    have checked : ((enforceRateLimit defaultRateLimitRpm row).inl.inr : Prog (appI A) Exn Unit).Obeys (claiming A)
        (fun _ s => s = ⟨call.idempotencyKey, some row.id, .outside⟩) ⟨call.idempotencyKey, some row.id, .outside⟩ := by
      apply Prog.Obeys.inr
      apply Prog.Obeys.inl
      exact (composed_wellNamed .silent _ _).steady fun c hc => ⟨hc, fun a => by cases a <;> rfl⟩
    apply checked.bind
    · rintro _ _ rfl
      exact answer_claiming
    · exact fun _ _ _ => trivial
  · exact fun _ _ _ => trivial

/-! ### Down to its session -/

/-- A request, with the rows that it inserts. -/
def retrying (A : Interface) : Monitor (postedI A) Exn Claimant where
  next
    | s, .inl (.inl (.inl (.select _))), .ok (some row) => { s with caller := some row.id }
    | s, .inl (.inl (.inr (.inr (.inl c)))), a => { s with claim := s.claim.next c a }
    | s, .inr (.flush _), .ok _ => { s with claim := s.claim.charge }
    | s, _, _ => s
  allowed
    | s, .inl (.inl (.inl _)) => s.caller = none ∧ s.claim = .outside
    | _, .inl (.inl (.inr (.inl c))) => WellNamed .silent (.inl c)
    | s, .inl (.inl (.inr (.inr (.inl c)))) => ∃ slot, s.slot = some slot ∧ s.claim.MayAsk slot.name c
    | s, .inl (.inl (.inr (.inr (.inr (.inl _))))) => s.caller ≠ none ∧ (s.idempotencyKey ≠ none → s.claim.held = true)
    | s, .inr (.flush _) => s.idempotencyKey ≠ none → s.claim = .holding
    | _, _ => True
  expects _ _ := True

/-- A reading of the clock. -/
def OfClock : (postedI A).Cmd → Prop
  | .inl (.inr _) => True
  | _ => False

/-- A recording inserts its row last, and fails where that fails. -/
theorem record_retrying {r : ChatResponse} {s : Claimant} (h : s.idempotencyKey ≠ none → s.claim = .holding) :
    ((ofSession (I := outerI A) pricing).record apiKeyId r).Obeys (retrying A)
      (fun o s' => s' = if o.isOk then { s with claim := s.claim.charge } else s) s := by
  have steady : ∀ c : (postedI A).Cmd, OfClock c → (retrying A).allowed s c ∧ ∀ a, (retrying A).next s c a = s := by
    rintro ((c | c) | c) hc
    · exact hc.elim
    · exact ⟨trivial, fun _ => rfl⟩
    · exact hc.elim
  have now : (ofSession (I := outerI A) pricing).now.Asks OfClock := Prog.Asks.inl (Prog.Asks.inr (Prog.Asks.perform trivial))
  have created : ∀ cost, (UsageRecord.create (ofSession (I := outerI A) pricing).now apiKeyId r.provider r.model r.tokensIn r.tokensOut
      cost r.finishReason r.requestId).Asks OfClock := by
    intro cost
    unfold UsageRecord.create
    split
    · trivial
    · split
      · trivial
      · split
        · trivial
        · exact now.bind fun _ => trivial
  have priced : ∀ cost, (Prog.ofExcept cost : Prog (postedI A) Exn ℚ).Asks OfClock := fun cost => Prog.Asks.ofExcept cost
  apply Prog.Obeys.bind (now.steady steady)
  · rintro asOf _ rfl
    apply Prog.Obeys.bind ((priced _).steady steady)
    · rintro cost _ rfl
      apply Prog.Obeys.bind ((created cost).steady steady)
      · rintro record s rfl
        have saved : ((ofSession (I := outerI A) pricing).save record).Obeys (retrying A)
            (fun o s' => s' = if o.isOk then { s with claim := s.claim.charge } else s) s := by
          apply Prog.Obeys.perform h
          intro a _
          cases a <;> rfl
        exact Prog.Obeys.bind saved (fun _ _ hs => hs) fun _ _ hs => hs
      · exact fun _ _ hs => hs
    · exact fun _ _ hs => hs
  · exact fun _ _ hs => hs

theorem posting_retrying (c : (appI A).Cmd) (s : Claimant) (hc : (claiming A).allowed s c) :
    (posting pricing c).Obeys (retrying A) (fun a s' => s' = (claiming A).next s c a) s := by
  match c with
  | .inl (.select keyHash) =>
    refine ⟨hc, fun a _ => ?_⟩
    rcases a with e | _ | row <;> rfl
  | .inr (.inl c) => exact ⟨hc, fun a _ => by cases a <;> rfl⟩
  | .inr (.inr (.inl c)) => exact ⟨hc, fun a _ => by cases a <;> rfl⟩
  | .inr (.inr (.inr (.inl (.inl c)))) => exact ⟨hc, fun a _ => by cases a <;> rfl⟩
  | .inr (.inr (.inr (.inr c))) => exact ⟨trivial, fun a _ => by cases a <;> rfl⟩
  | .inr (.inr (.inr (.inl (.inr (.record apiKeyId r))))) =>
    apply (record_retrying hc).bind
    · exact fun _ _ hs => hs
    · exact fun _ _ hs => hs

/-- **One request**, down to its session. -/
theorem inSession_retrying : (inSession (call.posted sha256 defaultRateLimitRpm pricing)).Obeys (retrying A) (fun _ _ => True)
    { idempotencyKey := call.idempotencyKey } := by
  apply inSession_keeps
  · intro s c hc
    cases c with
    | flush row => exact absurd rfl (hc row)
    | commit | rollback | close => trivial
  · exact Prog.Obeys.handled serve_claiming (fun _ _ => trivial) posting_retrying

end Request
end Relayix
