import Relayix.Services.GatewayOnce
import Relayix.Services.Idempotency

/-! A keyed request is recorded under its claim.

The operation is the gateway's, and may record its request once. Around it the service acquires the
record of the key before, and afterwards either releases it, when nothing was recorded, or keeps it
for good. So a request that was recorded holds its key from then on, whatever else happens to it. -/
namespace Relayix
open Library

/-- Where a request is with the record of its key. -/
inductive Claim where
  /-- has not acquired it -/
  | outside
  /-- has acquired it, and may be recorded -/
  | holding
  /-- was recorded, and keeps it -/
  | charged
  | released
  deriving DecidableEq

namespace Claim

def held : Claim → Bool
  | .holding | .charged => true
  | .outside | .released => false

/-- The request is recorded. -/
def charge : Claim → Claim
  | .holding => .charged
  | claim => claim

def next : Claim → (c : RedisCmd) → Except Exn (redisI.Ans c) → Claim
  | .outside, .set _ _ true _, .ok true => .holding
  | .holding, .delete _, _ => .released
  | claim, _, _ => claim

/-- The write of a record that is kept. -/
def Final (name : String) (c : redisI.Cmd) : Prop := ∃ record ttl, c = .set name record false ttl

/-- What is asked of the store, on the record `name`. -/
def MayAsk (name : String) : Claim → redisI.Cmd → Prop
  | .outside, c => (∃ record ttl, c = .set name record true ttl) ∨ c = .get name
  | .holding, c => Final name c ∨ c = .delete name
  | .charged, c => Final name c
  | .released, _ => False

def ofBilled (billed : Bool) : Claim := if billed then .charged else .holding

@[simp] theorem held_ofBilled (billed : Bool) : (ofBilled billed).held = true := by
  cases billed <;> rfl

variable {name : String} {claim : Claim}

theorem mayAsk_final {c : redisI.Cmd} (h : claim.held = true) (hc : Final name c) : claim.MayAsk name c := by
  cases claim with
  | holding => exact .inl hc
  | charged => exact hc
  | outside | released => cases h

@[simp] theorem held_charge : claim.charge.held = claim.held := by
  cases claim <;> rfl

/-- The store does not record. -/
theorem next_eq_charged {c : redisI.Cmd} {a : Except Exn (redisI.Ans c)} : claim.next c a = .charged ↔ claim = .charged := by
  cases claim with
  | outside =>
    unfold next
    split <;> simp_all
  | holding =>
    unfold next
    split <;> simp_all
  | charged => exact Iff.rfl
  | released => exact Iff.rfl

theorem name_of_mayAsk {c : redisI.Cmd} (hc : claim.MayAsk name c) : c.name = name := by
  cases claim with
  | outside =>
    rcases hc with ⟨_, _, rfl⟩ | rfl <;> rfl
  | holding =>
    rcases hc with ⟨_, _, rfl⟩ | rfl <;> rfl
  | charged =>
    obtain ⟨_, _, rfl⟩ := hc
    rfl
  | released => exact hc.elim

/-- A record that is kept is held as before. -/
theorem next_final {c : redisI.Cmd} (hc : Final name c) (a : Except Exn (redisI.Ans c)) : claim.next c a = claim := by
  obtain ⟨record, ttl, rfl⟩ := hc
  cases claim <;> rfl

end Claim

namespace IdempotencyService
open GatewayService (once onceServed Served Fresh)
variable {A : Interface} {self : IdempotencyService} {apiKeyId : UUID} {key fingerprint : String} {request : ChatRequest}

/-- A request on the record `name`. -/
def charging (A : Interface) (name : String) : Monitor (redisI.sum (A.sum recorderI)) Exn Claim where
  next
    | claim, .inl c, a => claim.next c a
    | claim, .inr (.inr _), .ok _ => claim.charge
    | claim, _, _ => claim
  allowed
    | claim, .inl c => claim.MayAsk name c
    | claim, .inr (.inl _) => claim.held = true
    | claim, .inr (.inr _) => claim = .holding
  expects _ _ := True

abbrev chargingStream (A : Interface) (name : String) :
    Monitor ((redisI.sum (A.sum recorderI)).sum (handoff ChatStreamEvent)) Exn Claim :=
  (charging A name).handing ChatStreamEvent

/-! ### The store -/

theorem final_charging {p : Prog redisI Exn Unit} {name : String} {claim : Claim} (h : p.Asks (Claim.Final name))
    (hheld : claim.held = true) : p.Obeys (charging A name).onLeft (fun _ s => s = claim) claim := by
  apply h.steady
  exact fun c hc => ⟨Claim.mayAsk_final hheld hc, Claim.next_final hc⟩

theorem keep_final (record : Record) : (self.store.keep apiKeyId key record).Asks (Claim.Final (redisKey apiKeyId key)) :=
  Prog.Asks.bind (Prog.Asks.perform ⟨_, _, rfl⟩) fun _ => trivial

theorem complete_final (body : ResponseBody) :
    (self.store.complete apiKeyId key fingerprint body).Asks (Claim.Final (redisKey apiKeyId key)) := by
  apply (keep_final _).tryExcept
  intro e
  split <;> trivial

theorem markAmbiguous_final (error : String) :
    (self.store.markAmbiguous apiKeyId key fingerprint error).Asks (Claim.Final (redisKey apiKeyId key)) := by
  apply (keep_final _).tryExcept
  intro e
  split <;> trivial

theorem release_charging : (RedisIdempotencyStore.release apiKeyId key).Obeys (charging A (redisKey apiKeyId key)).onLeft
    (fun _ _ => True) .holding := by
  apply Prog.Obeys.tryExcept (Q := fun _ _ => True)
  · apply Prog.Obeys.bind (Q := fun _ _ => True)
    · exact Prog.Obeys.perform (Or.inr rfl) fun _ _ => trivial
    · exact fun _ _ _ => trivial
    · exact fun _ _ _ => trivial
  · exact fun _ _ _ => trivial
  · intro e _ _
    split <;> trivial

/-- What a reservation leaves. -/
def Acquires (outcome : ReservationOutcome) (claim : Claim) : Prop := claim = bif outcome.acquired then .holding else .outside

theorem tryReserve_charging (attempts : Nat) :
    (self.store.tryReserve apiKeyId key fingerprint attempts).Obeys (charging A (redisKey apiKeyId key)).onLeft
      (fun o s => ∀ outcome, o = .ok (some outcome) → Acquires outcome s) .outside := by
  induction attempts with
  | zero => exact fun _ h => by cases h
  | succ attempts ih =>
    refine ⟨.inl ⟨_, _, rfl⟩, fun acquired _ => ?_⟩
    rcases acquired with e | _ | _
    · exact fun _ h => by cases h
    · refine ⟨.inr rfl, fun existing _ => ?_⟩
      rcases existing with e | _ | existing
      · exact fun _ h => by cases h
      · exact ih
      · rintro _ h
        cases h
        rfl
    · rintro _ h
      cases h
      rfl

theorem reserve_charging :
    (self.store.reserve apiKeyId key fingerprint).Obeys (charging A (redisKey apiKeyId key)).onLeft
      (fun o s => ∀ outcome, o = .ok outcome → Acquires outcome s) .outside := by
  apply Prog.Obeys.bind (Q := fun o s => ∀ outcome, o = .ok (some outcome) → Acquires outcome s)
  · apply (tryReserve_charging _).tryExcept (fun _ _ h => h)
    intro e s _
    split <;> exact fun _ h => by cases h
  · intro outcome s h
    cases outcome with
    | none => exact fun _ h => by cases h
    | some outcome =>
      rintro _ hsame
      cases hsame
      exact h _ rfl
  · exact fun _ _ _ _ h => by cases h

/-! ### The operation -/

theorem operation_charging {α : Type} {operation : Prog (A.sum recorderI) Exn α} {Q : Except Exn α → Bool → Prop} {name : String}
    {billed : Bool} (h : operation.Obeys (once A) Q billed) :
    operation.inr.Obeys (charging A name) (fun o s => ∃ billed, s = .ofBilled billed ∧ Q o billed) (.ofBilled billed) := by
  apply Prog.Obeys.inr
  apply h.along (f := Claim.ofBilled)
  · intro billed c hc
    match c with
    | .inl _ => exact Claim.held_ofBilled billed
    | .inr _ =>
      obtain rfl : billed = false := hc
      rfl
  · intro billed c a hc
    match c with
    | .inl _ => rfl
    | .inr _ =>
      obtain rfl : billed = false := hc
      cases a <;> rfl
  · exact fun _ _ _ => trivial

/-- The operation failed, and nothing was recorded. -/
theorem unserved_charging {α : Type} {e : Exn} :
    (self.unserved apiKeyId key fingerprint e : Prog (redisI.sum (A.sum recorderI)) Exn α).Obeys
      (charging A (redisKey apiKeyId key)) (fun o _ => ∃ e, o = .error e) .holding := by
  unfold unserved
  split
  · apply Prog.Obeys.bind (final_charging (markAmbiguous_final _) rfl).inl
    · exact fun _ _ _ => ⟨e, rfl⟩
    · exact fun e' _ _ => ⟨e', rfl⟩
  · apply Prog.Obeys.bind release_charging.inl
    · exact fun _ _ _ => ⟨e, rfl⟩
    · exact fun e' _ _ => ⟨e', rfl⟩

/-- The operation under its handlers, where what raises was not recorded. -/
theorem wrapped_charging {α : Type} {operation : Prog (A.sum recorderI) Exn α} {Q : Except Exn α → Bool → Prop}
    (h : operation.Obeys (once A) Q false) (hraised : ∀ e billed, Q (.error e) billed → billed = false) :
    (operation.inr.tryExcept (self.unserved apiKeyId key fingerprint)).Obeys (charging A (redisKey apiKeyId key))
      (fun o s => ∀ a, o = .ok a → ∃ billed, s = .ofBilled billed ∧ Q (.ok a) billed) .holding := by
  apply (operation_charging h).tryExcept
  · rintro a s ⟨billed, hs, hq⟩ _ ha
    cases ha
    exact ⟨billed, hs, hq⟩
  · rintro e _ ⟨billed, rfl, hq⟩
    rw [hraised e billed hq]
    apply unserved_charging.mono
    rintro _ _ ⟨e', rfl⟩ _ ha
    cases ha

theorem execute_charging {operation : Prog (A.sum recorderI) Exn ChatResponse}
    (h : operation.Obeys (once A) (fun o s => ∀ e, o = .error e → s = false) false) :
    (self.execute apiKeyId key request operation).Obeys (charging A (redisKey apiKeyId key)) (fun _ _ => True) .outside := by
  apply Prog.Obeys.bind (Prog.Obeys.inl reserve_charging)
  · intro outcome s hs
    have hs := hs outcome rfl
    cases ha : outcome.acquired with
    | true =>
      obtain rfl : s = .holding := by simpa [Acquires, ha] using hs
      rw [if_pos rfl]
      apply (wrapped_charging h fun e _ hq => hq e rfl).bind
      · intro response s hs
        obtain ⟨billed, rfl, _⟩ := hs response rfl
        exact Prog.Obeys.bind (final_charging (complete_final _) (Claim.held_ofBilled billed)).inl (fun _ _ _ => trivial)
          fun _ _ _ => trivial
      · exact fun _ _ _ => trivial
    | false =>
      rw [if_neg Bool.false_ne_true]
      have replayed : ((Prog.ofExcept (refuse (self.fingerprint request) outcome)).bind fun body =>
          .ofExcept (deserialize body) : Prog (redisI.sum (A.sum recorderI)) Exn ChatResponse).Asks fun _ => False :=
        (Prog.Asks.ofExcept _).bind fun _ => Prog.Asks.ofExcept _
      exact (replayed.steady fun _ hc => hc.elim).mono fun _ _ _ => trivial
  · exact fun _ _ _ => trivial

/-! ### Streams -/

theorem broken_charging {e : Exn} {billed : Bool} :
    (self.broken apiKeyId key fingerprint e : Gen (redisI.sum (A.sum recorderI)) Exn ChatStreamEvent Unit).Obeys
      (chargingStream A (redisKey apiKeyId key)) (fun _ s => s = .ofBilled billed) (.ofBilled billed) := by
  apply Prog.Obeys.bind (Q := fun _ s => s = Claim.ofBilled billed)
  · exact Prog.Obeys.inl (Prog.Obeys.inl (final_charging (markAmbiguous_final _) (Claim.held_ofBilled billed)))
  · exact fun _ _ h => h
  · exact fun _ _ h => h

theorem pass_charging {event : ChatStreamEvent} {billed : Bool} :
    (self.pass apiKeyId key fingerprint event : Gen (redisI.sum (A.sum recorderI)) Exn ChatStreamEvent Unit).Obeys
      (chargingStream A (redisKey apiKeyId key)) (fun _ s => s = .ofBilled billed) (.ofBilled billed) := by
  apply Prog.Obeys.bind (Q := fun _ s => s = Claim.ofBilled billed)
  · exact Prog.Obeys.perform trivial fun _ _ => rfl
  · rintro _ _ rfl
    cases event with
    | delta content => exact rfl
    | response r => exact Prog.Obeys.inl (Prog.Obeys.inl (final_charging (complete_final _) (Claim.held_ofBilled billed)))
  · exact fun _ _ h => h

/-- The operation's generator, iterated by the service. -/
theorem settle_charging {served : Served A} {billed : Bool} (h : served.Obeys (onceServed A) (fun _ _ => True) billed) :
    (self.settle apiKeyId key fingerprint served).Obeys (chargingStream A (redisKey apiKeyId key)) (fun _ _ => True)
      (.ofBilled billed) := by
  induction served generalizing billed with
  | ret a => trivial
  | raise e => exact broken_charging.mono fun _ _ _ => trivial
  | await c k ih =>
    rcases c with (c | c) | event
    · exact ⟨Claim.held_ofBilled billed, fun a _ => ih a (h.2 a trivial)⟩
    · obtain rfl : billed = false := h.1
      refine ⟨rfl, fun a _ => ?_⟩
      have hk := ih a (h.2 a trivial)
      cases a <;> exact hk
    · have closed : ((Gen.aclose k).inr.inl : Gen (redisI.sum (A.sum recorderI)) Exn ChatStreamEvent Unit).Obeys
          (chargingStream A (redisKey apiKeyId key)) (fun _ _ => True) (.ofBilled billed) := by
        have hexit := h.2 (.error AsyncError.generatorExit) fun e he => by
          cases he
          rfl
        exact (operation_charging (closing_obeys hexit)).handing.mono fun _ _ _ => trivial
      apply pass_charging.attempt_bind
      rintro r _ rfl
      cases r with
      | ok _ => exact ih _ (h.2 _ fun e he => by cases he)
      | error e => exact broken_charging.tryFinally fun _ _ hs => hs ▸ closed.mono fun _ _ _ => trivial

/-- A replay asks nothing. -/
theorem replayStream_charging (body : Option ResponseBody) {name : String} {claim : Claim} :
    (replayStream body : Gen (redisI.sum (A.sum recorderI)) Exn ChatStreamEvent Unit).Obeys (chargingStream A name)
      (fun _ _ => True) claim := by
  have yields : ∀ event claim, (Gen.yield event : Gen (redisI.sum (A.sum recorderI)) Exn ChatStreamEvent Unit).Obeys
      (chargingStream A name) (fun _ _ => True) claim :=
    fun _ _ => Prog.Obeys.perform trivial fun _ _ => trivial
  unfold replayStream
  cases deserialize body with
  | error e => trivial
  | ok response =>
    have before : (if response.content = "" then pure () else Gen.yield (.delta response.content) :
        Gen (redisI.sum (A.sum recorderI)) Exn ChatStreamEvent Unit).Obeys (chargingStream A name) (fun _ _ => True) claim := by
      split
      · trivial
      · exact yields _ _
    refine before.bind (fun _ _ _ => ?_) fun _ _ _ => trivial
    exact yields _ _

theorem executeStream_charging {operation : Prog (A.sum recorderI) Exn (Served A)} (h : operation.Obeys (once A) Fresh false) :
    (self.executeStream apiKeyId key request operation).Obeys (charging A (redisKey apiKeyId key))
      (fun o s => ∀ g, o = .ok g → g.Obeys (chargingStream A (redisKey apiKeyId key)) (fun _ _ => True) s) .outside := by
  apply Prog.Obeys.bind (Prog.Obeys.inl reserve_charging)
  · intro outcome s hs
    have hs := hs outcome rfl
    cases ha : outcome.acquired with
    | true =>
      obtain rfl : s = .holding := by simpa [Acquires, ha] using hs
      rw [if_pos rfl]
      apply (wrapped_charging h fun e _ hq => hq.1).bind
      · intro served s hs _ hg
        cases hg
        obtain ⟨billed, rfl, hfresh, hserved⟩ := hs served rfl
        rw [hfresh]
        exact settle_charging (hserved served rfl)
      · exact fun _ _ _ _ hg => by cases hg
    | false =>
      obtain rfl : s = .outside := by simpa [Acquires, ha] using hs
      rw [if_neg Bool.false_ne_true]
      cases refuse (self.fingerprint request) outcome with
      | error e => exact fun _ hg => by cases hg
      | ok body =>
        rintro _ hg
        cases hg
        exact replayStream_charging body
  · exact fun _ _ _ _ hg => by cases hg

end IdempotencyService
end Relayix
