import Relayix.Services.GatewayBilling

/-! One request is recorded once.

`complete` records the response that it returns and does nothing after it. `_drain` records at its
terminal response or in its handler, and its handler is reached after a recording only where the
consumer has thrown in a break of its own; with a consumer that closes it or reads on, a stream is
recorded at most once too. Whatever raises has not been recorded, before it has committed. -/
namespace Relayix
open Library
namespace GatewayService
variable {A : Interface} {self : GatewayService A} {request : ChatRequest} {apiKeyId : UUID} {billed : Bool}

/-- Whether the request has been recorded, which is done once. -/
def once (A : Interface) : Monitor (A.sum recorderI) Exn Bool where
  next
    | _, .inr _, .ok _ => true
    | billed, _, _ => billed
  allowed
    | billed, .inr _ => billed = false
    | _, .inl _ => True
  expects _ _ := True

/-- The same of a stream, whose consumer throws in no partial response. -/
def onceServed (A : Interface) : Monitor ((A.sum recorderI).sum (handoff ChatStreamEvent)) Exn Bool where
  next := ((once A).handing ChatStreamEvent).next
  allowed := ((once A).handing ChatStreamEvent).allowed
  expects
    | .inl _, _ => True
    | .inr _, a => ∀ e, a = .error e → salvaged e = none

theorem adapter_once {α : Type} (p : Prog A Exn α) :
    (p.inl : Prog (A.sum recorderI) Exn α).Obeys (once A) (fun _ s => s = billed) billed := by
  have asked : (p.inl : Prog (A.sum recorderI) Exn α).Asks fun c => ∃ c' : A.Cmd, c = Sum.inl c' :=
    (Prog.Asks.of_forall (fun c => ⟨c, rfl⟩) p).inl
  apply asked.steady
  rintro _ ⟨c, rfl⟩
  exact ⟨trivial, fun _ => rfl⟩

theorem record_once (r : ChatResponse) :
    (record apiKeyId r : Prog (A.sum recorderI) Exn Unit).Obeys (once A) (fun o s => s = o.isOk) false := by
  apply Prog.Obeys.perform rfl
  intro a _
  cases a <;> rfl

/-! ### Buffered -/

theorem tryComplete_once (ambiguousError : Option Exn) (candidates : List Candidate) :
    (self.tryComplete request apiKeyId ambiguousError candidates).Obeys (once A) (fun o s => ∀ e, o = .error e → s = false) false := by
  induction candidates generalizing ambiguousError with
  | nil => exact fun _ _ => rfl
  | cons candidate rest ih =>
    unfold tryComplete
    split
    · exact ih _
    · rename_i adapter _
      apply (adapter_once (adapter.complete (upstream request candidate))).attempt_bind
      rintro r _ rfl
      cases r with
      | error e =>
        dsimp only
        split
        · exact ih _
        · exact fun _ _ => rfl
      | ok response =>
        apply (record_once response).bind
        · exact fun _ _ _ e he => by cases he
        · exact fun _ _ hs _ _ => hs

/-- A call that fails has not been recorded. -/
theorem complete_once :
    (self.complete request apiKeyId).Obeys (once A) (fun o s => ∀ e, o = .error e → s = false) false := by
  unfold complete
  cases self.candidatesFor request.model with
  | error e => exact fun _ _ => rfl
  | ok candidates => exact tryComplete_once none candidates

/-! ### Streams -/

theorem yield_once {event : ChatStreamEvent} :
    (Gen.yield event : Served A).Obeys (onceServed A) (fun o s => s = billed ∧ ∀ e, o = .error e → salvaged e = none) billed :=
  Prog.Obeys.perform trivial fun _ ha => ⟨rfl, ha⟩

theorem finalise_once {k : Except Exn Unit → Gen A Exn ChatStreamEvent Unit} :
    ((Gen.finalise k).inl.inl : Served A).Obeys (onceServed A) (fun _ _ => True) billed := by
  apply Prog.Obeys.inl
  apply ((adapter_once (Gen.finalise k)).along (f := id) (fun _ _ h => h) (fun _ _ _ _ => rfl) fun _ _ h => h).mono
  exact fun _ _ _ => trivial

/-- Nothing is recorded of what carries no response. -/
theorem interrupted_none {e : Exn} (h : salvaged e = none) :
    (interrupted apiKeyId e : Served A).Obeys (onceServed A) (fun _ _ => True) billed := by
  unfold interrupted
  split
  · cases h
  · trivial

theorem interrupted_once (e : Exn) :
    (interrupted apiKeyId e : Served A).Obeys (onceServed A) (fun _ _ => True) false := by
  unfold interrupted
  split
  · apply Prog.Obeys.bind (Q := fun _ _ => True)
    · apply Prog.Obeys.inl
      exact Prog.Obeys.perform rfl fun _ _ => trivial
    · exact fun _ _ _ => trivial
    · exact fun _ _ _ => trivial
  · trivial

theorem emit_once {event : ChatStreamEvent} {streamIter : Except Exn Unit → Gen A Exn ChatStreamEvent Unit} {rest : Served A}
    (hrest : rest.Obeys (onceServed A) (fun _ _ => True) false) :
    (emit apiKeyId event streamIter rest).Obeys (onceServed A) (fun _ _ => True) false := by
  cases event with
  | delta c =>
    apply yield_once.attempt_bind
    rintro r _ ⟨rfl, _⟩
    cases r with
    | ok _ => exact hrest
    | error e => exact (interrupted_once e).tryFinally fun _ _ _ => finalise_once
  | response r =>
    have recorded : ((record apiKeyId r).inl : Served A).Obeys (onceServed A) (fun o s => s = o.isOk) false := by
      apply Prog.Obeys.inl
      apply Prog.Obeys.perform rfl
      intro a _
      cases a <;> rfl
    -- after the recording only the consumer can raise
    have handed : (((record apiKeyId r).inl : Served A).bind fun _ => Gen.yield (.response r)).Obeys (onceServed A)
        (fun o s => ∀ e, o = .error e → s = false ∨ salvaged e = none) false := by
      apply recorded.bind
      · rintro _ _ rfl
        exact yield_once.mono fun _ _ h e he => .inr (h.2 e he)
      · rintro _ _ rfl _ _
        exact .inl rfl
    apply Prog.Obeys.tryFinally (Q := fun _ _ => True)
    · apply handed.tryExcept (fun _ _ _ => trivial)
      intro e s hs
      rcases hs e rfl with rfl | hnone
      · exact interrupted_once e
      · exact interrupted_none hnone
    · exact fun _ _ _ => finalise_once

theorem forward_once (g : Gen A Exn ChatStreamEvent Unit) :
    (forward apiKeyId g).Obeys (onceServed A) (fun _ _ => True) false := by
  induction g with
  | ret a => trivial
  | raise e => exact interrupted_once e
  | await c k ih =>
    cases c with
    | inl c => exact ⟨trivial, fun a _ => ih a⟩
    | inr event => exact emit_once (ih _)

/-- What a stream is that has committed: not recorded yet, and then once. -/
def Fresh (o : Except Exn (Served A)) (billed : Bool) : Prop :=
  billed = false ∧ ∀ served, o = .ok served → served.Obeys (onceServed A) (fun _ _ => True) false

theorem tryStream_once (ambiguousError : Option Exn) (candidates : List Candidate) :
    (self.tryStream request apiKeyId ambiguousError candidates).Obeys (once A) Fresh false := by
  induction candidates generalizing ambiguousError with
  | nil => exact ⟨rfl, fun _ h => by cases h⟩
  | cons candidate rest ih =>
    unfold tryStream
    split
    · exact ih _
    · rename_i adapter _
      apply (adapter_once (adapter.stream (upstream request candidate)).anext).attempt_bind
      rintro r _ rfl
      rcases r with e | _ | ⟨event, streamIter⟩
      · dsimp only
        split
        · exact ih _
        · exact ⟨rfl, fun _ h => by cases h⟩
      · exact ih _
      · refine ⟨rfl, ?_⟩
        rintro _ h
        cases h
        exact emit_once (forward_once _)

/-- Before it has committed nothing is recorded, and then once. -/
theorem stream_once : (self.stream request apiKeyId).Obeys (once A) Fresh false := by
  unfold stream
  cases self.candidatesFor request.model with
  | error e => exact ⟨rfl, fun _ h => by cases h⟩
  | ok candidates => exact tryStream_once none candidates

end GatewayService
end Relayix
