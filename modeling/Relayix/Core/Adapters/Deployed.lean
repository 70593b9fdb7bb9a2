import Relayix.Api.V1.Keeping
import Relayix.Core.Adapters.Registry
import Relayix.Core.Resilience.AdapterPool

/-! The calls of the adapters that are registered.

A request may call a provider more than once, as often as its tier has candidates of it, and one
call may be left open when the next begins. So to its breaker every call is a client of its own
(`redialing`). Of the inner adapter a call asks one thing, and next after it was admitted (`hearing`). -/
namespace Relayix
open Library

variable {σ : Type}

/-- A client that is followed by another as soon as it asks again. -/
def redialing : Monitor adapterI Exn Client where
  next
    | _, .inl .allow, .ok (true, generation) => .holding generation
    | _, .inl .allow, _ => .finished
    | .holding _, .inl (.report _ _), _ => .finished
    | q, _, _ => q
  allowed
    | _, .inl .allow => True
    | .holding generation, .inl (.report _ generation') => generation' = generation
    | _, .inl (.report _ _) => False
    | _, .inr _ => True
  expects
    | .inl _, a => ∃ r, a = .ok r
    | .inr _, _ => True

/-- What was asked last, and answered. The inner adapter is called next after an admission. -/
def hearing : Monitor adapterI Exn (Option (Event adapterI Exn)) where
  next _ c a := some ⟨c, a⟩
  allowed
    | last, .inr (.complete _) | last, .inr (.stream _) => ∃ generation, last = some ⟨.inl .allow, .ok (true, generation)⟩
    | _, _ => True
  expects _ _ := True

/-- What follows the call of the inner adapter. -/
def AfterCall : adapterI.Cmd → Prop
  | .inl _ => True
  | .inr .aclose => True
  | .inr _ => False

/-- The same of a stream, which hands over its events. -/
def AfterOpening : (adapterI.sum (handoff ChatStreamEvent)).Cmd → Prop
  | .inl c => AfterCall c
  | .inr _ => True

/-- A new call starts afresh. -/
theorem redialing_allow (q : Client) (a : Except Exn (Bool × Nat)) :
    redialing.next q (.inl .allow) a = redialing.next .fresh (.inl .allow) a := by
  obtain e | ⟨_ | _, generation⟩ := a <;> cases q <;> rfl

section
variable {q : Client} {c : (adapterI.sum (handoff ChatStreamEvent)).Cmd} {a : Except Exn ((adapterI.sum (handoff ChatStreamEvent)).Ans c)}

/-- What a client of the breaker may ask, it may ask here. -/
theorem redialing_allowed (hq : streaming.allowed q c) : (redialing.handing ChatStreamEvent).allowed q c := by
  rcases c with ((_ | _) | _) | _ <;> cases q <;> first | exact hq | trivial

/-- It then stands where that client stands. -/
theorem redialing_next (hq : streaming.allowed q c) : (redialing.handing ChatStreamEvent).next q c a = streaming.next q c a := by
  rcases c with ((_ | _) | _) | _
  · cases q with
    | fresh => obtain e | ⟨_ | _, generation⟩ := a <;> rfl
    | holding n => exact absurd hq id
    | finished => exact absurd hq id
  · cases q <;> rfl
  · cases q <;> rfl
  · cases q <;> rfl

theorem redialing_expects (ha : (redialing.handing ChatStreamEvent).expects c a) : streaming.expects c a := by
  rcases c with (_ | _) | _
  · exact ha
  · trivial
  · trivial

end

namespace ResilientAdapter
variable (self : ResilientAdapter) (request : ChatRequest)

/-! ### To the breaker -/

theorem complete_redialing (q : Client) : (self.complete request).Obeys redialing (fun _ _ => True) q := by
  have fresh : (self.complete request).Obeys redialing (fun _ _ => True) .fresh := by
    refine Prog.Obeys.mono (Prog.Obeys.along (f := id) ?_ ?_ ?_ (self.complete_obeys request)) fun _ _ _ => trivial
    · exact fun _ c hq => redialing_allowed (c := .inl c) hq
    · exact fun _ c a hq => redialing_next (c := .inl c) (a := a) hq
    · exact fun c a ha => redialing_expects (c := .inl c) (a := a) ha
  refine ⟨trivial, fun a ha => ?_⟩
  rw [redialing_allow]
  exact fresh.2 a ha

theorem stream_redialing (q : Client) :
    (self.stream request).Obeys (redialing.handing ChatStreamEvent) (fun _ _ => True) q := by
  have fresh : (self.stream request).Obeys (redialing.handing ChatStreamEvent) (fun _ _ => True) .fresh := by
    refine Prog.Obeys.mono (Prog.Obeys.along (f := id) ?_ ?_ ?_ (self.stream_obeys request)) fun _ _ _ => trivial
    · exact fun _ _ hq => redialing_allowed hq
    · exact fun _ _ _ hq => redialing_next hq
    · exact fun _ _ ha => redialing_expects ha
  refine ⟨trivial, fun a ha => ?_⟩
  show Prog.Obeys _ _ _ (redialing.next q (.inl .allow) a)
  rw [redialing_allow]
  exact fresh.2 a ha

/-! ### To the inner adapter -/

theorem report_after (o : Outcome) (generation : Nat) : (report o generation : Prog adapterI Exn Unit).Asks AfterCall :=
  Prog.Asks.perform trivial

theorem completeFailed_after (generation : Nat) (e : Exn) : (self.completeFailed generation e).Asks AfterCall := by
  obtain ⟨o, e', h⟩ := self.completeFailed_eq generation e
  rw [h]
  exact (report_after o generation).bind fun _ => trivial

theorem relay_after (generation : Nat) (emittedAny : Bool) (source : Source Exn ChatStreamEvent) :
    (self.relay generation emittedAny source).Asks AfterOpening := by
  have yields : ∀ event, (Gen.yield event : Gen adapterI Exn ChatStreamEvent Unit).Asks AfterOpening :=
    fun _ => Prog.Asks.perform trivial
  induction source generalizing emittedAny with
  | raise e =>
    unfold relay
    split <;> trivial
  | stop => trivial
  | item event rest ih =>
    cases event with
    | response r => exact (yields _).bind fun _ => (report_after .success generation).inl
    | delta c => exact (yields _).bind fun _ => ih true

theorem failed_after (generation : Nat) (e : Exn) : (failed generation e).Asks AfterOpening := by
  unfold failed
  split
  · exact Prog.Asks.bind (report_after _ _).inl fun _ => trivial
  · exact Prog.Asks.bind (report_after _ _).inl fun _ => trivial

/-- Nothing of it depends on what was asked last. -/
theorem hearing_after (last : Option (Event adapterI Exn)) {c : adapterI.Cmd} (hc : AfterCall c) : hearing.allowed last c := by
  rcases c with _ | _ | _ | _
  · trivial
  · exact hc.elim
  · exact hc.elim
  · trivial

theorem complete_hearing (last : Option (Event adapterI Exn)) : (self.complete request).Obeys hearing (fun _ _ => True) last := by
  refine ⟨trivial, fun a _ => ?_⟩
  obtain e | ⟨_ | _, generation⟩ := a
  · trivial
  · trivial
  · have answered : ∀ a : Except Exn ChatResponse, (((Prog.ofExcept a).tryExcept (self.completeFailed generation)).bind
        fun response => (report .success generation).bind fun _ => .ret response).Asks AfterCall := by
      intro a
      apply Prog.Asks.bind
      · exact (Prog.Asks.ofExcept a).tryExcept (self.completeFailed_after generation)
      · exact fun _ => (report_after .success generation).bind fun _ => trivial
    exact ⟨⟨generation, rfl⟩, fun a _ => (answered a).lenient (fun last _ hc => hearing_after last hc) _⟩

theorem stream_hearing (last : Option (Event adapterI Exn)) :
    (self.stream request).Obeys (hearing.handing ChatStreamEvent) (fun _ _ => True) last := by
  refine ⟨trivial, fun a _ => ?_⟩
  obtain e | ⟨_ | _, generation⟩ := a
  · trivial
  · trivial
  · have allowed : ∀ last c, AfterOpening c → (hearing.handing ChatStreamEvent).allowed last c := by
      rintro last (c | event) hc
      · exact hearing_after last hc
      · trivial
    have closed : ((Relayix.provider .aclose).inl : Gen adapterI Exn ChatStreamEvent Unit).Asks AfterOpening :=
      Prog.Asks.inl (Prog.Asks.perform trivial)
    have handled : ∀ source, (((self.relay generation false source).tryExcept (failed generation)).tryFinally
        (Relayix.provider .aclose).inl).Asks AfterOpening := fun source =>
      ((self.relay_after generation false source).tryExcept (failed_after generation)).tryFinally closed
    refine ⟨⟨generation, rfl⟩, fun a _ => ?_⟩
    cases a with
    | ok source => exact (handled source).lenient allowed _
    | error e => exact (handled (.raise e)).lenient allowed _

end ResilientAdapter

/-! ### In the gateway -/

/-- The adapters that `build_registry` registers keep to what the calls of a provider keep to, where it
has a key. -/
theorem keeps_of_registered {M : Monitor adapterI Exn σ} {config : Settings} {provider : ProviderEnum}
    {service : GatewayService deployedI} (hservice : service.registry = fun p => ((buildRegistry config).get p).toOption)
    (hcomplete : Settings.isSet (config.apiKey provider) → ∀ request s,
      ((withResilience provider config).complete request).Obeys M (fun _ _ => True) s)
    (hstream : Settings.isSet (config.apiKey provider) → ∀ request s,
      ((withResilience provider config).stream request).Obeys (M.handing ChatStreamEvent) (fun _ _ => True) s) :
    service.Keeps (M.single provider) := by
  intro p adapter hadapter
  simp only [hservice, get_buildRegistry] at hadapter
  split at hadapter
  · rename_i hset
    obtain rfl := Option.some.inj hadapter
    constructor
    · intro request s
      apply Prog.Obeys.single
      rintro rfl
      exact hcomplete hset request s
    · intro request s
      apply Gen.single_obeys
      rintro rfl
      exact hstream hset request s
  · cases hadapter

end Relayix
