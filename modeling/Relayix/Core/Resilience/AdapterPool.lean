import Relayix.Core.Resilience.ResilientAdapterProofs

/-! Any number of calls through one adapter.

Each call is a client of the breaker: it asks once and reports at most once, under
its own generation, so the ledger of the breaker holds of every interleaving. What a
settled call has reported is no longer outstanding, which is how the slot of a
half-open breaker comes back. -/
namespace Relayix
open Library

/-- What a call does besides talking to its breaker. -/
@[reducible] def servedI : Interface := providerI.sum (handoff ChatStreamEvent)

inductive Call where
  | complete (request : ChatRequest)
  | stream (request : ChatRequest)

/-- A call and its consumer, as one thread. -/
def ResilientAdapter.call (self : ResilientAdapter) : Call → Prog (breakerI.sum servedI) Exn Unit
  | .complete request => ((self.complete request).bind fun _ => .ret ()).inl.assoc
  | .stream request => (self.stream request).assoc

/-! ### Each call is a client -/

/-- The breaker's client, as a stream and its consumer see it. -/
abbrev streaming : Monitor (adapterI.sum (handoff ChatStreamEvent)) Exn Client :=
  (client : Monitor (breakerI.sum servedI) Exn Client).unassoc

/-- The same, for a call without items. -/
abbrev buffered : Monitor adapterI Exn Client := streaming.onLeft

/-- The holder of a generation may report, and then has nothing left to report. -/
theorem report_obeys {generation : Nat} {x : Outcome} {Q : Except Exn Unit → Client → Prop}
    (hq : Q (.ok ()) .finished) :
    (report x generation : Prog adapterI Exn Unit).Obeys buffered Q (.holding generation) := by
  refine Prog.Obeys.perform rfl fun a ha => ?_
  obtain ⟨r, hr⟩ := ha
  have ho : a = .ok () := hr
  rw [ho]
  exact hq

theorem yield_obeys {y : ChatStreamEvent} {s : Client} {Q : Except Exn Unit → Client → Prop}
    (hq : ∀ a, Q a s) :
    (Gen.yield y : Gen adapterI Exn ChatStreamEvent Unit).Obeys streaming Q s := by
  refine Prog.Obeys.perform (by cases s <;> trivial) fun a _ => ?_
  have hn : streaming.next s (.inr y) a = s := by cases s <;> rfl
  rw [hn]
  exact hq a

namespace ResilientAdapter
variable (self : ResilientAdapter)

/-- The loop raises only while it still owes its report. -/
theorem relay_obeys (generation : Nat) (emittedAny : Bool) (source : Source Exn ChatStreamEvent) :
    (self.relay generation emittedAny source).Obeys streaming
      (fun o s => ∀ e, o = .error e → s = .holding generation) (.holding generation) := by
  induction source generalizing emittedAny with
  | raise e =>
    unfold relay
    split <;> exact fun _ _ => rfl
  | stop => exact fun e he => by cases he
  | item y rest ih =>
    have hy : (Gen.yield y : Gen adapterI Exn ChatStreamEvent Unit).Obeys streaming
        (fun _ s => s = .holding generation) (.holding generation) := yield_obeys fun _ => rfl
    cases y with
    | response r =>
      refine hy.bind (fun _ s hs => ?_) (fun _ s hs _ _ => hs)
      subst hs
      exact (report_obeys fun e he => by cases he).inl
    | delta c =>
      refine hy.bind (fun _ s hs => ?_) (fun _ s hs _ _ => hs)
      subst hs
      exact ih true

theorem failed_obeys (generation : Nat) (e : Exn) :
    (failed generation e).Obeys streaming (fun _ _ => True) (.holding generation) := by
  have told : ∀ x, (report x generation : Prog adapterI Exn Unit).inl.Obeys streaming
      (fun _ _ => True) (.holding generation) := fun x => (report_obeys trivial).inl
  unfold failed
  split
  · exact (told .failure).bind (fun _ _ _ => trivial) (fun _ _ _ => trivial)
  · exact (told .abort).bind (fun _ _ _ => trivial) (fun _ _ _ => trivial)

theorem handled_obeys (generation : Nat) (source : Source Exn ChatStreamEvent) :
    ((self.relay generation false source).tryExcept (failed generation)).Obeys streaming
      (fun _ _ => True) (.holding generation) := by
  refine (self.relay_obeys generation false source).tryExcept (fun _ _ _ => trivial) ?_
  intro e s hs
  rw [hs e rfl]
  exact failed_obeys generation e

theorem stream_obeys (request : ChatRequest) :
    (self.stream request).Obeys streaming (fun _ _ => True) .fresh := by
  have close : ∀ s, (Relayix.provider .aclose : Prog adapterI Exn Unit).inl.Obeys streaming
      (fun _ _ => True) s := by
    intro s
    refine (Prog.Obeys.perform ?_ fun _ _ => trivial).inl
    cases s <;> trivial
  refine ⟨trivial, fun a ha => ?_⟩
  obtain ⟨⟨allowed, generation⟩, rfl⟩ := ha
  cases allowed with
  | false => trivial
  | true =>
    refine ⟨trivial, fun a _ => ?_⟩
    have hrest : ∀ source, (((self.relay generation false source).tryExcept
        (failed generation)).tryFinally (Relayix.provider .aclose).inl).Obeys streaming
          (fun _ _ => True) (.holding generation) :=
      fun source => (self.handled_obeys generation source).tryFinally fun _ s _ => close s
    cases a with
    | ok source => exact hrest source
    | error e => exact hrest (.raise e)

theorem completeFailed_obeys (generation : Nat) (e : Exn) :
    (self.completeFailed generation e).Obeys buffered (fun o _ => ∃ e', o = .error e')
      (.holding generation) := by
  obtain ⟨x, e', hx⟩ := self.completeFailed_eq generation e
  have told : (report x generation : Prog adapterI Exn Unit).Obeys buffered (fun _ _ => True)
      (.holding generation) := report_obeys trivial
  rw [hx]
  exact told.bind (fun _ _ _ => ⟨e', rfl⟩) (fun e _ _ => ⟨e, rfl⟩)

theorem complete_obeys (request : ChatRequest) :
    (self.complete request).Obeys buffered (fun _ _ => True) .fresh := by
  refine ⟨trivial, fun a ha => ?_⟩
  obtain ⟨⟨allowed, generation⟩, rfl⟩ := ha
  cases allowed with
  | false => trivial
  | true =>
    have asked : (Relayix.provider (.complete request)).Obeys buffered
        (fun _ s => s = .holding generation) (.holding generation) :=
      Prog.Obeys.perform trivial fun _ _ => rfl
    have called : ((Relayix.provider (.complete request)).tryExcept
        (self.completeFailed generation)).Obeys buffered
          (fun o s => ∀ r, o = .ok r → s = .holding generation) (.holding generation) := by
      refine asked.tryExcept (fun _ s hs _ _ => hs) fun e s hs => ?_
      subst hs
      refine (self.completeFailed_obeys generation e).mono fun o s ⟨e', ho⟩ r hr => ?_
      rw [ho] at hr
      cases hr
    have told : (report .success generation : Prog adapterI Exn Unit).Obeys buffered
        (fun _ _ => True) (.holding generation) := report_obeys trivial
    refine called.bind (fun response s hs => ?_) (fun _ _ _ => trivial)
    rw [hs response rfl]
    exact told.bind (fun _ _ _ => trivial) (fun _ _ _ => trivial)

/-- Every call is a client of its breaker. -/
theorem call_obeys (c : Call) :
    (self.call c).Obeys client (fun _ _ => True) .fresh := by
  cases c with
  | stream request => exact (self.stream_obeys request).assoc
  | complete request =>
    have h : ((self.complete request).bind fun _ => .ret ()).Obeys buffered (fun _ _ => True) .fresh :=
      (self.complete_obeys request).bind (fun _ _ _ => trivial) (fun _ _ _ => trivial)
    exact h.inl.assoc

end ResilientAdapter

/-! ### What an ended call leaves behind -/

/-- A settled call holds nothing. -/
theorem standing_of_settled {α : Type} {calls : Calls} {inner : Inner} {o : Except Exn α}
    (h : Settled calls inner o) : standing .fresh calls = .finished := by
  cases h with
  | admitted => rfl
  | rejected => rfl

/-- A call, as a thread, that ended and holds something ended plainly. -/
theorem ResilientAdapter.call_ends {self : ResilientAdapter} {c : Call}
    {t : Trace (breakerI.sum servedI) Exn} {o : Except Exn Unit} (h : Ends (self.call c) t o)
    (hs : Steady (lefts t)) :
    standing .fresh (lefts t) = .finished ∨ PlainEnd (lefts (rights t)) (rights (rights t)) := by
  cases c with
  | stream request =>
    obtain ⟨u, rfl, hu⟩ := ends_assoc.mp h
    rw [lefts_regroup] at hs ⊢
    rw [lefts_rights_regroup, rights_rights_regroup]
    by_cases hp : PlainEnd (rights (lefts u)) (rights u)
    · exact .inr hp
    · exact .inl (standing_of_settled ((stream_settled hu hs).mpr hp))
  | complete request =>
    obtain ⟨u, rfl, hu⟩ := ends_assoc.mp h
    obtain ⟨v, rfl, hv⟩ := ends_inl.mp hu
    rw [lefts_regroup, lefts_map_inl] at hs ⊢
    left
    rcases ends_bind.mp hv with ⟨r, v₁, v₂, rfl, hc, hr⟩ | ⟨e, _, hc⟩
    · obtain ⟨rfl, _⟩ := ends_ret.mp hr
      rw [List.append_nil] at hs ⊢
      exact standing_of_settled (complete_settled hc hs)
    · exact standing_of_settled (complete_settled hc hs)

section Slots
variable {ι : Type} [DecidableEq ι] {self : ResilientAdapter} {calls : ι → Call} {failThreshold : Nat}
  {resetTimeoutS now : ℚ} {h : History servedI Exn ι} {p : Pool (breakerI.sum servedI) Exn ι Clocked}

/-- While a trial is marked as in flight, a call that has not ended holds the slot,
provided the ended ones did not end plainly. -/
theorem slot_held (hr : Run (guarded servedI Exn)
      ⟨⟨.new failThreshold resetTimeoutS, now⟩, fun i => self.call (calls i)⟩ h p)
    (hp : ∀ i o, p.threads i = .ofExcept o →
      ¬ PlainEnd (lefts (rights (log i h))) (rights (rights (log i h))))
    (ht : p.world.breaker.trialInFlight = true) :
    ∃ i, Outstanding h i p.world.breaker.generation ∧ ∀ o, p.threads i ≠ .ofExcept o := by
  have hl := ledger_run (fun i => self.call_obeys (calls i)) hr
  obtain ⟨_, i, hi⟩ := hl.consistent.trial.mp ht
  refine ⟨i, hi, fun o ho => ?_⟩
  rcases ResilientAdapter.call_ends (hr.ends ho) (steady_of_expected (hr.expected guarded_meets i)) with hs | hplain
  · have hheld : client.run .fresh (log i h) = .holding p.world.breaker.generation := hi
    rw [client_run, hs] at hheld
    cases hheld
  · exact hp i o ho hplain

end Slots

/-- **One report for every admission.** A buffered call is settled whatever happens; a
stream is settled exactly when it does not end plainly; and in a run whose ended calls
did not end plainly, a trial in flight belongs to a call that is still running. -/
theorem adapter_reports (self : ResilientAdapter) :
    (∀ request t o, Ends (self.complete request) t o → Steady (lefts t) →
      Settled (lefts t) (rights t) o) ∧
    (∀ request t o, Ends (self.stream request) t o → Steady (lefts (lefts t)) →
      (Settled (lefts (lefts t)) (rights (lefts t)) o ↔
        ¬ PlainEnd (rights (lefts t)) (rights t))) ∧
    ∀ (ι : Type) [DecidableEq ι] (calls : ι → Call) failThreshold resetTimeoutS now
      (h : History servedI Exn ι) p,
      Run (guarded servedI Exn)
        ⟨⟨.new failThreshold resetTimeoutS, now⟩, fun i => self.call (calls i)⟩ h p →
      (∀ i o, p.threads i = .ofExcept o →
        ¬ PlainEnd (lefts (rights (log i h))) (rights (rights (log i h)))) →
      p.world.breaker.trialInFlight = true →
      ∃ i, Outstanding h i p.world.breaker.generation ∧ ∀ o, p.threads i ≠ .ofExcept o :=
  ⟨fun _ _ _ h hs => ResilientAdapter.complete_settled h hs,
    fun _ _ _ h hs => ResilientAdapter.stream_settled h hs,
    fun _ _ _ _ _ _ _ _ hr hp ht => slot_held hr hp ht⟩

/-- A stream of one response, taken by its consumer: one success. -/
theorem adapter_reports_response :
    Settled [⟨.allow, .ok (true, 4)⟩, ⟨.report .success 4, .ok ()⟩]
      [⟨.stream ⟨"gpt-4o", [], none, .atMostOnce⟩,
        .ok (.item (.response ⟨.openai, "gpt-4o", "hi", 1, 1, "stop", "r"⟩) .stop)⟩, ⟨.aclose, .ok ()⟩]
      (.ok () : Except Exn Unit) := by
  have hend : Ends ((⟨.openai, "40.0"⟩ : ResilientAdapter).stream ⟨"gpt-4o", [], none, .atMostOnce⟩)
      [⟨.inl (.inl .allow), .ok (true, 4)⟩,
        ⟨.inl (.inr (.stream ⟨"gpt-4o", [], none, .atMostOnce⟩)),
          .ok (.item (.response ⟨.openai, "gpt-4o", "hi", 1, 1, "stop", "r"⟩) .stop)⟩,
        ⟨.inr (.response ⟨.openai, "gpt-4o", "hi", 1, 1, "stop", "r"⟩), .ok ()⟩,
        ⟨.inl (.inl (.report .success 4)), .ok ()⟩, ⟨.inl (.inr .aclose), .ok ()⟩] (.ok ()) :=
    .step _ (.step _ (.step _ (.step _ (.step _ (.refl _)))))
  refine ((adapter_reports _).2.1 _ _ _ hend ?_).mpr ?_
  · exact List.forall_mem_cons.mpr ⟨⟨_, rfl⟩, List.forall_mem_singleton.mpr ⟨_, rfl⟩⟩
  · rintro ⟨request, a, hm, hb, _⟩
    rcases List.mem_cons.mp hm with he | hm
    · cases he
      cases hb
    · cases List.mem_singleton.mp hm

/-- Threshold one. A failed call trips the breaker; once the timeout is over the trial is
a stream that ends at once. It reports nothing, every call has ended, and the breaker
never admits anybody again. -/
theorem slot_lost :
    ∃ (h : History servedI Exn Bool) (p : Pool (breakerI.sum servedI) Exn Bool Clocked),
      Run (guarded servedI Exn) ⟨⟨.new 1 30, 0⟩, fun i =>
        (⟨.openai, "40.0"⟩ : ResilientAdapter).call (bif i then .stream ⟨"gpt-4o", [], none, .atMostOnce⟩
          else .complete ⟨"gpt-4o", [], none, .atMostOnce⟩)⟩ h p ∧
      (∀ i, ∃ o, p.threads i = .ofExcept o) ∧
      lefts (log true h) = [⟨.allow, .ok (true, 2)⟩] ∧
      p.world.breaker.state = .halfOpen ∧ p.world.breaker.trialInFlight = true ∧
      ∀ now, (p.world.breaker.allow now).1.1 = false := by
  have r₀ : Run (guarded servedI Exn) ⟨⟨.new 1 30, 0⟩, fun i : Bool =>
        (⟨.openai, "40.0"⟩ : ResilientAdapter).call (bif i then .stream ⟨"gpt-4o", [], none, .atMostOnce⟩
          else .complete ⟨"gpt-4o", [], none, .atMostOnce⟩)⟩ [] _ := .start
  have r₁ := r₀.answer false rfl (.ok (true, 0)) ⟨.new 1 30, 0⟩ ⟨rfl, rfl⟩
  have r₂ := r₁.answer false rfl (.error (.upstreamUnavailable "")) ⟨.new 1 30, 0⟩ rfl
  have r₃ := r₂.answer false rfl (.ok ()) ⟨⟨1, 30, .opened, 1, 0, false, 1⟩, 0⟩ ⟨rfl, rfl⟩
  have r₄ := r₃.wait ⟨⟨1, 30, .opened, 1, 0, false, 1⟩, 30⟩ ⟨by norm_num, rfl⟩
  have probe : (⟨1, 30, .opened, 1, 0, false, 1⟩ : CircuitBreaker).allow 30 =
      ((true, 2), ⟨1, 30, .halfOpen, 1, 0, true, 2⟩) := by decide +kernel
  have r₅ := r₄.answer true rfl _ _ (guarded_allow probe)
  have r₆ := r₅.answer true rfl (.ok .stop) ⟨⟨1, 30, .halfOpen, 1, 0, true, 2⟩, 30⟩ rfl
  have r₇ := r₆.answer true rfl (.ok ()) ⟨⟨1, 30, .halfOpen, 1, 0, true, 2⟩, 30⟩ rfl
  refine ⟨_, _, r₇, ?_, rfl, rfl, rfl, fun now => rfl⟩
  intro i
  cases i with
  | false => exact ⟨.error (.upstreamUnavailable ""), rfl⟩
  | true => exact ⟨.ok (), rfl⟩

end Relayix
