import Relayix.Services.GatewayBilling
import Relayix.Services.IdempotencySettle

/-! A served stream inside the idempotency service.

`_settle` forwards what `_drain` forwards, so a stream has one more generator between the
adapter and the consumer. `Leaves` says how the loop of `_settle` is left, for any operation:
it has run smoothly up to a point, and there the operation ended, or the stream broke at an
item. What `_drain` billed by then is known from the gateway alone. -/
namespace Relayix
open Library
namespace IdempotencyService
open GatewayService (Leaving Served bills forward)
variable {J : Interface} {self : IdempotencyService} {apiKeyId : UUID} {key fingerprint : String}

/-! ### How a settled stream is left -/

/-- Everything handed over was taken, and everything asked of the store was answered. -/
structure Smooth (s : Settling J) : Prop where
  taken : ∀ x ∈ rights s, x.answer = .ok ()
  stored : ∀ x ∈ asked s, ∃ b, x.answer = .ok b

/-- The rest of a run of `_settle` after the smooth part of it, of which the operation was told
`done`: the operation ends, and a failure is recorded, or the stream breaks at an item. -/
inductive Leaves (service : IdempotencyService) (apiKeyId : UUID) (key fingerprint : String)
    (primed : Gen J Exn ChatStreamEvent Unit) (done : Trace (J.sum (handoff ChatStreamEvent)) Exn) :
    Settling J → Except Exn Unit → Prop where
  | returned : Ends primed done (.ok ()) → Leaves service apiKeyId key fingerprint primed done [] (.ok ())
  | broken {e e' : Exn} {a : Except Exn Bool} : Ends primed done (.error e) → (∀ b, a = .ok b → e' = e) →
      Leaves service apiKeyId key fingerprint primed done
        [service.writes apiKeyId key (.parked fingerprint e.str) a] (.error e')
  | stopped {event : ChatStreamEvent} {k : Except Exn Unit → Gen J Exn ChatStreamEvent Unit} {s : Settling J}
      {e e' : Exn} {a : Except Exn Bool} {u : Trace J Exn} {x : Except Exn Unit} :
      Reaches primed done (.await (.inr event) k) → service.Passes apiKeyId key fingerprint event s (.error e) →
      Ends (Gen.aclose k) u x →
      Leaves service apiKeyId key fingerprint primed done
        (s ++ service.writes apiKeyId key (.parked fingerprint e.str) a :: (u.map Event.inr).map Event.inl)
        (.error e')

/-- The same end, seen from an earlier point of the operation. -/
theorem Leaves.earlier {primed primed' : Gen J Exn ChatStreamEvent Unit}
    {done done' : Trace (J.sum (handoff ChatStreamEvent)) Exn} {s : Settling J} {o : Except Exn Unit}
    (h : self.Leaves apiKeyId key fingerprint primed' done' s o)
    (hlater : ∀ q, Reaches primed' done' q → Reaches primed done q) :
    self.Leaves apiKeyId key fingerprint primed done s o := by
  cases h with
  | returned hends => exact .returned (hlater _ hends)
  | broken hends he => exact .broken (hlater _ hends) he
  | stopped hreach hpass hclose => exact .stopped (hlater _ hreach) hpass hclose

theorem settle_left {primed : Gen J Exn ChatStreamEvent Unit} {s : Settling J} {o : Except Exn Unit}
    (h : Ends (self.settle apiKeyId key fingerprint primed) s o) :
    ∃ s₁ s₂, s = s₁ ++ s₂ ∧ Smooth s₁ ∧ self.Leaves apiKeyId key fingerprint primed (operated s₁) s₂ o := by
  have smooth : Smooth ([] : Settling J) :=
    ⟨fun _ hx => absurd hx List.not_mem_nil, fun _ hx => absurd hx List.not_mem_nil⟩
  induction primed generalizing s with
  | ret a =>
    obtain ⟨rfl, rfl⟩ := ends_ret.mp h
    exact ⟨[], [], rfl, smooth, .returned (.refl _)⟩
  | raise e =>
    obtain ⟨a, e', rfl, rfl, he⟩ := broken_ends h
    exact ⟨[], _, rfl, smooth, .broken (.refl _) he⟩
  | await c k ih =>
    cases c with
    | inl c =>
      obtain ⟨a, rest, rfl, hr⟩ := ends_await.mp h
      obtain ⟨s₁, s₂, rfl, hs, hleft⟩ := ih a hr
      refine ⟨⟨.inl (.inr c), a⟩ :: s₁, s₂, rfl, ⟨hs.taken, hs.stored⟩, hleft.earlier fun q hq => ?_⟩
      exact reaches_await.mpr (.inr ⟨a, _, rfl, hq⟩)
    | inr event =>
      rcases turn_ends h with ⟨v, rest, rfl, hp, hr⟩ | ⟨v, e, a, u, x, rfl, hp, hclose, e', rfl⟩
      · obtain ⟨s₁, s₂, rfl, hs, hleft⟩ := ih _ hr
        refine ⟨v ++ s₁, s₂, (List.append_assoc ..).symm, ?_, ?_⟩
        · cases hp with
          | delta c => exact ⟨List.forall_mem_cons.mpr ⟨rfl, hs.taken⟩, hs.stored⟩
          | stored r b =>
            exact ⟨List.forall_mem_cons.mpr ⟨rfl, hs.taken⟩, List.forall_mem_cons.mpr ⟨⟨b, rfl⟩, hs.stored⟩⟩
        · refine hleft.earlier fun q hq => ?_
          cases hp with
          | delta c => exact .step _ hq
          | stored r b => exact .step _ hq
      · exact ⟨[], _, rfl, smooth, .stopped (.refl _) hp hclose⟩

/-! ### The consumer that hangs up -/

/-- The consumer of a settled stream hangs up: closed at an item, or cancelled inside the
operation. -/
def HangsUp (primed : Gen J Exn ChatStreamEvent Unit) (s : Settling J) : Prop :=
  (∃ x ∈ rights s, ∃ e, x.answer = .error e ∧ Leaving e) ∨
    ∃ e, Ends primed (operated s) (.error e) ∧ Leaving e

section HangsUp
variable {A : Interface}

/-- What the operation was told of a run, in two parts. -/
theorem operated_append (s₁ s₂ : Settling J) : operated (s₁ ++ s₂) = operated s₁ ++ operated s₂ := by
  rw [operated, regroup_append, rights_append]

theorem rights_operated (s : Settling J) : rights (operated s) = rights s := rights_rights_regroup s

/-- What it was told while it was closed. -/
theorem operated_closed (u : Trace J Exn) :
    operated ((u.map Event.inr).map Event.inl : Settling J) = u.map Event.inl := by
  induction u with
  | nil => rfl
  | cons e u ih => exact congrArg (_ :: ·) ih

/-- Closed at a delta, or cancelled partway, a settled stream has saved nothing. -/
theorem settled_unsaved {g : Gen A Exn ChatStreamEvent Unit} {s : Settling (A.sum recorderI)}
    {o : Except Exn Unit} (h : Ends (self.settle apiKeyId key fingerprint (forward apiKeyId g)) s o)
    (hdeltas : ∀ x ∈ rights s, ∃ c, x.cmd = .delta c) (hup : HangsUp (forward apiKeyId g) s) :
    GatewayService.saved (bills (operated s)) = [] := by
  obtain ⟨x, hx, e, he, _⟩ | ⟨e, hends, he⟩ := hup
  · obtain ⟨s₁, s₂, rfl, hsmooth, hleft⟩ := settle_left h
    rw [rights_append] at hx hdeltas
    have hlate : x ∈ rights s₂ := by
      refine (List.mem_append.mp hx).resolve_left fun hmem => ?_
      rw [hsmooth.taken x hmem] at he
      cases he
    cases hleft with
    | returned _ => exact absurd hlate List.not_mem_nil
    | broken _ _ => exact absurd hlate List.not_mem_nil
    | @stopped event k s e e' a u _ hreach hpass hclose =>
      cases hpass with
      | refused =>
        have hdelta := hdeltas ⟨event, .error e⟩ (List.mem_append_right _ List.mem_cons_self)
        obtain ⟨_, hheld⟩ := GatewayService.forward_reaches hreach
        obtain ⟨hbefore, hclosed⟩ := hheld hdelta
        have hafter : bills (operated ([⟨.inr event, .error e⟩] ++ self.writes apiKeyId key (.parked fingerprint e.str) a ::
            (u.map Event.inr).map Event.inl : Settling (A.sum recorderI))) = [] := by
          show bills (⟨.inr event, .error e⟩ :: operated ((u.map Event.inr).map Event.inl)) = []
          rw [operated_closed]
          show rights (lefts (u.map Event.inl)) = []
          rw [lefts_map_inl]
          exact hclosed u _ hclose
        have hnone : bills (operated (s₁ ++ ([⟨.inr event, .error e⟩] ++
            self.writes apiKeyId key (.parked fingerprint e.str) a :: (u.map Event.inr).map Event.inl))) = [] := by
          rw [operated_append, bills, lefts_append, rights_append]
          exact List.append_eq_nil_iff.mpr ⟨hbefore, hafter⟩
        rw [hnone]
        rfl
      | unstored r e =>
        obtain ⟨c, hc⟩ := hdeltas ⟨.response r, .ok ()⟩ (List.mem_append_right _ List.mem_cons_self)
        cases hc
  · obtain ⟨source, hd⟩ := GatewayService.forward_some_drains hends
    rw [rights_operated] at hd
    exact hd.unsaved hdeltas rfl he

/-- **Whoever hangs up is not charged**, with or without the idempotency service around the
stream: a consumer that got some deltas and leaves, by closing the generator or by being
cancelled in it, leaves no usage record behind. -/
theorem hangup_never_charged (gateway : GatewayService A) (request : ChatRequest) (apiKeyId : UUID) :
    (∀ t served, Ends (gateway.stream request apiKeyId) t (.ok served) →
      ∀ u e, Ends served u (.error e) → Leaving e → GatewayService.Partway (rights u) →
        ¬ GatewayService.Charged (bills u)) ∧
    ∀ (service : IdempotencyService) key t events,
      Ends (service.executeStream apiKeyId key request (gateway.stream request apiKeyId)) t (.ok events) →
      (∃ e ∈ lefts t, claimed e = true) →
      ∃ v served, Ends (gateway.stream request apiKeyId) v (.ok served) ∧
        events = service.settle apiKeyId key (service.fingerprint request) served ∧ ∀ s o, Ends events s o → HangsUp served s → GatewayService.Partway (rights s) →
          ¬ GatewayService.Charged (bills (operated s)) := by
  constructor
  · intro t served h u e hu he hpart
    obtain ⟨candidate, adapter, t₁, t₂, _, hc⟩ := GatewayService.stream_commits h
    obtain ⟨event, streamIter, _, rfl⟩ := hc.first
    have hdrained : Ends (forward apiKeyId (.await (.inr event) streamIter)) u (.error e) := hu
    obtain ⟨source, hd⟩ := GatewayService.forward_some_drains hdrained
    exact GatewayService.not_charged (hd.unsaved hpart.deltas rfl he)
  · intro service key t events h hacq
    obtain ⟨served, v, hv, rfl⟩ := executeStream_acquired h hacq
    obtain ⟨candidate, adapter, t₁, t₂, _, hc⟩ := GatewayService.stream_commits hv
    obtain ⟨event, streamIter, _, rfl⟩ := hc.first
    refine ⟨v, _, hv, rfl, fun s o hs hup hpart => GatewayService.not_charged ?_⟩
    exact settled_unsaved (g := .await (.inr event) streamIter) hs hpart.deltas hup

end HangsUp

section Trial
open GatewayService (trialServed trialSource trialStreamed)

/-- The stream of a fresh key, closed at its first delta. -/
structure ClosedAtDelta (events : Gen (redisI.sum (streamingI.sum recorderI)) Exn ChatStreamEvent Unit)
    (t : Trace (redisI.sum (streamingI.sum recorderI)) Exn) (s : Settling (streamingI.sum recorderI)) : Prop where
  returned : Ends (trialService.executeStream ⟨7⟩ "k1" trialRequest (trialStreamed.stream trialRequest ⟨7⟩)) t
    (.ok events)
  acquired : ∃ e ∈ lefts t, claimed e = true
  closed : Ends events s (.error .generatorExit)
  partway : GatewayService.Partway (rights s)
  left : ∃ x ∈ rights s, ∃ e, x.answer = .error e ∧ Leaving e

theorem closedAtDelta : ∃ events t, ClosedAtDelta events t
    [⟨.inr (.delta "hi"), .error .generatorExit⟩,
      trialService.writes ⟨7⟩ "k1" (.parked (trialService.fingerprint trialRequest) "") (.ok true)] :=
  ⟨_, [⟨.inl (.set (redisKey ⟨7⟩ "k1") (.claimed (trialService.fingerprint trialRequest)) true 120), .ok true⟩,
      ⟨.inr (.inl (.openai, trialRequest)), .ok trialSource⟩],
    .step _ (.step _ (.refl _)), ⟨_, List.mem_cons_self, rfl⟩, .step _ (.step _ (.refl _)),
    ⟨List.cons_ne_nil _ _, List.forall_mem_singleton.mpr ⟨"hi", rfl⟩⟩,
    ⟨_, List.mem_cons_self, .generatorExit, rfl, .inl rfl⟩⟩

theorem hangup_never_charged_closed : ¬ GatewayService.Charged (bills (operated
    [⟨.inr (.delta "hi"), .error .generatorExit⟩, trialService.writes (J := streamingI.sum recorderI) ⟨7⟩ "k1"
      (.parked (trialService.fingerprint trialRequest) "") (.ok true)])) := by
  obtain ⟨events, t, h⟩ := closedAtDelta
  have both := hangup_never_charged trialStreamed trialRequest ⟨7⟩
  obtain ⟨v, served, _, _, hall⟩ := both.2 trialService "k1" t events h.returned h.acquired
  exact hall _ _ h.closed (.inl h.left) h.partway

/-- A delta was read and the stream closed; no usage record was saved, with the wrapper or
without it. -/
theorem hangup_free :
    (∃ t u, Ends (trialStreamed.stream ⟨"default", [], none, .atMostOnce⟩ ⟨7⟩) t (.ok trialServed) ∧
      Ends trialServed u (.error .generatorExit) ∧ GatewayService.Partway (rights u) ∧
      ¬ GatewayService.Charged (bills u)) ∧
    ∃ events t s, ClosedAtDelta events t s ∧ ¬ GatewayService.Charged (bills (operated s)) := by
  constructor
  · exact ⟨_, [⟨.inr (.delta "hi"), .error .generatorExit⟩], GatewayService.trialStreamed_commits, .step _ (.refl _),
      ⟨List.cons_ne_nil _ _, List.forall_mem_singleton.mpr ⟨"hi", rfl⟩⟩, GatewayService.not_charged rfl⟩
  · obtain ⟨events, t, h⟩ := closedAtDelta
    exact ⟨events, t, _, h, GatewayService.not_charged rfl⟩

end Trial
end IdempotencyService
end Relayix
