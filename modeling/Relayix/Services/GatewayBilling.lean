import Relayix.Services.GatewayComplete
import Relayix.Services.GatewayDrain
import Relayix.Services.GatewayStream

/-! What a committed stream bills.

`_drain` bills at two places: at the terminal response, before handing it over, and in its
handler, where a break in the stream carries a partial response. Either bill can fail, and its
exception then takes the place of what was under way. `Drains` lists what a drained stream can
be, with what it handed over and what it billed; the rest is read off it. -/
namespace Relayix
open Library
namespace GatewayService
variable {A : Interface} {apiKeyId : UUID}

/-- What the consumer was handed, and how it answered. -/
abbrev Handed := Trace (handoff ChatStreamEvent) Exn

/-- The bills of a run of the served generator. -/
abbrev bills (u : Trace ((A.sum recorderI).sum (handoff ChatStreamEvent)) Exn) : Records := rights (lefts u)

/-- The partial response that a break carries. -/
def salvaged : Exn → Option ChatResponse
  | .upstreamStreamInterrupted _ response => response
  | _ => none

/-- What the handler bills of an exception, and the exception that goes on. -/
inductive Interrupts (apiKeyId : UUID) (e : Exn) : Records → Exn → Prop where
  | unbilled : salvaged e = none → Interrupts apiKeyId e [] e
  | billed {r : ChatResponse} : salvaged e = some r →
      Interrupts apiKeyId e [⟨.record apiKeyId r, .ok ()⟩] e
  | unwritten {r : ChatResponse} (e' : Exn) : salvaged e = some r →
      Interrupts apiKeyId e [⟨.record apiKeyId r, .error e'⟩] e'

/-- A drained stream: what its source had left, what it handed over, what it billed, its end. -/
inductive Drains (apiKeyId : UUID) :
    Source Exn ChatStreamEvent → Handed → Records → Except Exn Unit → Prop where
  | dry : Drains apiKeyId .stop [] [] (.error AsyncError.raisedStop)
  | broke {e e' : Exn} {records : Records} : Interrupts apiKeyId e records e' →
      Drains apiKeyId (.raise e) [] records (.error e')
  | delta {c : String} {rest : Source Exn ChatStreamEvent} {handed : Handed} {records : Records}
      {o : Except Exn Unit} : Drains apiKeyId rest handed records o →
      Drains apiKeyId (.item (.delta c) rest) (⟨.delta c, .ok ()⟩ :: handed) records o
  | stopped {c : String} {rest : Source Exn ChatStreamEvent} {e e' : Exn} {records : Records} :
      Interrupts apiKeyId e records e' →
      Drains apiKeyId (.item (.delta c) rest) [⟨.delta c, .error e⟩] records (.error e')
  | unbilled {r : ChatResponse} {rest : Source Exn ChatStreamEvent} {e e' : Exn} {records : Records} :
      Interrupts apiKeyId e records e' →
      Drains apiKeyId (.item (.response r) rest) [] (⟨.record apiKeyId r, .error e⟩ :: records) (.error e')
  | answered {r : ChatResponse} {rest : Source Exn ChatStreamEvent} :
      Drains apiKeyId (.item (.response r) rest) [⟨.response r, .ok ()⟩] [⟨.record apiKeyId r, .ok ()⟩] (.ok ())
  | refused {r : ChatResponse} {rest : Source Exn ChatStreamEvent} {e e' : Exn} {records : Records} :
      Interrupts apiKeyId e records e' →
      Drains apiKeyId (.item (.response r) rest) [⟨.response r, .error e⟩]
        (⟨.record apiKeyId r, .ok ()⟩ :: records) (.error e')

/-! ### The drained generator -/

section Runs
variable {u : Trace ((A.sum recorderI).sum (handoff ChatStreamEvent)) Exn} {o : Except Exn Unit}

theorem interrupts_of_ends {e : Exn} (h : Ends (interrupted apiKeyId e : Served A) u o) :
    ∃ records e', u = (records.map Event.inr).map Event.inl ∧ o = .error e' ∧
      Interrupts apiKeyId e records e' := by
  cases e with
  | upstreamStreamInterrupted message salvage =>
    cases salvage with
    | none =>
      obtain ⟨rfl, rfl⟩ := ends_raise.mp h
      exact ⟨[], _, rfl, rfl, .unbilled rfl⟩
    | some r =>
      obtain ⟨a, hbill, rfl⟩ := ends_bind_raise.mp h
      obtain ⟨s, rfl, hs⟩ := ends_inl.mp hbill
      obtain rfl := ends_perform.mp hs
      cases a with
      | ok _ => exact ⟨[⟨.record apiKeyId r, .ok ()⟩], _, rfl, rfl, .billed rfl⟩
      | error e' => exact ⟨[⟨.record apiKeyId r, .error e'⟩], _, rfl, rfl, .unwritten e' rfl⟩
  | _ =>
    obtain ⟨rfl, rfl⟩ := ends_raise.mp h
    exact ⟨[], _, rfl, rfl, .unbilled rfl⟩

/-- The finaliser of a dropped generator raises nothing. -/
theorem finalise_ends {k : Except Exn Unit → Gen A Exn ChatStreamEvent Unit}
    (h : Ends ((Gen.finalise k).inl.inl : Served A) u o) :
    ∃ s : Trace A Exn, u = (s.map Event.inl).map Event.inl ∧ o = .ok () := by
  obtain ⟨s', rfl, hs'⟩ := ends_inl.mp h
  obtain ⟨s, rfl, hs⟩ := ends_inl.mp hs'
  refine ⟨s, rfl, ?_⟩
  rcases ends_tryExcept.mp hs with ⟨_, ho, _⟩ | ⟨_, _, _, _, _, hr⟩
  · exact ho
  · exact (ends_ret.mp hr).2

/-- Around a part that drops the adapter's generator, its outcome and its bills are its own. -/
theorem finalised_ends {p : Served A} {k : Except Exn Unit → Gen A Exn ChatStreamEvent Unit}
    (h : Ends (p.tryFinally (Gen.finalise k).inl.inl) u o) :
    ∃ u', Ends p u' o ∧ rights u = rights u' ∧ bills u = bills u' := by
  obtain ⟨r, v₁, v₂, rfl, hp, hf⟩ := ends_tryFinally.mp h
  rcases hf with ⟨hf, rfl⟩ | ⟨x, hf, _⟩
  · obtain ⟨s, rfl, _⟩ := finalise_ends hf
    refine ⟨v₁, hp, ?_, ?_⟩
    · rw [rights_append, rights_map_inl, List.append_nil]
    · show rights (lefts (v₁ ++ (s.map Event.inl).map Event.inl)) = _
      rw [lefts_append, lefts_map_inl, rights_append, rights_map_inl, List.append_nil]
  · obtain ⟨_, _, hx⟩ := finalise_ends hf
    cases hx

/-- One turn of `_drain`: a delta is taken and it goes on with the rest, or it ends here. -/
theorem emit_ends {event : ChatStreamEvent} {k : Except Exn Unit → Gen A Exn ChatStreamEvent Unit}
    {rest : Served A} (h : Ends (emit apiKeyId event k rest) u o) :
    (∃ c u', event = .delta c ∧ u = ⟨.inr (.delta c), .ok ()⟩ :: u' ∧ Ends rest u' o) ∨
      ∀ source, Drains apiKeyId (.item event source) (rights u) (bills u) o := by
  cases event with
  | delta c =>
    obtain ⟨a, u₁, u₂, rfl, hy, hr⟩ := ends_attempt_bind.mp h
    obtain rfl := ends_perform.mp hy
    cases a with
    | ok _ => exact .inl ⟨c, u₂, rfl, rfl, hr⟩
    | error e =>
      right
      intro source
      obtain ⟨u', hi, hrights, hbills⟩ := finalised_ends hr
      obtain ⟨records, e', rfl, rfl, hint⟩ := interrupts_of_ends hi
      have hhanded : rights ([⟨.inr (.delta c), .error e⟩] ++ u₂ :
          Trace ((A.sum recorderI).sum (handoff ChatStreamEvent)) Exn) = [⟨.delta c, .error e⟩] := by
        rw [rights_append, hrights, rights_map_inl]
        rfl
      have hbilled : bills ([⟨.inr (.delta c), .error e⟩] ++ u₂ :
          Trace ((A.sum recorderI).sum (handoff ChatStreamEvent)) Exn) = records := by
        show bills u₂ = _
        rw [hbills]
        show rights (lefts ((records.map Event.inr).map Event.inl)) = _
        rw [lefts_map_inl, rights_map_inr]
      rw [hhanded, hbilled]
      exact .stopped hint
  | response r =>
    right
    intro source
    obtain ⟨u', hi, hrights, hbills⟩ := finalised_ends h
    rw [hrights, hbills]
    have handled : ∀ {e : Exn} {v : Trace ((A.sum recorderI).sum (handoff ChatStreamEvent)) Exn},
        Ends (interrupted apiKeyId e : Served A) v o →
        ∃ e', o = .error e' ∧ rights v = [] ∧ Interrupts apiKeyId e (bills v) e' := by
      intro e v hv
      obtain ⟨records, e', rfl, rfl, hint⟩ := interrupts_of_ends hv
      refine ⟨e', rfl, rights_map_inl _, ?_⟩
      show Interrupts apiKeyId e (rights (lefts ((records.map Event.inr).map Event.inl))) e'
      rw [lefts_map_inl, rights_map_inr]
      exact hint
    rcases ends_tryExcept.mp hi with ⟨_, rfl, hok⟩ | ⟨e, v₁, v₂, rfl, hran, hhandler⟩
    · rcases ends_bind.mp hok with ⟨_, w₁, w₂, rfl, hrec, hy⟩ | ⟨e, he, _⟩
      · obtain rfl := ends_perform_inl.mp hrec
        obtain rfl := ends_perform.mp hy
        exact .answered
      · cases he
    · obtain ⟨e', rfl, hno, hint⟩ := handled hhandler
      rcases ends_bind.mp hran with ⟨_, w₁, w₂, rfl, hrec, hy⟩ | ⟨x, he, hrec⟩
      · obtain rfl := ends_perform_inl.mp hrec
        obtain rfl := ends_perform.mp hy
        have hhanded : rights ([⟨.inl (.inr (.record apiKeyId r)), .ok ()⟩] ++ [⟨.inr (.response r), .error e⟩] ++ v₂ :
            Trace ((A.sum recorderI).sum (handoff ChatStreamEvent)) Exn) = ⟨.response r, .error e⟩ :: rights v₂ := rfl
        rw [hhanded, hno]
        exact .refused hint
      · cases he
        obtain rfl := ends_perform_inl.mp hrec
        have hhanded : rights ([⟨.inl (.inr (.record apiKeyId r)), .error e⟩] ++ v₂ :
            Trace ((A.sum recorderI).sum (handoff ChatStreamEvent)) Exn) = rights v₂ := rfl
        rw [hhanded, hno]
        exact .unbilled hint

theorem interrupted_drains {e : Exn} (h : Ends (interrupted apiKeyId e : Served A) u o) :
    Drains apiKeyId (.raise e) (rights u) (bills u) o := by
  obtain ⟨records, e', rfl, rfl, hint⟩ := interrupts_of_ends h
  have hbilled : bills ((records.map Event.inr).map Event.inl :
      Trace ((A.sum recorderI).sum (handoff ChatStreamEvent)) Exn) = records := by
    show rights (lefts ((records.map Event.inr).map Event.inl)) = _
    rw [lefts_map_inl, rights_map_inr]
  rw [rights_map_inl, hbilled]
  exact .broke hint

/-- A source's stream, drained. -/
theorem forward_drains {source : Source Exn ChatStreamEvent}
    (h : Ends (forward apiKeyId (Gen.replay source : Gen A Exn ChatStreamEvent Unit)) u o) :
    Drains apiKeyId source (rights u) (bills u) o := by
  induction source generalizing u with
  | item event rest ih =>
    rcases emit_ends h with ⟨c, u', rfl, rfl, hr⟩ | hdone
    · exact .delta (ih hr)
    · exact hdone rest
  | raise e => exact interrupted_drains h
  | stop =>
    obtain ⟨rfl, rfl⟩ := ends_raise.mp h
    exact .dry

/-- Any generator, drained: some source would have given what it gave. -/
theorem forward_some_drains {g : Gen A Exn ChatStreamEvent Unit} (h : Ends (forward apiKeyId g) u o) :
    ∃ source, Drains apiKeyId source (rights u) (bills u) o := by
  induction g generalizing u with
  | ret a =>
    obtain ⟨rfl, rfl⟩ := ends_raise.mp h
    exact ⟨_, .dry⟩
  | raise e => exact ⟨_, interrupted_drains h⟩
  | await c k ih =>
    cases c with
    | inl c =>
      obtain ⟨a, rest, rfl, hr⟩ := ends_await.mp h
      obtain ⟨source, hd⟩ := ih a hr
      exact ⟨source, hd⟩
    | inr event =>
      rcases emit_ends h with ⟨c, u', rfl, rfl, hr⟩ | hdone
      · obtain ⟨source, hd⟩ := ih _ hr
        exact ⟨_, .delta hd⟩
      · exact ⟨_, hdone .stop⟩

theorem interrupted_mute (e : Exn) : Mute (interrupted apiKeyId e : Served A) := by
  cases e with
  | upstreamStreamInterrupted message salvage =>
    cases salvage with
    | none => trivial
    | some r => exact (mute_inl _).bind (fun _ _ _ => trivial) (fun _ _ _ => trivial)
  | _ => trivial

theorem finalised_mute {p : Served A} (hp : Mute p) (k : Except Exn Unit → Gen A Exn ChatStreamEvent Unit) :
    Mute (p.tryFinally (Gen.finalise k).inl.inl) :=
  hp.tryFinally fun _ _ _ => mute_inl _

/-- Not a command of the recorder. -/
def Unrecorded : ((A.sum recorderI).sum (handoff ChatStreamEvent)).Cmd → Prop
  | .inl (.inl _) => True
  | .inl (.inr _) => False
  | .inr _ => True

/-- Closed at a delta, `_drain` drops the adapter's generator and bills nothing. -/
theorem dropped_unbilled {k : Except Exn Unit → Gen A Exn ChatStreamEvent Unit} {v : Trace (A.sum recorderI) Exn}
    (h : Ends (Gen.closing ((Prog.raise Exn.generatorExit : Served A).tryFinally (Gen.finalise k).inl.inl)) v o) :
    rights v = [] := by
  have dropped : ((Prog.raise Exn.generatorExit : Served A).tryFinally (Gen.finalise k).inl.inl).Asks Unrecorded := by
    refine Prog.Asks.tryFinally trivial ?_
    exact Prog.Asks.inl (Prog.Asks.inl (Prog.Asks.of_forall (fun _ => trivial) _))
  refine List.eq_nil_iff_forall_not_mem.mpr fun e he => ?_
  exact (closing_asks dropped).reaches h _ (mem_of_mem_rights he)

/-- What gives no more items is not suspended at one. -/
theorem mute_reaches {p : Served A} (hp : Mute p) {event : ChatStreamEvent} {k : Except Exn Unit → Served A} :
    ¬ Reaches p u (.await (.inr event) k) :=
  fun h => (hp.reaches h fun _ _ => trivial).1

/-- A drained stream suspended at an item: what came before, and for a delta, that nothing was
billed and that closing it there bills nothing. -/
theorem forward_reaches {g : Gen A Exn ChatStreamEvent Unit} {event : ChatStreamEvent}
    {k : Except Exn Unit → Served A} (h : Reaches (forward apiKeyId g) u (.await (.inr event) k)) :
    (∀ x ∈ rights u, ∃ c, x = ⟨.delta c, .ok ()⟩) ∧
      ((∃ c, event = .delta c) → bills u = [] ∧ ∀ v x, Ends (Gen.aclose k) v x → rights v = []) := by
  induction g generalizing u with
  | ret a => cases (reaches_raise.mp h).2
  | raise e => exact absurd h (mute_reaches (interrupted_mute e))
  | await c k' ih =>
    cases c with
    | inl c =>
      obtain ⟨_, hq⟩ | ⟨a, rest, rfl, hr⟩ := reaches_await.mp h
      · cases hq
      · have hrest := ih a hr
        exact hrest
    | inr event' =>
      cases event' with
      | delta c =>
        obtain ⟨rfl, hq⟩ | ⟨a, rest, rfl, hr⟩ := reaches_await.mp h
        · cases hq
          exact ⟨fun _ hx => absurd hx List.not_mem_nil, fun _ => ⟨rfl, fun v x hv => dropped_unbilled hv⟩⟩
        · cases a with
          | ok _ =>
            obtain ⟨hdeltas, hheld⟩ := ih _ hr
            exact ⟨List.forall_mem_cons.mpr ⟨⟨c, rfl⟩, hdeltas⟩, hheld⟩
          | error e => exact absurd hr (mute_reaches (finalised_mute (interrupted_mute e) k'))
      | response r =>
        obtain ⟨_, hq⟩ | ⟨a, rest, rfl, hr⟩ := reaches_await.mp h
        · cases hq
        · cases a with
          | ok _ =>
            obtain ⟨rfl, hq⟩ | ⟨a, later, rfl, hl⟩ := reaches_await.mp hr
            · cases hq
              exact ⟨fun _ hx => absurd hx List.not_mem_nil, fun ⟨c, hc⟩ => by cases hc⟩
            · cases a with
              | ok _ => exact absurd hl (mute_reaches (finalised_mute (p := .ret ()) trivial k'))
              | error e => exact absurd hl (mute_reaches (finalised_mute (interrupted_mute e) k'))
          | error e => exact absurd hr (mute_reaches (finalised_mute (interrupted_mute e) k'))

end Runs

/-! ### The promise of the stream contract -/

/-- The stream contract: deltas, then the terminal response or a break. -/
inductive Contract : Source Exn ChatStreamEvent → Prop where
  | delta (c : String) {rest : Source Exn ChatStreamEvent} : Contract rest → Contract (.item (.delta c) rest)
  | response (r : ChatResponse) : Contract (.item (.response r) .stop)
  | interrupted (message : String) (salvage : Option ChatResponse) :
      Contract (.raise (.upstreamStreamInterrupted message salvage))

/-- The terminal response that a source comes to. -/
def terminal : Source Exn ChatStreamEvent → Option ChatResponse
  | .item (.delta _) rest => terminal rest
  | .item (.response r) _ => some r
  | .raise _ => none
  | .stop => none

/-- `except UpstreamStreamInterrupted` -/
def isInterruption : Exn → Bool
  | .upstreamStreamInterrupted _ _ => true
  | _ => false

/-- What is promised of the generator that `stream` returns: it only fails interrupted, and a
terminal response that was reached is delivered. -/
structure Promised (source : Source Exn ChatStreamEvent) (handed : Handed) (o : Except Exn Unit) : Prop where
  fails : ∀ e, o = .error e → isInterruption e = true
  delivers : ∀ r, terminal source = some r → ⟨.response r, .ok ()⟩ ∈ handed

/-- A bill failed where its exception shows: at the terminal response, or at a partial one
with an exception that is no interruption itself. -/
def Unpaid (source : Source Exn ChatStreamEvent) (records : Records) : Prop :=
  ∃ x ∈ records, ∃ e, x.answer = .error e ∧ (terminal source = none → isInterruption e = false)

theorem promised_delta {c : String} {rest : Source Exn ChatStreamEvent} {handed : Handed} {o : Except Exn Unit} :
    Promised (.item (.delta c) rest) (⟨.delta c, .ok ()⟩ :: handed) o ↔ Promised rest handed o := by
  constructor
  · intro h
    refine ⟨h.fails, fun r hr => ?_⟩
    rcases List.mem_cons.mp (h.delivers r hr) with he | hmem
    · cases he
    · exact hmem
  · exact fun h => ⟨h.fails, fun r hr => List.mem_cons_of_mem _ (h.delivers r hr)⟩

theorem not_unpaid {source : Source Exn ChatStreamEvent} {records : Records}
    (h : ∀ x ∈ records, x.answer = .ok ()) : ¬ Unpaid source records := by
  rintro ⟨x, hx, e, he, _⟩
  rw [h x hx] at he
  cases he

theorem Drains.promised_iff {source : Source Exn ChatStreamEvent} {handed : Handed} {records : Records}
    {o : Except Exn Unit} (h : Drains apiKeyId source handed records o) (hc : Contract source)
    (htaken : ∀ x ∈ handed, x.answer = .ok ()) : Promised source handed o ↔ ¬ Unpaid source records := by
  induction h with
  | dry => cases hc
  | @broke e e' records hint =>
    obtain _ | _ | ⟨message, salvage⟩ := hc
    have promised : isInterruption e' = true → Promised (.raise (.upstreamStreamInterrupted message salvage)) []
        (.error e') := by
      intro he
      refine ⟨fun x hx => ?_, fun r hr => ?_⟩
      · cases hx
        exact he
      · cases hr
    cases hint with
    | unbilled hs => exact iff_of_true (promised rfl) (not_unpaid fun _ hx => absurd hx List.not_mem_nil)
    | billed hs => exact iff_of_true (promised rfl) (not_unpaid (List.forall_mem_singleton.mpr rfl))
    | unwritten e' hs =>
      constructor
      · rintro h ⟨x, hx, e, he, hno⟩
        obtain rfl := List.mem_singleton.mp hx
        cases he
        have hyes := h.fails _ rfl
        rw [hno rfl] at hyes
        cases hyes
      · intro h
        apply promised
        by_contra he
        exact h ⟨_, List.mem_cons_self, e', rfl, fun _ => Bool.eq_false_iff.mpr he⟩
  | delta _ ih =>
    obtain ⟨_, hc⟩ | _ | _ := hc
    rw [promised_delta, ih hc (List.forall_mem_cons.mp htaken).2]
    rfl
  | stopped _ => cases (List.forall_mem_cons.mp htaken).1
  | unbilled _ =>
    refine iff_of_false (fun h => ?_) (not_not_intro ⟨_, List.mem_cons_self, _, rfl, fun hno => ?_⟩)
    · exact absurd (h.delivers _ rfl) List.not_mem_nil
    · cases hno
  | @answered r rest =>
    refine iff_of_true ⟨fun _ he => ?_, fun r' hr => ?_⟩ (not_unpaid (List.forall_mem_singleton.mpr rfl))
    · cases he
    · cases hr
      exact List.mem_cons_self
  | refused _ => cases (List.forall_mem_cons.mp htaken).1

section Opaque
variable {registered : ProviderEnum → Bool}
  {completes : ProviderEnum → ChatRequest → Prog streamingI Exn ChatResponse}
  {candidatesFor : String → Except Exn (List Candidate)} {request : ChatRequest}

/-- What `stream` returns drains the last stream that it opened. -/
theorem streamed_commits {t : Trace (streamingI.sum recorderI) Exn} {served : Served streamingI}
    (h : Ends ((streamed registered completes candidatesFor).stream request apiKeyId) t (.ok served)) :
    ∃ pre asked source, lefts t = pre ++ [⟨asked, .ok source⟩] ∧
      served = forward apiKeyId (Gen.replay source) := by
  obtain ⟨candidate, adapter, t₁, t₂, rfl, hc⟩ := stream_commits h
  obtain ⟨event, streamIter, hfirst, rfl⟩ := hc.first
  obtain ⟨_, hadapter⟩ := Option.ite_none_right_eq_some.mp hc.registered
  obtain rfl := Option.some.inj hadapter
  obtain ⟨a, rfl, hopened⟩ := first_ends hfirst
  cases a with
  | error e => cases hopened
  | ok source =>
    refine ⟨lefts t₁, _, source, by rw [lefts_append]; rfl, ?_⟩
    cases source with
    | item event' rest =>
      cases hopened
      rfl
    | raise e => cases hopened
    | stop => cases hopened

/-- **A failed bill, and nothing else, breaks the promise.** Whatever `stream` returns drains
the stream of a candidate. If that one honours the contract and the consumer takes all it is
handed, the generator fails only as interrupted and delivers the terminal response, exactly if
no bill failed where its exception shows. -/
theorem promised_iff_paid {t : Trace (streamingI.sum recorderI) Exn} {served : Served streamingI}
    (h : Ends ((streamed registered completes candidatesFor).stream request apiKeyId) t (.ok served)) :
    ∃ pre asked source, lefts t = pre ++ [⟨asked, .ok source⟩] ∧
      (Contract source → ∀ u o, Ends served u o → (∀ x ∈ rights u, x.answer = .ok ()) →
        (Promised source (rights u) o ↔ ¬ Unpaid source (bills u))) := by
  obtain ⟨pre, asked, source, ht, rfl⟩ := streamed_commits h
  exact ⟨pre, asked, source, ht, fun hc u o hu htaken => (forward_drains hu).promised_iff hc htaken⟩

end Opaque

/-! ### The consumer that hangs up -/

/-- The exceptions by which a consumer's leaving reaches a generator: `GeneratorExit` where it is
closed at an item, `CancelledError` where it is cancelled. -/
def Leaving (e : Exn) : Prop := e = .generatorExit ∨ e = .cancelledError

theorem Leaving.unsalvaged {e : Exn} (h : Leaving e) : salvaged e = none := by
  rcases h with rfl | rfl <;> rfl

/-- The bills that were written. -/
def saved (records : Records) : Records := records.filter fun x => x.answer.isOk

/-- Exactly one usage record was saved. -/
def Charged (records : Records) : Prop := (saved records).length = 1

/-- The consumer got some deltas, and nothing else. -/
structure Partway (handed : Handed) : Prop where
  received : handed ≠ []
  deltas : ∀ x ∈ handed, ∃ c, x.cmd = .delta c

theorem not_charged {records : Records} (h : saved records = []) : ¬ Charged records := by
  rw [Charged, h]
  decide

theorem Interrupts.unsaved {e e' : Exn} {records : Records} (h : Interrupts apiKeyId e records e')
    (he : Leaving e') : saved records = [] := by
  cases h with
  | unbilled _ => rfl
  | billed hr =>
    rw [he.unsalvaged] at hr
    cases hr
  | unwritten _ _ => rfl

/-- Left partway, a drained stream has saved nothing. -/
theorem Drains.unsaved {source : Source Exn ChatStreamEvent} {handed : Handed} {records : Records}
    {o : Except Exn Unit} {e : Exn} (h : Drains apiKeyId source handed records o)
    (hdeltas : ∀ x ∈ handed, ∃ c, x.cmd = .delta c) (ho : o = .error e) (he : Leaving e) : saved records = [] := by
  induction h with
  | dry => rfl
  | broke hint =>
    cases ho
    exact hint.unsaved he
  | delta _ ih => exact ih (List.forall_mem_cons.mp hdeltas).2 ho
  | stopped hint =>
    cases ho
    exact hint.unsaved he
  | unbilled hint =>
    cases ho
    exact hint.unsaved he
  | answered =>
    obtain ⟨c, hc⟩ := hdeltas _ List.mem_cons_self
    cases hc
  | refused _ =>
    obtain ⟨c, hc⟩ := hdeltas _ List.mem_cons_self
    cases hc

section Trial

def trialAnswer : ChatResponse := ⟨.openai, "gpt-4o-2026", "hi", 1, 1, "stop", "r"⟩

def trialSource : Source Exn ChatStreamEvent := .item (.delta "hi") (.item (.response trialAnswer) .stop)

/-- One provider, whose stream is opened once. -/
def trialStreamed : GatewayService streamingI :=
  streamed (fun p => p = .openai) (fun _ _ => .raise .cancelledError) fun _ => .ok [⟨.openai, "gpt-4o"⟩]

def trialOpening : Trace (streamingI.sum recorderI) Exn :=
  [⟨.inl (.openai, ⟨"gpt-4o", [], none, .atMostOnce⟩), .ok trialSource⟩]

/-- The stream that is committed to. -/
abbrev trialServed : Served streamingI := forward ⟨7⟩ (Gen.replay trialSource)

theorem trialStreamed_commits :
    Ends (trialStreamed.stream ⟨"default", [], none, .atMostOnce⟩ ⟨7⟩) trialOpening (.ok trialServed) :=
  .step _ (.refl _)

theorem trialSource_contract : Contract trialSource := .delta _ (.response _)

/-- A delta and the terminal response, billed and taken. -/
theorem promised_iff_paid_trial : Promised trialSource [⟨.delta "hi", .ok ()⟩, ⟨.response trialAnswer, .ok ()⟩]
    (.ok ()) := by
  have hu : Ends trialServed [⟨.inr (.delta "hi"), .ok ()⟩, ⟨.inl (.inr (.record ⟨7⟩ trialAnswer)), .ok ()⟩,
      ⟨.inr (.response trialAnswer), .ok ()⟩] (.ok ()) := .step _ (.step _ (.step _ (.refl _)))
  obtain ⟨pre, asked, source, ht, hall⟩ := promised_iff_paid trialStreamed_commits
  obtain rfl : trialSource = source := by
    have hlast := congrArg List.getLast? ht
    rw [List.getLast?_append, List.getLast?_singleton] at hlast
    cases hlast
    rfl
  refine (hall trialSource_contract _ _ hu ?_).mpr (not_unpaid (List.forall_mem_singleton.mpr rfl))
  exact List.forall_mem_cons.mpr ⟨rfl, List.forall_mem_singleton.mpr rfl⟩

/-- The provider's name for the model has no rate: the terminal response was reached, and
instead of it the consumer gets the recorder's exception. -/
theorem answer_not_delivered :
    ∃ u o, Ends (trialStreamed.stream ⟨"default", [], none, .atMostOnce⟩ ⟨7⟩) trialOpening (.ok trialServed) ∧
      Contract trialSource ∧ Ends trialServed u o ∧ (∀ x ∈ rights u, x.answer = .ok ()) ∧
      o = .error (.pricingRateNotFound "No pricing rate in effect") ∧ ¬ Promised trialSource (rights u) o := by
  refine ⟨[⟨.inr (.delta "hi"), .ok ()⟩, ⟨.inl (.inr (.record ⟨7⟩ trialAnswer)),
      .error (.pricingRateNotFound "No pricing rate in effect")⟩], _, trialStreamed_commits, trialSource_contract,
    .step _ (.step _ (.refl _)), List.forall_mem_singleton.mpr rfl, rfl, fun h => ?_⟩
  cases h.fails _ rfl

end Trial
end GatewayService
end Relayix
