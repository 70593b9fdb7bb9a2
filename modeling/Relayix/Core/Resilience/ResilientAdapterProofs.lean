import Relayix.Core.Resilience.CallersSafety
import Relayix.Core.Resilience.ResilientAdapter

/-! What a call through a `ResilientAdapter` tells its breaker.

A call is judged by the three parts of its trace: what it said to the breaker, what
it asked of the provider, how its consumer answered. `Settled` is one report for an
admission and silence for a rejection. Every `complete` is settled; a `stream` is,
except when the provider's stream runs out without a terminal response and the
consumer took all of it (`Plain`). -/
namespace Relayix
open Library

abbrev Calls := Trace breakerI Exn
abbrev Inner := Trace providerI Exn
abbrev Consumer := Trace (handoff ChatStreamEvent) Exn

/-- Admitted: one report, under the generation handed out. Rejected: `CircuitOpen`,
no report, and the provider untouched. -/
inductive Settled {α : Type} : Calls → Inner → Except Exn α → Prop where
  | admitted (generation : Nat) (x : Outcome) (inner : Inner) (o : Except Exn α) :
      Settled [⟨.allow, .ok (true, generation)⟩, ⟨.report x generation, .ok ()⟩] inner o
  | rejected (generation : Nat) (message : String) :
      Settled [⟨.allow, .ok (false, generation)⟩] [] (.error (.circuitOpen message))

/-- Deltas only, and then the plain end. -/
def bare : Source Exn ChatStreamEvent → Bool
  | .item (.delta _) rest => bare rest
  | .stop => true
  | _ => false

def Resumed (consumer : Consumer) : Prop := ∀ e ∈ consumer, e.answer = .ok ()

/-- The stream ends plainly and its consumer saw it through. -/
def Plain (source : Source Exn ChatStreamEvent) (consumer : Consumer) : Prop :=
  bare source = true ∧ Resumed consumer

/-- The call opened a stream that ended so. -/
def PlainEnd (inner : Inner) (consumer : Consumer) : Prop :=
  ∃ request a, (⟨.stream request, a⟩ : Event providerI Exn) ∈ inner ∧ Plain (opened a) consumer

/-! ### The parts of each command -/

section Parts
variable {t : Trace (adapterI.sum (handoff ChatStreamEvent)) Exn} {generation : Nat}

theorem ends_report {u : Trace adapterI Exn} {x : Outcome} {o : Except Exn Unit}
    (h : Ends (report x generation) u o) (hs : Steady (lefts u)) :
    o = .ok () ∧ lefts u = [⟨.report x generation, .ok ()⟩] ∧ rights u = [] := by
  obtain rfl := ends_perform.mp h
  obtain ⟨r, hr⟩ := hs _ List.mem_cons_self
  have ho : o = .ok () := hr
  subst ho
  exact ⟨rfl, rfl, rfl⟩

theorem ends_report_inl {x : Outcome} {o : Except Exn Unit}
    (h : Ends (report x generation : Prog adapterI Exn Unit).inl t o)
    (hs : Steady (lefts (lefts t))) :
    o = .ok () ∧ lefts (lefts t) = [⟨.report x generation, .ok ()⟩] ∧ rights (lefts t) = [] ∧
      rights t = [] := by
  obtain ⟨s, rfl, hr⟩ := ends_inl.mp h
  rw [lefts_map_inl] at hs ⊢
  obtain ⟨ho, hl, hr⟩ := ends_report hr hs
  exact ⟨ho, hl, hr, rights_map_inl s⟩

theorem ends_yield {y : ChatStreamEvent} {o : Except Exn Unit}
    (h : Ends (Gen.yield y : Gen adapterI Exn ChatStreamEvent Unit) t o) : t = [⟨.inr y, o⟩] :=
  ends_perform.mp h

end Parts

/-! ### The loop -/

namespace ResilientAdapter
variable {self : ResilientAdapter} {generation : Nat}
  {t : Trace (adapterI.sum (handoff ChatStreamEvent)) Exn} {o : Except Exn Unit}

/-- The loop reports success, or ends with an exception the handlers will report, or
the stream ended plainly and nobody reports anything. -/
theorem relay_ends {emittedAny : Bool} {source : Source Exn ChatStreamEvent}
    (h : Ends (self.relay generation emittedAny source) t o) (hs : Steady (lefts (lefts t))) :
    rights (lefts t) = [] ∧
      ((∃ e, o = .error e ∧ lefts (lefts t) = [] ∧ ¬ Plain source (rights t)) ∨
        (o = .ok () ∧ lefts (lefts t) = [⟨.report .success generation, .ok ()⟩] ∧
          ¬ Plain source (rights t)) ∨
        (o = .ok () ∧ lefts (lefts t) = [] ∧ Plain source (rights t))) := by
  induction source generalizing emittedAny t with
  | raise e =>
    have hend : Ends (.raise (if e.isTimeout then (if emittedAny then self.stalled else self.timedOut)
        else e)) t o := by
      unfold relay at h
      split at h
      · rw [if_pos ‹_›]
        exact h
      · rw [if_neg ‹_›]
        exact h
    obtain ⟨rfl, rfl⟩ := ends_raise.mp hend
    exact ⟨rfl, .inl ⟨_, rfl, rfl, fun hp => Bool.false_ne_true hp.1⟩⟩
  | stop =>
    obtain ⟨rfl, rfl⟩ := ends_ret.mp h
    exact ⟨rfl, .inr (.inr ⟨rfl, rfl, rfl, fun e he => by cases he⟩)⟩
  | item y rest ih =>
    cases y with
    | response r =>
      have hp : ∀ c, ¬ Plain (.item (.response r) rest) c := fun c hc => Bool.false_ne_true hc.1
      rcases ends_bind.mp h with ⟨_, t₁, t₂, rfl, hy, hr⟩ | ⟨e, rfl, hy⟩
      · rw [ends_yield hy] at hs ⊢
        obtain ⟨ho, hc, hi, _⟩ := ends_report_inl hr hs
        exact ⟨hi, .inr (.inl ⟨ho, hc, hp _⟩)⟩
      · rw [ends_yield hy]
        exact ⟨rfl, .inl ⟨e, rfl, rfl, hp _⟩⟩
    | delta c =>
      rcases ends_bind.mp h with ⟨_, t₁, t₂, rfl, hy, hr⟩ | ⟨e, rfl, hy⟩
      · rw [ends_yield hy] at hs ⊢
        have hplain : Plain (.item (.delta c) rest) (rights ([⟨.inr (.delta c), .ok ()⟩] ++ t₂)) ↔
            Plain rest (rights t₂) := by
          refine and_congr_right fun _ => ?_
          show (∀ e ∈ (⟨.delta c, .ok ()⟩ : Event (handoff ChatStreamEvent) Exn) :: rights t₂,
            e.answer = .ok ()) ↔ _
          rw [List.forall_mem_cons]
          exact and_iff_right rfl
        rw [hplain]
        exact ih hr hs
      · rw [ends_yield hy]
        refine ⟨rfl, .inl ⟨e, rfl, rfl, fun hp => ?_⟩⟩
        have he := hp.2 _ List.mem_cons_self
        cases he

/-- The handlers report once and raise on. -/
theorem failed_ends {e : Exn} (h : Ends (failed generation e) t o) (hs : Steady (lefts (lefts t))) :
    o = .error e ∧ rights (lefts t) = [] ∧ rights t = [] ∧
      ∃ x, lefts (lefts t) = [⟨.report x generation, .ok ()⟩] := by
  have hx : ∃ x, failed generation e =
      (report x generation : Prog adapterI Exn Unit).inl.bind fun _ => .raise e := by
    unfold failed
    split
    · exact ⟨.failure, rfl⟩
    · exact ⟨.abort, rfl⟩
  obtain ⟨x, hx⟩ := hx
  rw [hx] at h
  rcases ends_bind.mp h with ⟨_, t₁, t₂, rfl, hr, he⟩ | ⟨e', _, hr⟩
  · obtain ⟨rfl, rfl⟩ := ends_raise.mp he
    rw [List.append_nil] at hs ⊢
    obtain ⟨_, hc, hi, hy⟩ := ends_report_inl hr hs
    exact ⟨rfl, hi, hy, x, hc⟩
  · obtain ⟨ho, _⟩ := ends_report_inl hr hs
    cases ho

/-- Loop and handlers: one report, or none on a plain end. -/
theorem handled_ends {source : Source Exn ChatStreamEvent}
    (h : Ends ((self.relay generation false source).tryExcept (failed generation)) t o)
    (hs : Steady (lefts (lefts t))) :
    rights (lefts t) = [] ∧
      (((∃ x, lefts (lefts t) = [⟨.report x generation, .ok ()⟩]) ∧ ¬ Plain source (rights t)) ∨
        (lefts (lefts t) = [] ∧ Plain source (rights t))) := by
  rcases ends_tryExcept.mp h with ⟨_, rfl, hr⟩ | ⟨e, t₁, t₂, rfl, hr, hf⟩
  · obtain ⟨hi, ⟨e, ho, _⟩ | ⟨_, hc, hp⟩ | ⟨_, hc, hp⟩⟩ := relay_ends hr hs
    · cases ho
    · exact ⟨hi, .inl ⟨⟨_, hc⟩, hp⟩⟩
    · exact ⟨hi, .inr ⟨hc, hp⟩⟩
  · rw [lefts_append, lefts_append] at hs
    obtain ⟨hs₁, hs₂⟩ := steady_append.mp hs
    obtain ⟨_, hi₂, hy₂, x, hc₂⟩ := failed_ends hf hs₂
    obtain ⟨hi₁, ⟨e, _, hc₁, hp⟩ | ⟨ho, _⟩ | ⟨ho, _⟩⟩ := relay_ends hr hs₁
    · refine ⟨?_, .inl ⟨⟨x, ?_⟩, ?_⟩⟩
      · rw [lefts_append, rights_append, hi₁, hi₂]
        rfl
      · rw [lefts_append, lefts_append, hc₁, hc₂]
        rfl
      · rw [rights_append, hy₂, List.append_nil]
        exact hp
    · cases ho
    · cases ho

/-! ### One call -/

theorem not_settled_silent {α : Type} {inner : Inner} {r : Except Exn α} :
    ¬ Settled [⟨.allow, .ok (true, generation)⟩] inner r := by
  intro h
  cases h

/-- An admitted stream, put together: the admission, the opening, the loop with its
handlers, the closing. -/
theorem settled_iff {request : ChatRequest} {a : Except Exn (Source Exn ChatStreamEvent)}
    {c r : Except Exn Unit}
    (h : Ends ((self.relay generation false (opened a)).tryExcept (failed generation)) t r)
    (hs : Steady (⟨.allow, .ok (true, generation)⟩ :: lefts (lefts (t ++ [⟨.inl (.inr .aclose), c⟩])))) :
    Settled (⟨.allow, .ok (true, generation)⟩ :: lefts (lefts (t ++ [⟨.inl (.inr .aclose), c⟩])))
        (⟨.stream request, a⟩ :: rights (lefts (t ++ [⟨.inl (.inr .aclose), c⟩]))) o ↔
      ¬ PlainEnd (⟨.stream request, a⟩ :: rights (lefts (t ++ [⟨.inl (.inr .aclose), c⟩])))
        (rights (t ++ [⟨.inl (.inr .aclose), c⟩])) := by
  have hcalls : lefts (lefts (t ++ [⟨.inl (.inr .aclose), c⟩])) = lefts (lefts t) := by
    rw [lefts_append, lefts_append]
    exact List.append_nil _
  have hconsumer : rights (t ++ [⟨.inl (.inr .aclose), c⟩]) = rights t := by
    rw [rights_append]
    exact List.append_nil _
  rw [hcalls] at hs ⊢
  obtain ⟨hi, hr⟩ := handled_ends h (List.forall_mem_cons.mp hs).2
  have hinner : rights (lefts (t ++ [⟨.inl (.inr .aclose), c⟩])) =
      ([⟨.aclose, c⟩] : Inner) := by
    rw [lefts_append, rights_append, hi]
    rfl
  have hplain : PlainEnd [⟨.stream request, a⟩, ⟨.aclose, c⟩] (rights t) ↔
      Plain (opened a) (rights t) := by
    constructor
    · rintro ⟨request', a', hm, hp⟩
      rcases List.mem_cons.mp hm with he | hm
      · cases he
        exact hp
      · cases List.mem_singleton.mp hm
    · exact fun hp => ⟨request, a, List.mem_cons_self, hp⟩
  rw [hinner, hconsumer, hplain]
  rcases hr with ⟨⟨x, hc⟩, hp⟩ | ⟨hc, hp⟩ <;> rw [hc]
  · exact iff_of_true (.admitted generation x _ o) hp
  · exact iff_of_false not_settled_silent (not_not_intro hp)

/-- A stream is settled unless it ended plainly. -/
theorem stream_settled {request : ChatRequest} (h : Ends (self.stream request) t o)
    (hs : Steady (lefts (lefts t))) :
    Settled (lefts (lefts t)) (rights (lefts t)) o ↔ ¬ PlainEnd (rights (lefts t)) (rights t) := by
  rcases ends_bind.mp h with ⟨⟨allowed, generation⟩, t₁, t₂, rfl, ha, hb⟩ | ⟨e, rfl, ha⟩
  · obtain rfl := ends_perform_inl.mp ha
    cases allowed with
    | false =>
      obtain ⟨rfl, rfl⟩ := ends_raise.mp hb
      have hn : ¬ PlainEnd [] [] := fun ⟨_, _, hm, _⟩ => by cases hm
      exact iff_of_true (.rejected generation _) hn
    | true =>
      obtain ⟨a, u₁, u₂, rfl, hp, hu⟩ := ends_attempt_bind.mp hb
      obtain rfl := ends_perform_inl.mp hp
      obtain ⟨r, v₁, v₂, rfl, hv, hf⟩ := ends_tryFinally.mp hu
      have hclose : ∃ c, v₂ = [⟨.inl (.inr .aclose), c⟩] := by
        rcases hf with ⟨hf, _⟩ | ⟨e, hf, _⟩
        · exact ⟨_, ends_perform_inl.mp hf⟩
        · exact ⟨_, ends_perform_inl.mp hf⟩
      obtain ⟨c, rfl⟩ := hclose
      exact settled_iff hv hs
  · obtain rfl := ends_perform_inl.mp ha
    obtain ⟨r, hr⟩ := hs _ List.mem_cons_self
    cases hr

theorem completeFailed_eq (self : ResilientAdapter) (generation : Nat) (e : Exn) :
    ∃ x e', self.completeFailed generation e =
    (report x generation).bind fun _ => .raise e' := by
  unfold completeFailed
  split
  · exact ⟨.failure, _, rfl⟩
  · split
    · exact ⟨.failure, e, rfl⟩
    · exact ⟨.abort, e, rfl⟩

/-- The provider answered and nothing is reported yet, or the handlers reported. -/
theorem called_ends {request : ChatRequest} {t : Trace adapterI Exn} {r : Except Exn ChatResponse}
    (h : Ends ((Relayix.provider (.complete request)).tryExcept (self.completeFailed generation)) t r)
    (hs : Steady (lefts t)) :
    (∃ response, r = .ok response ∧ lefts t = []) ∨
      (∃ e, r = .error e) ∧ ∃ x, lefts t = [⟨.report x generation, .ok ()⟩] := by
  rcases ends_tryExcept.mp h with ⟨response, rfl, hp⟩ | ⟨e, t₁, t₂, rfl, hp, hf⟩
  · rw [ends_perform.mp hp]
    exact .inl ⟨response, rfl, rfl⟩
  · obtain rfl := ends_perform.mp hp
    obtain ⟨x, e', hx⟩ := self.completeFailed_eq generation e
    rw [hx] at hf
    have hs₂ : Steady (lefts t₂) := hs
    right
    rcases ends_bind.mp hf with ⟨_, u₁, u₂, rfl, hr, he⟩ | ⟨e₂, _, hr⟩
    · obtain ⟨rfl, rfl⟩ := ends_raise.mp he
      rw [List.append_nil] at hs₂ ⊢
      exact ⟨⟨e', rfl⟩, x, (ends_report hr hs₂).2.1⟩
    · cases (ends_report hr hs₂).1

/-- A buffered call is always settled. -/
theorem complete_settled {request : ChatRequest} {t : Trace adapterI Exn}
    {o : Except Exn ChatResponse} (h : Ends (self.complete request) t o) (hs : Steady (lefts t)) :
    Settled (lefts t) (rights t) o := by
  rcases ends_bind.mp h with ⟨⟨allowed, generation⟩, t₁, t₂, rfl, ha, hb⟩ | ⟨e, rfl, ha⟩
  · obtain rfl := ends_perform.mp ha
    cases allowed with
    | false =>
      obtain ⟨rfl, rfl⟩ := ends_raise.mp hb
      exact .rejected generation _
    | true =>
      have hs₂ : Steady (lefts t₂) := (List.forall_mem_cons.mp hs).2
      rcases ends_bind.mp hb with ⟨response, u₁, u₂, rfl, hp, hr⟩ | ⟨e, rfl, hp⟩
      · rw [lefts_append] at hs₂
        obtain ⟨hs₁, hs₂⟩ := steady_append.mp hs₂
        obtain ⟨_, _, hc⟩ | ⟨⟨e, he⟩, _⟩ := called_ends hp hs₁
        · rcases ends_bind.mp hr with ⟨_, v₁, v₂, rfl, hv, hret⟩ | ⟨e, _, hv⟩
          · obtain ⟨rfl, rfl⟩ := ends_ret.mp hret
            rw [List.append_nil] at hs₂ ⊢
            have hcalls : lefts ([⟨.inl .allow, .ok (true, generation)⟩] ++ (u₁ ++ v₁)) =
                ([⟨.allow, .ok (true, generation)⟩, ⟨.report .success generation, .ok ()⟩] : Calls) := by
              rw [lefts_append, lefts_append, hc, (ends_report hv hs₂).2.1]
              rfl
            rw [hcalls]
            exact .admitted generation .success _ _
          · cases (ends_report hv hs₂).1
        · cases he
      · obtain ⟨_, ho, _⟩ | ⟨_, x, hc⟩ := called_ends hp hs₂
        · cases ho
        · have hcalls : lefts ([⟨.inl .allow, .ok (true, generation)⟩] ++ t₂) =
              ([⟨.allow, .ok (true, generation)⟩, ⟨.report x generation, .ok ()⟩] : Calls) := by
            rw [lefts_append, hc]
            rfl
          rw [hcalls]
          exact .admitted generation x _ _
  · obtain rfl := ends_perform.mp ha
    obtain ⟨r, hr⟩ := hs _ List.mem_cons_self
    cases hr

end ResilientAdapter
end Relayix
