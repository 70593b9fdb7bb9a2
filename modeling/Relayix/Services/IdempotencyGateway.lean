import Relayix.Services.GatewayFailover
import Relayix.Services.IdempotencySettle

/-! The gateway's failover inside the idempotency service.

Whether a provider may have executed a request is decided in the failover loop; whether its key
is parked or released is decided by the class of the exception that leaves it. `Final` lists the
one write with which `execute` settles a key that it acquired, and for what outcome of its
operation. -/
namespace Relayix
open Library
namespace IdempotencyService
open GatewayService (Attempt Doubtful Lost Tried Tries buffering buffers opens unforeseen)

/-! ### The last command of `execute` -/

/-- The write that settles the key, by the outcome of the operation. -/
inductive Final (service : IdempotencyService) (apiKeyId : UUID) (key fingerprint : String) :
    Except Exn ChatResponse → Event redisI Exn → Except Exn ChatResponse → Prop where
  | stored (r : ChatResponse) (b : Bool) :
      Final service apiKeyId key fingerprint (.ok r)
        ⟨.set (redisKey apiKeyId key) (.completed fingerprint (serialize r)) false service.store.completedTtlS, .ok b⟩
        (.ok r)
  | unstored (r : ChatResponse) (e : Exn) :
      Final service apiKeyId key fingerprint (.ok r)
        ⟨.set (redisKey apiKeyId key) (.completed fingerprint (serialize r)) false service.store.completedTtlS,
          .error e⟩
        (.error (if e.isStoreFailure then idempotencyStoreUnavailable else e))
  | parked {e e' : Exn} (a : Except Exn Bool) (ambiguous : e.isUpstreamAmbiguous = true) :
      Final service apiKeyId key fingerprint (.error e)
        ⟨.set (redisKey apiKeyId key) (.parked fingerprint e.str) false service.store.completedTtlS, a⟩ (.error e')
  | released {e e' : Exn} (a : Except Exn Nat) (unambiguous : e.isUpstreamAmbiguous = false) :
      Final service apiKeyId key fingerprint (.error e) ⟨.delete (redisKey apiKeyId key), a⟩ (.error e')

section Execute
variable {J : Interface} {self : IdempotencyService} {apiKeyId : UUID} {key fingerprint : String}
  {request : ChatRequest}

/-- The handlers of the operation park the key for an ambiguity, and release it otherwise. -/
theorem unserved_ends {α : Type} {e : Exn} {t : Trace (redisI.sum J) Exn} {o : Except Exn α}
    (h : Ends (self.unserved apiKeyId key fingerprint e) t o) :
    (e.isUpstreamAmbiguous = true ∧ ∃ a : Except Exn Bool, t = [⟨.inl (.set (redisKey apiKeyId key)
        (.parked fingerprint e.str) false self.store.completedTtlS), a⟩]) ∨
      (e.isUpstreamAmbiguous = false ∧ ∃ a : Except Exn Nat, t = [⟨.inl (.delete (redisKey apiKeyId key)), a⟩]) := by
  unfold unserved at h
  by_cases he : e.isUpstreamAmbiguous = true
  · rw [if_pos he] at h
    obtain ⟨r, hm, _⟩ := ends_bind_raise.mp h
    obtain ⟨s, rfl, hs⟩ := ends_inl.mp hm
    obtain ⟨a, rfl, _⟩ := RedisIdempotencyStore.markAmbiguous_ends hs
    exact .inl ⟨he, a, rfl⟩
  · rw [if_neg he] at h
    obtain ⟨r, hm, _⟩ := ends_bind_raise.mp h
    obtain ⟨s, rfl, hs⟩ := ends_inl.mp hm
    obtain ⟨a, rfl, _⟩ := RedisIdempotencyStore.release_ends hs
    exact .inr ⟨Bool.eq_false_iff.mpr he, a, rfl⟩

/-- A call that acquired the key: it reserves, runs its operation, and settles. -/
theorem execute_acquired {operation : Prog J Exn ChatResponse} {t : Trace (redisI.sum J) Exn}
    {o : Except Exn ChatResponse} (h : Ends (self.execute apiKeyId key request operation) t o)
    (hacq : ∃ e ∈ lefts t, claimed e = true) :
    ∃ (u : Trace redisI Exn) (v : Trace J Exn) (x : Event redisI Exn) (r : Except Exn ChatResponse),
      t = u.map Event.inl ++ v.map Event.inr ++ [x].map Event.inl ∧
        (∃ outcome, Ends (self.store.reserve apiKeyId key (self.fingerprint request)) u (.ok outcome)) ∧
        Ends operation v r ∧ self.Final apiKeyId key (self.fingerprint request) r x o := by
  rcases ends_bind.mp h with ⟨outcome, t₁, t₂, rfl, hres, hrest⟩ | ⟨e, _, hres⟩
  · obtain ⟨u, rfl, hu⟩ := ends_inl.mp hres
    refine ⟨u, ?_⟩
    cases hout : outcome.acquired with
    | false =>
      simp only [hout, Bool.false_eq_true, if_false] at hrest
      have hnil : lefts t₂ = [] := by
        rcases ends_bind.mp hrest with ⟨body, s₁, s₂, rfl, hb, hd⟩ | ⟨e, _, hb⟩
        · rw [(ends_ofExcept.mp hb).1, (ends_ofExcept.mp hd).1]
          rfl
        · rw [(ends_ofExcept.mp hb).1]
          rfl
      rw [lefts_append, hnil, List.append_nil, lefts_map_inl] at hacq
      cases reserve_acquired hu hacq
      cases hout
    | true =>
      simp only [hout, if_true] at hrest
      rcases ends_bind.mp hrest with ⟨r, s₁, s₂, rfl, hop, hc⟩ | ⟨e, rfl, hop⟩
      · rcases ends_tryExcept.mp hop with ⟨_, he, hran⟩ | ⟨x, v₁, v₂, _, _, hf⟩
        · cases he
          obtain ⟨v, rfl, hv⟩ := ends_inr.mp hran
          rcases ends_bind.mp hc with ⟨_, c₁, c₂, rfl, hk, hret⟩ | ⟨e, rfl, hk⟩
          · obtain ⟨s, rfl, hs⟩ := ends_inl.mp hk
            obtain ⟨a, rfl, ho⟩ := RedisIdempotencyStore.complete_ends hs
            obtain ⟨rfl, rfl⟩ := ends_ret.mp hret
            cases a with
            | ok b => exact ⟨v, _, .ok r, by simp, ⟨outcome, hu⟩, hv, .stored r b⟩
            | error e => cases ho
          · obtain ⟨s, rfl, hs⟩ := ends_inl.mp hk
            obtain ⟨a, rfl, ho⟩ := RedisIdempotencyStore.complete_ends hs
            cases a with
            | ok b => cases ho
            | error e' =>
              cases ho
              exact ⟨v, _, .ok r, by simp, ⟨outcome, hu⟩, hv, .unstored r e'⟩
        · obtain ⟨e', he⟩ := unserved_raises hf
          cases he
      · rcases ends_tryExcept.mp hop with ⟨_, he, _⟩ | ⟨x, v₁, v₂, rfl, hran, hf⟩
        · cases he
        · obtain ⟨v, rfl, hv⟩ := ends_inr.mp hran
          rcases unserved_ends hf with ⟨hamb, a, rfl⟩ | ⟨hamb, a, rfl⟩
          · exact ⟨v, _, .error x, (List.append_assoc ..).symm, ⟨outcome, hu⟩, hv, .parked a hamb⟩
          · exact ⟨v, _, .error x, (List.append_assoc ..).symm, ⟨outcome, hu⟩, hv, .released a hamb⟩
  · obtain ⟨u, rfl, hu⟩ := ends_inl.mp hres
    rw [lefts_map_inl] at hacq
    cases reserve_acquired hu hacq

end Execute

/-! ### Ambiguity -/

/-- The exception of an operation that makes every service around it park the key. -/
def Parks (e : Exn) : Prop :=
  ∀ (J : Interface) (α : Type) (service : IdempotencyService) (apiKeyId : UUID) (key fingerprint : String)
    (t : Trace (redisI.sum J) Exn) (o : Except Exn α),
    Ends (service.unserved apiKeyId key fingerprint e) t o →
      ∃ a : Except Exn Bool, t = [⟨.inl (.set (redisKey apiKeyId key) (.parked fingerprint e.str) false
        service.store.completedTtlS), a⟩]

/-- After a call in doubt, a run that fails does so in doubt, and the key is parked. -/
def Survives {Y Z : Type} (calls : List (Attempt Y)) (o : Except Exn Z) : Prop :=
  (∃ a ∈ calls, Doubtful a) → ∀ e, o = .error e → e.isUpstreamAmbiguous = true ∧ Parks e

theorem parks_of_ambiguous {e : Exn} (h : e.isUpstreamAmbiguous = true) : Parks e := by
  intro J α service apiKeyId key fingerprint t o hends
  rcases unserved_ends hends with ⟨_, ht⟩ | ⟨hno, _⟩
  · exact ht
  · rw [h] at hno
    cases hno

theorem survives_iff {Y Z : Type} {calls : List (Attempt Y)} {o : Except Exn Z} :
    Survives calls o ↔
      ¬ ((∃ a ∈ calls, Doubtful a) ∧ ∃ e, o = .error e ∧ e.isUpstreamAmbiguous = false) := by
  constructor
  · rintro h ⟨hdoubt, e, ho, he⟩
    rw [(h hdoubt e ho).1] at he
    cases he
  · intro h hdoubt e ho
    have hamb : e.isUpstreamAmbiguous = true := by
      by_contra he
      exact h ⟨hdoubt, e, ho, Bool.eq_false_iff.mpr he⟩
    exact ⟨hamb, parks_of_ambiguous hamb⟩

/-- The bill of an answer that came after a call in doubt could not be written, for another reason. -/
def Overcharged (calls : List (Attempt ChatResponse)) (records : GatewayService.Records) : Prop :=
  (∃ a ∈ calls, Doubtful a) ∧ ∃ x ∈ records, ∃ e, x.answer = .error e ∧ e.isUpstreamAmbiguous = false

theorem billed_fails {apiKeyId : UUID} {o o' : Except Exn ChatResponse} {records : GatewayService.Records}
    (h : GatewayService.Billed apiKeyId o' records o) :
    (∃ e, o = .error e ∧ e.isUpstreamAmbiguous = false) ↔
      (∃ e, o' = .error e ∧ e.isUpstreamAmbiguous = false) ∨
        ∃ x ∈ records, ∃ e, x.answer = .error e ∧ e.isUpstreamAmbiguous = false := by
  cases h with
  | failed e => simp
  | answered r a =>
    cases a with
    | ok _ => simp [Except.map]
    | error e => simp [Except.map]

section Survival
variable {registered : ProviderEnum → Bool}
  {streams : ProviderEnum → ChatRequest → Gen completionI Exn ChatStreamEvent Unit}
  {completes : ProviderEnum → ChatRequest → Prog streamingI Exn ChatResponse}
  {candidatesFor : String → Except Exn (List Candidate)} {request : ChatRequest} {apiKeyId : UUID}

theorem not_survives_nil {Y Z : Type} {o : Except Exn Z} : Survives ([] : List (Attempt Y)) o := by
  rintro ⟨a, ha, _⟩
  exact absurd ha List.not_mem_nil

/-- **Ambiguity survives failover, and exactly when.** For every ranked list, registry and
policy: a run of `complete` in which a call ended in doubt and that fails, fails in doubt,
exactly if no later call raised what no clause foresees and the bill of no later answer failed
so; for `stream`, exactly if no later candidate's stream began so. -/
theorem ambiguity_survives_iff :
    (∀ t o, Ends ((buffering registered streams candidatesFor).complete request apiKeyId) t o →
      (Survives (buffers (lefts t)) o ↔
        ¬ (Lost (buffers (lefts t)) ∨ Overcharged (buffers (lefts t)) (rights t)))) ∧
    ∀ t o, Ends ((GatewayService.streamed registered completes candidatesFor).stream request apiKeyId) t o →
      (Survives (opens (lefts t)) o ↔ ¬ Lost (opens (lefts t))) := by
  constructor
  · intro t o h
    rcases GatewayService.complete_ends h with ⟨e, _, rfl, rfl⟩ | ⟨cands, _, htries⟩
    · refine iff_of_true not_survives_nil ?_
      rintro (⟨_, _, _, hnil, _⟩ | ⟨⟨a, ha, _⟩, _⟩)
      · simp [buffers] at hnil
      · exact absurd ha List.not_mem_nil
    · obtain ⟨o', htried, hbilled⟩ := htries.tried
      rw [survives_iff, billed_fails hbilled, and_or_left, ← htried.lost_iff]
      rfl
  · intro t o h
    rcases GatewayService.stream_ends h with ⟨e, _, rfl, rfl⟩ | ⟨cands, o', _, htried, rfl⟩
    · refine iff_of_true not_survives_nil ?_
      rintro ⟨_, _, _, hnil, _⟩
      simp [opens] at hnil
    · have hfails : (∃ e, (o'.map fun y => GatewayService.drain apiKeyId y.2 y.1) = .error e ∧
          e.isUpstreamAmbiguous = false) ↔ ∃ e, o' = .error e ∧ e.isUpstreamAmbiguous = false := by
        cases o' <;> simp [Except.map]
      rw [survives_iff, hfails, ← htried.lost_iff]

end Survival

section AtLeastOnce

def atLeastOnce : ChatRequest := ⟨"default", [], none, .atLeastOnce⟩

def ranked : String → Except Exn (List Candidate) :=
  fun _ => .ok [⟨.openai, "gpt-4o"⟩, ⟨.anthropic, "claude-sonnet-5"⟩]

def toOpenAI : ProviderEnum × ChatRequest := (.openai, ⟨"gpt-4o", [], none, .atLeastOnce⟩)

def toAnthropic : ProviderEnum × ChatRequest := (.anthropic, ⟨"claude-sonnet-5", [], none, .atLeastOnce⟩)

/-- The first candidate times out and the second is unavailable: the doubt is what is raised. -/
theorem ambiguity_survives_exhausted :
    Survives (buffers [⟨toOpenAI, .error (.upstreamAmbiguous "timed out")⟩,
      ⟨toAnthropic, .error (.upstreamUnavailable "refused")⟩])
      (.error (.upstreamAmbiguous "timed out") : Except Exn ChatResponse) := by
  have hend : Ends ((buffering (fun _ => true) (fun _ _ => .ret ()) ranked).complete atLeastOnce ⟨7⟩)
      [⟨.inl toOpenAI, .error (.upstreamAmbiguous "timed out")⟩,
        ⟨.inl toAnthropic, .error (.upstreamUnavailable "refused")⟩]
      (.error (.upstreamAmbiguous "timed out")) := .step _ (.step _ (.refl _))
  have both := @ambiguity_survives_iff (fun _ => true) (fun _ _ => .ret ()) (fun _ _ => .raise .cancelledError)
    ranked atLeastOnce ⟨7⟩
  refine (both.1 _ _ hend).mpr ?_
  rintro (⟨pre, asked, e, hcalls, hun, _⟩ | ⟨_, x, hx, _⟩)
  · have hlast := congrArg (fun l => l.getLast?.map Prod.snd) hcalls
    simp only [List.getLast?_append, List.getLast?_singleton, Option.some_or] at hlast
    cases hlast
    cases hun
  · cases hx

/-- The first candidate times out, the second answers, and its bill cannot be priced: the
doubt is gone, and the key would be released. -/
theorem ambiguity_lost :
    ∃ t o, Ends ((buffering (fun _ => true) (fun _ _ => .ret ()) ranked).complete atLeastOnce ⟨7⟩) t o ∧
      lefts t = [⟨toOpenAI, .error (.upstreamAmbiguous "timed out")⟩, ⟨toAnthropic,
        .ok ⟨.anthropic, "claude-sonnet-5-2026", "hi", 1, 1, "stop", "r"⟩⟩] ∧
      o = .error (.pricingRateNotFound "No pricing rate in effect") ∧ ¬ Survives (buffers (lefts t)) o := by
  refine ⟨[⟨.inl toOpenAI, .error (.upstreamAmbiguous "timed out")⟩,
    ⟨.inl toAnthropic, .ok ⟨.anthropic, "claude-sonnet-5-2026", "hi", 1, 1, "stop", "r"⟩⟩,
    ⟨.inr (.record ⟨7⟩ ⟨.anthropic, "claude-sonnet-5-2026", "hi", 1, 1, "stop", "r"⟩),
      .error (.pricingRateNotFound "No pricing rate in effect")⟩], _, .step _ (.step _ (.step _ (.refl _))), rfl, rfl,
    fun h => ?_⟩
  obtain ⟨hamb, _⟩ := h ⟨_, List.mem_cons_self, _, rfl, rfl⟩ _ rfl
  cases hamb

end AtLeastOnce

/-! ### What `execute` leaves of a buffered request -/

section Records
variable {J : Interface} {w w' : Redis} {t : Trace (redisI.sum J) Exn}

theorem waits_of_served (h : (served J).Gives w [] w') : Expiring.Waits w w' := by
  generalize hx : ([] : Trace (redisI.sum J) Exn) = x at h
  induction h with
  | done w => exact .refl w
  | command _ _ _ => cases hx
  | elapse he _ ih => exact .trans he (ih hx)

/-- A command that was answered has run; after the last one only time passes. -/
theorem last_answered {c : RedisCmd} {b : redisI.Ans c}
    (h : (served J).Gives w (t ++ [⟨.inl c, .ok b⟩]) w') :
    ∃ v v' : Redis, (Except.ok b, v') = v.exec c ∧ Expiring.Waits v' w' := by
  obtain ⟨v, _, hlast⟩ := h.split
  obtain ⟨v₁, v₂, _, hran, hrest⟩ := hlast.head
  rcases hran with hran | ⟨e, he, _⟩
  · exact ⟨v₁, v₂, hran, waits_of_served hrest⟩
  · cases he

theorem written_of_ok {v v' : Redis} {name : String} {record : Record} {ex : Int} {b : Bool}
    (h : (.ok b, v') = v.exec (.set name record false ex)) : v' = v.write name record ex := by
  rw [exec_set] at h
  split at h
  · cases (Prod.mk.inj h).1
  · exact (Prod.mk.inj h).2

end Records

/-- How a run that acquired the key is to leave it. It is released only if no call can have executed. -/
inductive Settlement (apiKeyId : UUID) (key fingerprint : String) (calls : GatewayService.Attempts) (w : Redis) :
    Except Exn ChatResponse → Prop where
  | completed (r : ChatResponse) (stored : Replayable apiKeyId key fingerprint r w) :
      Settlement apiKeyId key fingerprint calls w (.ok r)
  | ambiguous (e e' : Exn) (deadline : ℚ)
      (parked : w.entries (redisKey apiKeyId key) = some ⟨.parked fingerprint e.str, deadline⟩) :
      Settlement apiKeyId key fingerprint calls w (.error e')
  | released (e' : Exn) (gone : w.entries (redisKey apiKeyId key) = none)
      (why : ∀ x ∈ calls, GatewayService.unexecuted x.answer = true) :
      Settlement apiKeyId key fingerprint calls w (.error e')

/-- Every call ended in what a clause of the loop foresees, and the bill was written or left in doubt. -/
structure Foreseen (calls : GatewayService.Attempts) (records : GatewayService.Records) : Prop where
  calls : ∀ x ∈ calls, ∀ e, x.answer = .error e → unforeseen e = false
  records : ∀ x ∈ records, ∀ e, x.answer = .error e → e.isUpstreamAmbiguous = true

section Settlement
variable {registered : ProviderEnum → Bool}
  {streams : ProviderEnum → ChatRequest → Gen completionI Exn ChatStreamEvent Unit}
  {candidatesFor : String → Except Exn (List Candidate)} {request : ChatRequest} {apiKeyId : UUID}
  {self : IdempotencyService} {key : String} {ambiguous : Option Exn} {cands : List Candidate}
  {calls : GatewayService.Attempts} {records : GatewayService.Records} {o : Except Exn ChatResponse} {e : Exn}

theorem foreseen_nil : Foreseen [] [] where
  calls _ hx := absurd hx List.not_mem_nil
  records _ hx := absurd hx List.not_mem_nil

theorem Foreseen.cons {x : Event completionI Exn} (hx : ∀ e, x.answer = .error e → unforeseen e = false)
    (h : Foreseen calls records) : Foreseen (x :: calls) records where
  calls := List.forall_mem_cons.mpr ⟨hx, h.calls⟩
  records := h.records

theorem foreseen_of_failsOver (h : GatewayService.failsOver request e = true) : unforeseen e = false := by
  unfold GatewayService.failsOver at h
  cases hu : e.isUpstreamUnavailable
  · rw [hu] at h
    simp_all [unforeseen]
  · simp [unforeseen, hu]

/-- A failover that returns, or fails in doubt, met nothing that it does not foresee. -/
theorem foreseen_of_doubt (h : Tries registered request apiKeyId ambiguous cands calls records o)
    (ho : ∀ e, o = .error e → e.isUpstreamAmbiguous = true) : Foreseen calls records := by
  induction h with
  | exhausted => exact foreseen_nil
  | skipped _ _ ih => exact ih ho
  | moved _ hf _ ih =>
    refine (ih ho).cons fun x hx => ?_
    cases hx
    exact foreseen_of_failsOver hf
  | raised _ _ =>
    refine foreseen_nil.cons fun x hx => ?_
    cases hx
    simp [unforeseen, ho _ rfl]
  | served r a _ =>
    refine ⟨List.forall_mem_singleton.mpr fun x hx => (by cases hx), List.forall_mem_singleton.mpr fun x hx => ?_⟩
    obtain rfl : a = .error x := hx
    exact ho x rfl

/-- Nor does one whose calls were all unavailable: nothing was billed. -/
theorem foreseen_of_unexecuted (h : Tries registered request apiKeyId ambiguous cands calls records o)
    (hall : ∀ x ∈ calls, GatewayService.unexecuted x.answer = true) : Foreseen calls records := by
  induction h with
  | exhausted => exact foreseen_nil
  | skipped _ _ ih => exact ih hall
  | moved _ hf _ ih =>
    refine (ih fun x hx => hall x (List.mem_cons_of_mem _ hx)).cons fun x hx => ?_
    cases hx
    exact foreseen_of_failsOver hf
  | @raised _ _ _ e _ _ =>
    have hu : e.isUpstreamUnavailable = true := hall _ List.mem_cons_self
    refine foreseen_nil.cons fun x hx => ?_
    cases hx
    simp [unforeseen, hu]
  | served r a _ => cases hall _ List.mem_cons_self

/-- What a failover foresees and does not leave in doubt was not executed. -/
theorem unexecuted_of_foreseen (h : Tries registered request apiKeyId ambiguous cands calls records (.error e))
    (hamb : ∀ x, ambiguous = some x → x.isUpstreamAmbiguous = true) (he : e.isUpstreamAmbiguous = false)
    (hforeseen : Foreseen calls records) : ∀ x ∈ calls, GatewayService.unexecuted x.answer = true := by
  obtain ⟨o', htried, hbilled⟩ := h.tried
  generalize ho : (Except.error e : Except Exn ChatResponse) = o at hbilled
  cases hbilled with
  | failed x =>
    obtain rfl : e = x := Except.error.inj ho
    rcases htried.failed hamb rfl he with ⟨_, hall⟩ | ⟨pre, asked, hcalls, hun⟩
    · intro x hx
      have hharmless := hall _ (List.mem_map_of_mem hx)
      obtain ⟨c, y | r⟩ := x
      · rcases hharmless with hnone | ⟨z, hz, hu⟩
        · cases hnone
        · cases hz
          exact hu
      · rcases hharmless with hnone | ⟨z, hz, _⟩
        · cases hnone
        · cases hz
    · have hlast : (asked, .error e) ∈ buffers calls := by
        rw [hcalls]
        exact List.mem_append_right _ List.mem_cons_self
      obtain ⟨⟨c, y | r⟩, hx, hcall⟩ := List.mem_map.mp hlast
      · cases hcall
        rw [hforeseen.calls _ hx e rfl] at hun
        cases hun
      · cases hcall
  | answered r a =>
    obtain rfl : a = .error e := by
      cases a with
      | ok _ => cases ho
      | error x => rw [Except.error.inj ho]
    rw [hforeseen.records _ List.mem_cons_self e rfl] at he
    cases he

theorem foreseen_of_complete {t : Trace (completionI.sum recorderI) Exn}
    (h : Ends ((buffering registered streams candidatesFor).complete request apiKeyId) t o)
    (ho : ∀ e, o = .error e → e.isUpstreamAmbiguous = true) : Foreseen (lefts t) (rights t) := by
  rcases GatewayService.complete_ends h with ⟨_, _, rfl, _⟩ | ⟨cands, _, htries⟩
  · exact foreseen_nil
  · exact foreseen_of_doubt htries ho

theorem complete_foreseen_iff {t : Trace (completionI.sum recorderI) Exn}
    (h : Ends ((buffering registered streams candidatesFor).complete request apiKeyId) t (.error e))
    (he : e.isUpstreamAmbiguous = false) :
    (∀ x ∈ lefts t, GatewayService.unexecuted x.answer = true) ↔ Foreseen (lefts t) (rights t) := by
  rcases GatewayService.complete_ends h with ⟨_, _, rfl, _⟩ | ⟨cands, _, htries⟩
  · exact iff_of_true (fun _ hx => absurd hx List.not_mem_nil) foreseen_nil
  · exact ⟨foreseen_of_unexecuted htries, unexecuted_of_foreseen htries nofun he⟩

/-- **What `execute` leaves of a buffered request, and when it is what it is to leave.** With a
store that answers every command: a run that acquired the key leaves the response, or an ambiguity,
or releases a key under which nothing was executed, exactly if no call ended in an exception that
the failover does not foresee, and no bill failed but in doubt. -/
theorem execute_complete_settles_iff {t : Trace (redisI.sum (completionI.sum recorderI)) Exn}
    {o : Except Exn ChatResponse}
    (h : Ends (self.execute apiKeyId key request
      ((buffering registered streams candidatesFor).complete request apiKeyId)) t o)
    (hacq : ∃ e ∈ lefts t, claimed e = true) {w w' : Redis}
    (hg : (served (completionI.sum recorderI)).Gives w t w') (hstore : ∀ e ∈ lefts t, ∃ a, e.answer = .ok a) :
    Settlement apiKeyId key (self.fingerprint request) (lefts (rights t)) w' o ↔
      Foreseen (lefts (rights t)) (rights (rights t)) := by
  obtain ⟨u, v, x, r, rfl, _, hop, hfinal⟩ := execute_acquired h hacq
  have hcalls : rights (u.map Event.inl ++ v.map Event.inr ++ [x].map Event.inl :
      Trace (redisI.sum (completionI.sum recorderI)) Exn) = v := by
    rw [rights_append, rights_append, rights_map_inl, rights_map_inr, rights_map_inl, List.nil_append,
      List.append_nil]
  have hlast : x ∈ lefts (u.map Event.inl ++ v.map Event.inr ++ [x].map Event.inl :
      Trace (redisI.sum (completionI.sum recorderI)) Exn) := by
    rw [lefts_append, lefts_map_inl]
    exact List.mem_append_right _ List.mem_cons_self
  rw [hcalls]
  obtain ⟨b, hb⟩ := hstore x hlast
  cases hfinal with
  | stored r b =>
    obtain ⟨v₁, v₂, hran, hrest⟩ := last_answered hg
    refine iff_of_true (.completed r ⟨v₁.now + self.store.completedTtlS, ?_⟩) (foreseen_of_complete hop nofun)
    rw [hrest.entries, written_of_ok hran]
    exact Expiring.write_entries_self
  | unstored r e => cases hb
  | @parked e e' a hamb =>
    cases a with
    | error _ => cases hb
    | ok b =>
      obtain ⟨v₁, v₂, hran, hrest⟩ := last_answered hg
      refine iff_of_true (.ambiguous e e' (v₁.now + self.store.completedTtlS) ?_) (foreseen_of_complete hop ?_)
      · rw [hrest.entries, written_of_ok hran]
        exact Expiring.write_entries_self
      · intro x hx
        cases hx
        exact hamb
  | @released e e' a hamb =>
    cases a with
    | error _ => cases hb
    | ok n =>
      obtain ⟨v₁, v₂, hran, hrest⟩ := last_answered hg
      have hgone : w'.entries (redisKey apiKeyId key) = none := by
        rw [hrest.entries, (Prod.mk.inj hran).2]
        exact Expiring.erase_entries_self
      rw [← complete_foreseen_iff hop hamb]
      constructor
      · intro hsettled
        cases hsettled with
        | ambiguous _ _ _ hparked =>
          rw [hgone] at hparked
          cases hparked
        | released _ _ hwhy => exact hwhy
      · exact .released e' hgone

end Settlement

/-! ### On one request -/

section Trial

def trialRouting : String → Except Exn (List Candidate) := fun _ => .ok [⟨.openai, "gpt-4o"⟩]

/-- One provider, called once. -/
abbrev trialComplete : Prog (completionI.sum recorderI) Exn ChatResponse :=
  (buffering (fun p => p = .openai) (fun _ _ => .ret ()) trialRouting).complete trialRequest ⟨7⟩

abbrev trialCall : ProviderEnum × ChatRequest := (.openai, trialRequest)

/-- What Redis and the provider answer, up to the outcome of the provider's call. -/
abbrev trialAnswers (a : Except Exn ChatResponse) (rest : Trace (redisI.sum (completionI.sum recorderI)) Exn) :
    Trace (redisI.sum (completionI.sum recorderI)) Exn :=
  ⟨.inl (.set (redisKey ⟨7⟩ "k1") (.claimed (trialService.fingerprint trialRequest)) true 120), .ok true⟩ ::
    ⟨.inr (.inl trialCall), a⟩ :: rest

/-- The provider answers, and the response is stored. -/
theorem execute_complete_stored :
    ∃ w', Settlement ⟨7⟩ "k1" (trialService.fingerprint trialRequest) [⟨trialCall, .ok trialResponse⟩] w'
      (.ok trialResponse) := by
  let print := trialService.fingerprint trialRequest
  have hend : Ends (trialService.execute ⟨7⟩ "k1" trialRequest trialComplete)
      (trialAnswers (.ok trialResponse) [⟨.inr (.inr (.record ⟨7⟩ trialResponse)), .ok ()⟩,
        ⟨.inl (.set (redisKey ⟨7⟩ "k1") (.completed print (serialize trialResponse)) false 86400), .ok true⟩])
      (.ok trialResponse) := .step _ (.step _ (.step _ (.step _ (.refl _))))
  have played : (served (completionI.sum recorderI)).Gives ⟨0, fun _ => none⟩
      (trialAnswers (.ok trialResponse) [⟨.inr (.inr (.record ⟨7⟩ trialResponse)), .ok ()⟩,
        ⟨.inl (.set (redisKey ⟨7⟩ "k1") (.completed print (serialize trialResponse)) false 86400), .ok true⟩])
      (trialClaim.write (redisKey ⟨7⟩ "k1") (.completed print (serialize trialResponse)) (86400 : Int)) :=
    .command (.inl rfl) (.command rfl (.command rfl (.command (.inl rfl) (.done _))))
  have hforeseen : Foreseen [⟨trialCall, .ok trialResponse⟩] [⟨.record ⟨7⟩ trialResponse, .ok ()⟩] :=
    ⟨List.forall_mem_singleton.mpr nofun, List.forall_mem_singleton.mpr nofun⟩
  exact ⟨_, (execute_complete_settles_iff hend ⟨_, List.mem_cons_self, rfl⟩ played
    (List.forall_mem_cons.mpr ⟨⟨true, rfl⟩, List.forall_mem_singleton.mpr ⟨true, rfl⟩⟩)).mpr hforeseen⟩

/-- The provider answers, and there is no rate for its model: the answer cannot be billed, and the
key is released. -/
theorem execute_released_unpriced :
    ∃ t w' e, Ends (trialService.execute ⟨7⟩ "k1" trialRequest trialComplete) t (.error (.pricingRateNotFound e)) ∧
      (∃ e ∈ lefts t, claimed e = true) ∧ (∀ e ∈ lefts t, ∃ a, e.answer = .ok a) ∧
      (served (completionI.sum recorderI)).Gives ⟨0, fun _ => none⟩ t w' ∧
      lefts (rights t) = [⟨trialCall, .ok trialResponse⟩] ∧ w'.entries (redisKey ⟨7⟩ "k1") = none ∧
      ¬ Settlement ⟨7⟩ "k1" (trialService.fingerprint trialRequest) (lefts (rights t)) w' (.error (.pricingRateNotFound e)) := by
  let unpriced := "no pricing rate in effect for provider <ProviderEnum.OPENAI: 'openai'> model 'gpt-4o' as of 2026-01-01T00:00:00+00:00"
  let deleted : Nat := if (trialClaim.read (redisKey ⟨7⟩ "k1")).isSome then 1 else 0
  refine ⟨trialAnswers (.ok trialResponse) [⟨.inr (.inr (.record ⟨7⟩ trialResponse)), .error (.pricingRateNotFound unpriced)⟩,
      ⟨.inl (.delete (redisKey ⟨7⟩ "k1")), .ok deleted⟩], trialClaim.erase (redisKey ⟨7⟩ "k1"), unpriced,
    .step _ (.step _ (.step _ (.step _ (.refl _)))), ⟨_, List.mem_cons_self, rfl⟩,
    List.forall_mem_cons.mpr ⟨⟨true, rfl⟩, List.forall_mem_singleton.mpr ⟨deleted, rfl⟩⟩,
    .command (.inl rfl) (.command rfl (.command rfl (.command exec_delete (.done _)))), rfl, Expiring.erase_entries_self,
    fun hsettled => ?_⟩
  cases hsettled with
  | ambiguous _ _ _ hparked =>
    rw [Expiring.erase_entries_self] at hparked
    cases hparked
  | released _ _ hwhy => cases hwhy _ List.mem_cons_self

end Trial
end IdempotencyService
end Relayix
