import Relayix.Services.IdempotencyAnswers

/-! How a settled stream leaves its key.

`_settle` runs in the body of a generator, so it records an outcome only if the generator
is begun and only where its loop is left by an exception or passes the terminal response.
The operation's generator is arbitrary here, and so is the consumer: the answer to an item
is how it resumes, and an exception there closes or cancels the stream. -/
namespace Relayix
open Library

/-- The records that end a claim. -/
inductive Record.Final (fingerprint : String) : Record → Prop where
  | completed (r : ChatResponse) :
      Final fingerprint (.completed fingerprint (IdempotencyService.serialize r))
  | parked (error : String) : Final fingerprint (.parked fingerprint error)

theorem Record.Final.status_ne {fingerprint : String} {record : Record} (h : record.Final fingerprint) :
    record.status ≠ IdempotencyStatus.inProgress.value := by
  cases h with
  | completed r =>
    show IdempotencyStatus.completed.value ≠ IdempotencyStatus.inProgress.value
    decide
  | parked error =>
    show IdempotencyStatus.ambiguous.value ≠ IdempotencyStatus.inProgress.value
    decide

namespace IdempotencyService
variable {J : Interface}

/-- A settled stream, and how it ends. -/
abbrev Settling (J : Interface) := Trace ((redisI.sum J).sum (handoff ChatStreamEvent)) Exn

/-- What a run asked of the store. -/
abbrev asked (s : Settling J) : Trace redisI Exn := lefts (lefts s)

/-- What the operation's generator was told of a run: its own answers, and the consumer's. -/
abbrev operated (s : Settling J) : Trace (J.sum (handoff ChatStreamEvent)) Exn := rights (regroup s)

/-- The operation ends by itself, every item of it taken and no terminal response among them. -/
structure Silent (primed : Gen J Exn ChatStreamEvent Unit)
    (u : Trace (J.sum (handoff ChatStreamEvent)) Exn) : Prop where
  ends : Ends primed u (.ok ())
  deltas : ∀ e ∈ rights u, ∃ c, e = ⟨.delta c, .ok ()⟩

section Settle
variable {self : IdempotencyService} {apiKeyId : UUID} {key fingerprint : String}

/-! ### What it asks of the store -/

/-- A command of the store is one of these; of the others nothing is said. -/
def OfStore (P : redisI.Cmd → Prop) : ((redisI.sum J).sum (handoff ChatStreamEvent)).Cmd → Prop
  | .inl (.inl c) => P c
  | .inl (.inr _) => True
  | .inr _ => True

theorem settle_asks {P : ((redisI.sum J).sum (handoff ChatStreamEvent)).Cmd → Prop}
    (hstore : ∀ record, Record.Final fingerprint record →
      P (.inl (.inl (.set (redisKey apiKeyId key) record false self.store.completedTtlS))))
    (hyield : ∀ event, P (.inr event)) {primed : Gen J Exn ChatStreamEvent Unit}
    (hp : primed.Asks fun c : (J.sum (handoff ChatStreamEvent)).Cmd => match c with
      | .inl c => P (.inl (.inr c))
      | .inr _ => True) :
    (self.settle apiKeyId key fingerprint primed).Asks P := by
  have kept : ∀ record, Record.Final fingerprint record →
      (self.store.keep apiKeyId key record).Asks fun c => P (.inl (.inl c)) :=
    fun record hr => (Prog.Asks.perform (hstore record hr)).bind fun _ => trivial
  have broken : ∀ e, (self.broken apiKeyId key fingerprint e :
      Gen (redisI.sum J) Exn ChatStreamEvent Unit).Asks P := by
    intro e
    have parked : (self.store.markAmbiguous apiKeyId key fingerprint e.str).Asks
        fun c => P (.inl (.inl c)) := by
      refine (kept _ (.parked e.str)).tryExcept fun x => ?_
      split <;> trivial
    exact parked.inl.inl.bind fun _ => trivial
  have passed : ∀ event, (self.pass apiKeyId key fingerprint event :
      Gen (redisI.sum J) Exn ChatStreamEvent Unit).Asks P := by
    intro event
    refine (Prog.Asks.perform (hyield event)).bind fun _ => ?_
    cases event with
    | delta c => trivial
    | response r =>
      have stored : (self.store.complete apiKeyId key fingerprint (serialize r)).Asks
          fun c => P (.inl (.inl c)) := by
        refine (kept _ (.completed r)).tryExcept fun x => ?_
        split <;> trivial
      exact stored.inl.inl
  induction primed with
  | ret a => trivial
  | raise e => exact broken e
  | await c k ih =>
    cases c with
    | inl c => exact ⟨hp.1, fun a _ => ih a (hp.2 a trivial)⟩
    | inr event =>
      refine (passed event).attempt_bind fun r => ?_
      cases r with
      | ok _ => exact ih _ (hp.2 _ trivial)
      | error e =>
        exact (broken e).tryFinally (closing_asks (hp.2 _ trivial)).inr.inl

/-- Whatever it asks of the store is the write of a final record. -/
theorem settle_writes {primed : Gen J Exn ChatStreamEvent Unit} {s : Settling J} {o : Except Exn Unit}
    (h : Ends (self.settle apiKeyId key fingerprint primed) s o) :
    ∀ e ∈ asked s, ∃ record, Record.Final fingerprint record ∧
      e.cmd = .set (redisKey apiKeyId key) record false self.store.completedTtlS := by
  have asks : (self.settle apiKeyId key fingerprint primed).Asks (OfStore fun c => ∃ record, Record.Final fingerprint record ∧
      c = .set (redisKey apiKeyId key) record false self.store.completedTtlS) := by
    refine settle_asks (fun record hr => ⟨record, hr, rfl⟩) (fun _ => trivial) ?_
    refine Prog.Asks.of_forall (fun c => ?_) primed
    cases c <;> trivial
  intro e he
  exact asks.reaches h _ (mem_of_mem_lefts (mem_of_mem_lefts he))

/-! ### Its runs -/

/-- The write of an outcome, among the commands of a settled stream. -/
abbrev writes (self : IdempotencyService) (apiKeyId : UUID) (key : String) (record : Record)
    (a : Except Exn Bool) : Event ((redisI.sum J).sum (handoff ChatStreamEvent)) Exn :=
  ⟨.inl (.inl (.set (redisKey apiKeyId key) record false self.store.completedTtlS)), a⟩

/-- A broken stream is parked; what goes on is the exception, or that of the write. -/
theorem broken_ends {e : Exn} {s : Settling J} {o : Except Exn Unit}
    (h : Ends (self.broken apiKeyId key fingerprint e) s o) :
    ∃ a e', s = [self.writes apiKeyId key (.parked fingerprint e.str) a] ∧ o = .error e' ∧
      ∀ b, a = .ok b → e' = e := by
  obtain ⟨r, hm, rfl⟩ := ends_bind_raise.mp h
  obtain ⟨s', rfl, hm'⟩ := ends_inl.mp hm
  obtain ⟨t, rfl, ht⟩ := ends_inl.mp hm'
  obtain ⟨a, rfl, hr⟩ := RedisIdempotencyStore.markAmbiguous_ends ht
  refine ⟨a, _, rfl, rfl, fun b hb => ?_⟩
  subst hb
  rw [hr]

/-- An item goes out; a terminal response that was taken is then stored. -/
inductive Passes (self : IdempotencyService) (apiKeyId : UUID) (key fingerprint : String) :
    ChatStreamEvent → Settling J → Except Exn Unit → Prop where
  | refused (event : ChatStreamEvent) (e : Exn) :
      Passes self apiKeyId key fingerprint event [⟨.inr event, .error e⟩] (.error e)
  | delta (c : String) : Passes self apiKeyId key fingerprint (.delta c) [⟨.inr (.delta c), .ok ()⟩] (.ok ())
  | stored (r : ChatResponse) (b : Bool) :
      Passes self apiKeyId key fingerprint (.response r)
        [⟨.inr (.response r), .ok ()⟩,
          self.writes apiKeyId key (.completed fingerprint (serialize r)) (.ok b)] (.ok ())
  | unstored (r : ChatResponse) (e : Exn) :
      Passes self apiKeyId key fingerprint (.response r)
        [⟨.inr (.response r), .ok ()⟩,
          self.writes apiKeyId key (.completed fingerprint (serialize r)) (.error e)]
        (.error (if e.isStoreFailure then idempotencyStoreUnavailable else e))

theorem pass_ends {event : ChatStreamEvent} {s : Settling J} {o : Except Exn Unit}
    (h : Ends (self.pass apiKeyId key fingerprint event) s o) :
    self.Passes apiKeyId key fingerprint event s o := by
  rcases ends_perform_bind.mp h with ⟨_, rest, rfl, hr⟩ | ⟨e, rfl, rfl⟩
  · cases event with
    | delta c =>
      obtain ⟨rfl, rfl⟩ := ends_ret.mp hr
      exact .delta c
    | response r =>
      obtain ⟨s', rfl, hm⟩ := ends_inl.mp hr
      obtain ⟨t, rfl, ht⟩ := ends_inl.mp hm
      obtain ⟨a, rfl, rfl⟩ := RedisIdempotencyStore.complete_ends ht
      cases a with
      | ok b => exact .stored r b
      | error e => exact .unstored r e
  · exact .refused event e

/-- The turn of the loop for one item: it goes on, or the stream breaks there. -/
theorem turn_ends {event : ChatStreamEvent} {k : Except Exn Unit → Gen J Exn ChatStreamEvent Unit}
    {s : Settling J} {o : Except Exn Unit}
    (h : Ends (self.settle apiKeyId key fingerprint (.await (.inr event) k)) s o) :
    (∃ s₁ s₂, s = s₁ ++ s₂ ∧ self.Passes apiKeyId key fingerprint event s₁ (.ok ()) ∧
      Ends (self.settle apiKeyId key fingerprint (k (.ok ()))) s₂ o) ∨
    ∃ s₁ e a u x, s = s₁ ++ self.writes apiKeyId key (.parked fingerprint e.str) a ::
        (u.map Event.inr).map Event.inl ∧
      self.Passes apiKeyId key fingerprint event s₁ (.error e) ∧ Ends (Gen.aclose k) u x ∧
      ∃ e', o = .error e' := by
  obtain ⟨r, s₁, s₂, rfl, hp, hr⟩ := ends_attempt_bind.mp h
  cases r with
  | ok _ => exact .inl ⟨s₁, s₂, rfl, pass_ends hp, hr⟩
  | error e =>
    right
    obtain ⟨r, v₁, v₂, rfl, hb, hf⟩ := ends_tryFinally.mp hr
    obtain ⟨a, e', rfl, rfl, _⟩ := broken_ends hb
    have closed : ∀ {x}, Ends ((Gen.aclose k).inr.inl :
        Prog ((redisI.sum J).sum (handoff ChatStreamEvent)) Exn Unit) v₂ x →
        ∃ u, v₂ = (u.map Event.inr).map Event.inl ∧ Ends (Gen.aclose k) u x := by
      intro x hx
      obtain ⟨v, rfl, hv⟩ := ends_inl.mp hx
      obtain ⟨u, rfl, hu⟩ := ends_inr.mp hv
      exact ⟨u, rfl, hu⟩
    rcases hf with ⟨hf, rfl⟩ | ⟨x, hf, rfl⟩
    · obtain ⟨u, rfl, hu⟩ := closed hf
      exact ⟨s₁, e, a, u, _, rfl, pass_ends hp, hu, e', rfl⟩
    · obtain ⟨u, rfl, hu⟩ := closed hf
      exact ⟨s₁, e, a, u, _, rfl, pass_ends hp, hu, x, rfl⟩

/-- It asks nothing of the store exactly when the operation ends silently. -/
theorem asked_nil_iff {primed : Gen J Exn ChatStreamEvent Unit} {s : Settling J} {o : Except Exn Unit}
    (h : Ends (self.settle apiKeyId key fingerprint primed) s o) :
    asked s = [] ↔ Silent primed (operated s) := by
  induction primed generalizing s with
  | ret a =>
    obtain ⟨rfl, _⟩ := ends_ret.mp h
    exact iff_of_true rfl ⟨ends_ret.mpr ⟨rfl, rfl⟩, fun e he => absurd he List.not_mem_nil⟩
  | raise e =>
    obtain ⟨a, e', rfl, _, _⟩ := broken_ends h
    exact iff_of_false (List.cons_ne_nil _ _) fun hs => by cases (ends_raise.mp hs.ends).2
  | await c k ih =>
    cases c with
    | inl c =>
      obtain ⟨a, rest, rfl, hr⟩ := ends_await.mp h
      have hrest := ih a hr
      show asked rest = [] ↔ Silent (.await (.inl c) k) (⟨.inl c, a⟩ :: operated rest)
      rw [hrest]
      constructor
      · exact fun hs => ⟨ends_await.mpr ⟨a, _, rfl, hs.ends⟩, hs.deltas⟩
      · rintro ⟨hends, hdeltas⟩
        obtain ⟨a', rest', he, hk⟩ := ends_await.mp hends
        cases he
        exact ⟨hk, hdeltas⟩
    | inr event =>
      rcases turn_ends h with ⟨s₁, s₂, rfl, hp, hr⟩ | ⟨s₁, e, a, u, x, rfl, hp, _, _⟩
      · cases hp with
        | delta c =>
          have hrest := ih _ hr
          show asked s₂ = [] ↔ Silent (.await (.inr (.delta c)) k) (⟨.inr (.delta c), .ok ()⟩ :: operated s₂)
          rw [hrest]
          constructor
          · intro hs
            exact ⟨ends_await.mpr ⟨_, _, rfl, hs.ends⟩, List.forall_mem_cons.mpr ⟨⟨c, rfl⟩, hs.deltas⟩⟩
          · rintro ⟨hends, hdeltas⟩
            obtain ⟨a', rest', he, hk⟩ := ends_await.mp hends
            cases he
            exact ⟨hk, (List.forall_mem_cons.mp hdeltas).2⟩
        | stored r b =>
          refine iff_of_false (List.cons_ne_nil _ _) fun hs => ?_
          obtain ⟨c, hc⟩ := hs.deltas ⟨.response r, .ok ()⟩ List.mem_cons_self
          cases hc
      · cases hp with
        | refused =>
          refine iff_of_false (List.cons_ne_nil _ _) fun hs => ?_
          obtain ⟨c, hc⟩ := hs.deltas ⟨event, .error e⟩ List.mem_cons_self
          cases hc
        | unstored r e =>
          refine iff_of_false (List.cons_ne_nil _ _) fun hs => ?_
          obtain ⟨c, hc⟩ := hs.deltas ⟨.response r, .ok ()⟩ List.mem_cons_self
          cases hc

/-! ### What it leaves in Redis -/

/-- The entry of the key is a final record, written meanwhile with the longer retention. -/
def Settled (service : IdempotencyService) (apiKeyId : UUID) (key fingerprint : String) (w w' : Redis) :
    Prop :=
  ∃ record t, Record.Final fingerprint record ∧ w.now ≤ t ∧ t ≤ w'.now ∧
    w'.entries (redisKey apiKeyId key) = some ⟨record, t + service.store.completedTtlS⟩

/-- Every store command of the trace writes a final record. -/
def Writes (service : IdempotencyService) (apiKeyId : UUID) (key fingerprint : String)
    (t : Trace redisI Exn) : Prop :=
  ∀ e ∈ t, ∃ record, Record.Final fingerprint record ∧
    e.cmd = .set (redisKey apiKeyId key) record false service.store.completedTtlS

/-- Redis writes what it is asked to, where the retention is one. -/
theorem exec_set (w : Redis) (name : String) (record : Record) (ex : Int) :
    w.exec (.set name record false ex) =
      if ex ≤ 0 then (.error invalidExpire, w) else (.ok true, w.write name record ex) := rfl

section Redis
variable {K : Interface} {w w' : Redis} {t : Trace (redisI.sum K) Exn}

theorem Settled.later {w₀ : Redis} (hs : self.Settled apiKeyId key fingerprint w₀ w)
    (h : Expiring.Waits w w') : self.Settled apiKeyId key fingerprint w₀ w' := by
  obtain ⟨record, t, hr, hlo, hhi, hx⟩ := hs
  refine ⟨record, t, hr, hlo, hhi.trans h.later, ?_⟩
  rw [h.entries]
  exact hx

/-- One write: Redis ran it, or the entry is as it was and the answer was not yes. -/
theorem write_step {record : Record} {a : Except Exn Bool}
    (h : (healthy K).answers w (.inl (.set (redisKey apiKeyId key) record false self.store.completedTtlS)) a w') :
    w' = w.write (redisKey apiKeyId key) record self.store.completedTtlS ∨ (w' = w ∧ ∀ b, a ≠ .ok b) := by
  have ran : ∀ x : Except Exn Bool × Redis, x = w.exec (.set (redisKey apiKeyId key) record false
      self.store.completedTtlS) →
      x.2 = w.write (redisKey apiKeyId key) record self.store.completedTtlS ∨ (x.2 = w ∧ ∀ b, x.1 ≠ .ok b) := by
    intro x hx
    rw [exec_set] at hx
    split at hx
    · rw [hx]
      exact .inr ⟨rfl, fun b hb => by cases hb⟩
    · rw [hx]
      exact .inl rfl
  rcases h with h | ⟨rfl, rfl | h⟩
  · exact ran _ h
  · exact .inr ⟨rfl, fun b hb => by cases hb⟩
  · rcases ran _ rfl with h' | ⟨h', _⟩
    · exact .inl (h.trans h')
    · exact .inr ⟨h.trans h', fun b hb => by cases hb⟩

/-- After a write that was answered, the entry is final and stays so. -/
theorem settled_of_gives {w₀ : Redis} (h : (healthy K).Gives w t w')
    (hw : self.Writes apiKeyId key fingerprint (lefts t)) (hle : w₀.now ≤ w.now)
    (hs : self.Settled apiKeyId key fingerprint w₀ w ∨ ∃ e ∈ lefts t, ∃ b, e.answer = .ok b) :
    self.Settled apiKeyId key fingerprint w₀ w' := by
  induction h with
  | done w => exact hs.resolve_right fun ⟨e, he, _⟩ => List.not_mem_nil he
  | @command c a t w w₁ w' ha hg ih =>
    obtain c | c := c
    · obtain ⟨⟨record, hr, rfl⟩, hrest⟩ := List.forall_mem_cons.mp hw
      rcases write_step ha with rfl | ⟨rfl, hno⟩
      · exact ih hrest hle (.inl ⟨record, w.now, hr, hle, le_rfl, Expiring.write_entries_self⟩)
      · refine ih hrest hle (hs.imp_right ?_)
        rintro ⟨e, he, b, hb⟩
        rcases List.mem_cons.mp he with rfl | he
        · exact absurd hb (hno b)
        · exact ⟨e, he, b, hb⟩
    · obtain rfl : w₁ = w := ha
      exact ih hw hle hs
  | elapse he _ ih => exact ih hw (hle.trans he.later) (hs.imp_left fun h => h.later he)

/-- Where no write was answered, Redis may have run none. -/
theorem gives_same (h : (healthy K).Gives w t w')
    (hw : self.Writes apiKeyId key fingerprint (lefts t))
    (hno : ∀ e ∈ lefts t, ∀ b, e.answer ≠ .ok b) (w₀ : Redis) : (healthy K).Gives w₀ t w₀ := by
  induction h with
  | done w => exact .done w₀
  | @command c a t w w₁ w' ha hg ih =>
    obtain c | c := c
    · obtain ⟨⟨record, hr, rfl⟩, hrest⟩ := List.forall_mem_cons.mp hw
      obtain ⟨hhead, hno⟩ := List.forall_mem_cons.mp hno
      refine .command ?_ (ih hrest hno)
      rcases ha with ha | ⟨rfl, _⟩
      · rw [exec_set] at ha
        split at ha
        · rename_i hex
          obtain ⟨rfl, _⟩ := Prod.mk.inj ha
          exact .inl (by rw [exec_set, if_pos hex])
        · exact absurd (Prod.mk.inj ha).1 (hhead true)
      · exact .inr ⟨rfl, .inl rfl⟩
    · exact .command rfl (ih hw hno)
  | elapse _ _ ih => exact ih hw hno

end Redis

/-- What the generator of an acquired key leaves there, begun or not. -/
theorem settled_iff {primed : Gen J Exn ChatStreamEvent Unit} {begun : Bool}
    {t : Trace (redisI.sum (J.sum (handoff ChatStreamEvent))) Exn} {w : Redis} {x : Expires Record}
    (hclaim : w.entries (redisKey apiKeyId key) = some x) (hx : x.value = .claimed fingerprint)
    (h : Over (self.settle apiKeyId key fingerprint primed).assoc begun t)
    (hplay : ∃ w', (healthy (J.sum (handoff ChatStreamEvent))).Gives w t w') :
    (∀ w', (healthy (J.sum (handoff ChatStreamEvent))).Gives w t w' →
        self.Settled apiKeyId key fingerprint w w') ↔
      begun = true ∧ ¬ Silent primed (rights t) ∧ (lefts t ≠ [] → ∃ e ∈ lefts t, ∃ b, e.answer = .ok b) := by
  have unsettled : ¬ self.Settled apiKeyId key fingerprint w w := by
    rintro ⟨record, _, hr, _, _, he⟩
    rw [hclaim] at he
    cases he
    exact hr.status_ne (congrArg Record.status hx)
  cases h with
  | unbegun => exact iff_of_false (fun h => unsettled (h w (.done w))) fun h => by cases h.1
  | ended o h =>
    obtain ⟨s, rfl, hs⟩ := ends_assoc.mp h
    have hw : self.Writes apiKeyId key fingerprint (lefts (regroup s)) := by
      rw [lefts_regroup]
      exact settle_writes hs
    have hsilent : lefts (regroup s) = [] ↔ Silent primed (rights (regroup s)) := by
      rw [lefts_regroup]
      exact asked_nil_iff hs
    obtain ⟨w', hplay⟩ := hplay
    constructor
    · intro hall
      have hok : ∃ e ∈ lefts (regroup s), ∃ b, e.answer = .ok b := by
        by_contra hnone
        exact unsettled (hall w (gives_same hplay hw (fun e he b hb => hnone ⟨e, he, b, hb⟩) w))
      refine ⟨rfl, fun hsil => ?_, fun _ => hok⟩
      obtain ⟨e, he, _⟩ := hok
      rw [hsilent.mpr hsil] at he
      exact List.not_mem_nil he
    · rintro ⟨_, hsil, hok⟩ w' hg
      exact settled_of_gives hg hw le_rfl (.inr (hok fun hnil => hsil (hsilent.mp hnil)))

/-- A claim that was granted ends the reservation. -/
theorem tryReserve_acquired {n : Nat} {t : Trace redisI Exn} {o : Except Exn (Option ReservationOutcome)}
    (h : Ends (self.store.tryReserve apiKeyId key fingerprint n) t o)
    (hacq : ∃ e ∈ t, claimed e = true) : o = .ok (some { acquired := true }) := by
  obtain ⟨e, he, hc⟩ := hacq
  induction n generalizing t with
  | zero =>
    obtain ⟨rfl, _⟩ := ends_ret.mp h
    exact absurd he List.not_mem_nil
  | succ n ih =>
    obtain ⟨acquired, rest, rfl, hset⟩ | ⟨x, rfl, _⟩ := ends_perform_bind.mp h
    · cases acquired with
      | true => exact (ends_ret.mp hset).2
      | false =>
        have hrest : e ∈ rest := by
          rcases List.mem_cons.mp he with rfl | he
          · cases hc
          · exact he
        obtain ⟨existing, rest, rfl, hget⟩ | ⟨x, rfl, _⟩ := ends_perform_bind.mp hset
        · rcases List.mem_cons.mp hrest with rfl | hlater
          · cases hc
          · cases existing with
            | none => exact ih hget hlater
            | some record =>
              obtain ⟨rfl, _⟩ := ends_ret.mp hget
              exact absurd hlater List.not_mem_nil
        · rw [List.mem_singleton.mp hrest] at hc
          cases hc
    · rw [List.mem_singleton.mp he] at hc
      cases hc

theorem reserve_acquired {t : Trace redisI Exn} {o : Except Exn ReservationOutcome}
    (h : Ends (self.store.reserve apiKeyId key fingerprint) t o)
    (hacq : ∃ e ∈ t, claimed e = true) : o = .ok { acquired := true } := by
  have tried : ∀ {s r}, Ends ((self.store.tryReserve apiKeyId key fingerprint reserveAttempts).tryExcept fun e =>
      if e.isStoreFailure then .raise idempotencyStoreUnavailable else .raise e) s r →
      (∃ e ∈ s, claimed e = true) → r = .ok (some { acquired := true }) := by
    intro s r hs hclaimed
    obtain ⟨_, rfl, hloop⟩ | ⟨e, v₁, v₂, rfl, hloop, hf⟩ := ends_tryExcept.mp hs
    · exact tryReserve_acquired hloop hclaimed
    · have hnil : v₂ = [] := by
        split at hf <;> exact (ends_raise.mp hf).1
      rw [hnil, List.append_nil] at hclaimed
      cases tryReserve_acquired hloop hclaimed
  obtain ⟨r, t₁, t₂, rfl, htry, hr⟩ | ⟨e, _, htry⟩ := ends_bind.mp h
  · have hnil : t₂ = [] := by
      cases r with
      | none => exact (ends_raise.mp hr).1
      | some r => exact (ends_ret.mp hr).1
    rw [hnil, List.append_nil] at hacq
    cases tried htry hacq
    exact (ends_ret.mp hr).2
  · cases tried htry hacq

/-- The handlers of the operation always raise. -/
theorem unserved_raises {α : Type} {e : Exn} {t : Trace (redisI.sum J) Exn} {o : Except Exn α}
    (h : Ends (self.unserved apiKeyId key fingerprint e) t o) : ∃ e', o = .error e' := by
  unfold unserved at h
  split at h
  · obtain ⟨_, _, ho⟩ := ends_bind_raise.mp h
    exact ⟨_, ho⟩
  · obtain ⟨_, _, ho⟩ := ends_bind_raise.mp h
    exact ⟨_, ho⟩

/-- What `execute_stream` returns: the settled stream of its operation, or a replay. -/
theorem executeStream_returns {request : ChatRequest}
    {operation : Prog J Exn (Gen J Exn ChatStreamEvent Unit)} {u : Trace (redisI.sum J) Exn}
    {events : Gen (redisI.sum J) Exn ChatStreamEvent Unit}
    (h : Ends (self.executeStream apiKeyId key request operation) u (.ok events)) :
    (∃ primed v, Ends operation v (.ok primed) ∧
      events = self.settle apiKeyId key (self.fingerprint request) primed) ∨
    ((¬ ∃ e ∈ lefts u, claimed e = true) ∧ ∃ body, events = replayStream body) := by
  obtain ⟨outcome, t₁, t₂, rfl, hres, hrest⟩ | ⟨e, he, _⟩ := ends_bind.mp h
  · obtain ⟨t, rfl, ht⟩ := ends_inl.mp hres
    cases hout : outcome.acquired with
    | true =>
      simp only [hout, if_true] at hrest
      obtain ⟨primed, v₁, v₂, rfl, hop, hret⟩ | ⟨e, he, _⟩ := ends_bind.mp hrest
      · obtain ⟨_, he⟩ := ends_ret.mp hret
        cases he
        obtain ⟨_, hp, hran⟩ | ⟨e, w₁, w₂, _, _, hf⟩ := ends_tryExcept.mp hop
        · cases hp
          obtain ⟨v, _, hv⟩ := ends_inr.mp hran
          exact .inl ⟨primed, v, hv, rfl⟩
        · obtain ⟨e', he⟩ := unserved_raises hf
          cases he
      · cases he
    | false =>
      simp only [hout, Bool.false_eq_true, if_false] at hrest
      right
      cases hr : refuse (self.fingerprint request) outcome with
      | error e =>
        rw [hr] at hrest
        cases (ends_raise.mp hrest).2
      | ok body =>
        rw [hr] at hrest
        obtain ⟨rfl, he⟩ := ends_ret.mp hrest
        cases he
        refine ⟨fun hacq => ?_, body, rfl⟩
        rw [List.append_nil, lefts_map_inl] at hacq
        cases reserve_acquired ht hacq
        cases hout
  · cases he

/-- What it returns to the call that acquired the key. -/
theorem executeStream_acquired {request : ChatRequest}
    {operation : Prog J Exn (Gen J Exn ChatStreamEvent Unit)} {u : Trace (redisI.sum J) Exn}
    {events : Gen (redisI.sum J) Exn ChatStreamEvent Unit}
    (h : Ends (self.executeStream apiKeyId key request operation) u (.ok events))
    (hacq : ∃ e ∈ lefts u, claimed e = true) :
    ∃ primed v, Ends operation v (.ok primed) ∧
      events = self.settle apiKeyId key (self.fingerprint request) primed :=
  (executeStream_returns h).resolve_right fun hno => hno.1 hacq

/-- **How a stream leaves its key, and exactly when.** For every generator that
`execute_stream` returns to the call that acquired the key, and every end of it: whether or
not Redis ran the writes that were cancelled, the entry afterwards is a final record with the
longer retention, exactly if the generator was begun, its operation did not end silently, and
not every write it asked for was cancelled, or refused for a retention that is not positive. -/
theorem stream_settled_iff {request : ChatRequest}
    {operation : Prog J Exn (Gen J Exn ChatStreamEvent Unit)} {u : Trace (redisI.sum J) Exn}
    {events : Gen (redisI.sum J) Exn ChatStreamEvent Unit}
    (h : Ends (self.executeStream apiKeyId key request operation) u (.ok events))
    (hacq : ∃ e ∈ lefts u, claimed e = true) :
    ∃ primed v, Ends operation v (.ok primed) ∧
      ∀ (begun : Bool) (t : Trace (redisI.sum (J.sum (handoff ChatStreamEvent))) Exn) (w : Redis)
        (x : Expires Record), Over events.assoc begun t →
        w.entries (redisKey apiKeyId key) = some x → x.value = .claimed (self.fingerprint request) →
        (∃ w', (healthy (J.sum (handoff ChatStreamEvent))).Gives w t w') →
        ((∀ w', (healthy (J.sum (handoff ChatStreamEvent))).Gives w t w' →
            self.Settled apiKeyId key (self.fingerprint request) w w') ↔
          begun = true ∧ ¬ Silent primed (rights t) ∧
            (lefts t ≠ [] → ∃ e ∈ lefts t, ∃ b, e.answer = .ok b)) := by
  obtain ⟨primed, v, hv, rfl⟩ := executeStream_acquired h hacq
  exact ⟨primed, v, hv, fun begun t w x hover hclaim hx hplay => settled_iff hclaim hx hover hplay⟩

/-! ### The consumer that stops at the terminal response -/

/-- Where the consumer stops, the stream is parked; nothing is handed over or stored after. -/
theorem stopped_ends {primed : Gen J Exn ChatStreamEvent Unit} {s : Settling J} {o : Except Exn Unit}
    {event : ChatStreamEvent} {e : Exn} (h : Ends (self.settle apiKeyId key fingerprint primed) s o)
    (hstop : ⟨.inr event, .error e⟩ ∈ s) :
    ∃ pre a, ∃ u : Trace J Exn, s = pre ++ ⟨.inr event, .error e⟩ :: self.writes apiKeyId key (.parked fingerprint e.str) a ::
      (u.map Event.inr).map Event.inl := by
  induction primed generalizing s with
  | ret a =>
    obtain ⟨rfl, _⟩ := ends_ret.mp h
    exact absurd hstop List.not_mem_nil
  | raise x =>
    obtain ⟨a, e', rfl, _, _⟩ := broken_ends h
    cases List.mem_singleton.mp hstop
  | await c k ih =>
    cases c with
    | inl c =>
      obtain ⟨a, rest, rfl, hr⟩ := ends_await.mp h
      rcases List.mem_cons.mp hstop with he | hstop
      · cases he
      · obtain ⟨pre, b, u, rfl⟩ := ih a hr hstop
        exact ⟨_ :: pre, b, u, rfl⟩
    | inr event' =>
      rcases turn_ends h with ⟨s₁, s₂, rfl, hp, hr⟩ | ⟨s₁, x, a, u, y, rfl, hp, _, _⟩
      · rcases List.mem_append.mp hstop with hmem | hmem
        · cases hp with
          | delta c => cases List.mem_singleton.mp hmem
          | stored r b =>
            rcases List.mem_cons.mp hmem with he | hmem
            · cases he
            · cases List.mem_singleton.mp hmem
        · obtain ⟨pre, b, u, rfl⟩ := ih _ hr hmem
          exact ⟨s₁ ++ pre, b, u, (List.append_assoc ..).symm⟩
      · have tail : ⟨.inr event, .error e⟩ ∉ self.writes apiKeyId key (.parked fingerprint x.str) a ::
            ((u.map Event.inr).map Event.inl : Settling J) := by
          intro hmem
          rcases List.mem_cons.mp hmem with he | hmem
          · cases he
          · obtain ⟨z, _, hz⟩ := List.mem_map.mp hmem
            cases hz
        have hmem := (List.mem_append.mp hstop).resolve_right tail
        cases hp with
        | refused =>
          cases List.mem_singleton.mp hmem
          exact ⟨[], a, u, rfl⟩
        | unstored r x =>
          rcases List.mem_cons.mp hmem with he | hmem
          · cases he
          · cases List.mem_singleton.mp hmem

/-- The response is stored, to be replayed. -/
def Replayable (apiKeyId : UUID) (key fingerprint : String) (r : ChatResponse) (w : Redis) : Prop :=
  ∃ deadline, w.entries (redisKey apiKeyId key) = some ⟨.completed fingerprint (serialize r), deadline⟩

section Sound
variable {K : Interface} {w w' : Redis} {t : Trace (redisI.sum K) Exn}

/-- Without a store command only time passes. -/
theorem waits_of_gives (h : (sound K).Gives w t w') (ht : lefts t = []) : Expiring.Waits w w' := by
  induction h with
  | done w => exact .refl w
  | @command c a t w w₁ w' ha _ ih =>
    obtain c | c := c
    · cases ht
    · obtain rfl : w₁ = w := ha
      exact ih ht
  | elapse he _ ih => exact .trans he (ih ht)

/-- Without a retention nothing is written. -/
theorem unwritten (h : (sound K).Gives w t w') (hw : self.Writes apiKeyId key fingerprint (lefts t))
    (hex : self.store.completedTtlS ≤ 0) : w'.entries = w.entries := by
  induction h with
  | done w => rfl
  | @command c a t w w₁ w' ha _ ih =>
    obtain c | c := c
    · obtain ⟨⟨record, _, rfl⟩, hrest⟩ := List.forall_mem_cons.mp hw
      change (a, w₁) = w.exec (.set (redisKey apiKeyId key) record false self.store.completedTtlS) at ha
      rw [exec_set, if_pos hex] at ha
      obtain ⟨_, rfl⟩ := Prod.mk.inj ha
      exact ih hrest
    · obtain rfl : w₁ = w := ha
      exact ih hw
  | elapse he _ ih => exact (ih hw).trans he.entries

end Sound

/-- What a settled stream leaves whose consumer stopped at an item. -/
theorem stopped_parked {primed : Gen J Exn ChatStreamEvent Unit}
    {t : Trace (redisI.sum (J.sum (handoff ChatStreamEvent))) Exn} {o : Except Exn Unit}
    {event : ChatStreamEvent} {e : Exn} {w w' : Redis}
    (h : Ends (self.settle apiKeyId key fingerprint primed).assoc t o)
    (hstop : ⟨.inr (.inr event), .error e⟩ ∈ t)
    (hg : (sound (J.sum (handoff ChatStreamEvent))).Gives w t w') (hex : 0 < self.store.completedTtlS) :
    ∃ deadline, w'.entries (redisKey apiKeyId key) = some ⟨.parked fingerprint e.str, deadline⟩ := by
  obtain ⟨s, rfl, hs⟩ := ends_assoc.mp h
  obtain ⟨pre, a, u, rfl⟩ := stopped_ends hs (mem_of_mem_regroup hstop)
  rw [regroup_append] at hg
  obtain ⟨v, _, hg⟩ := hg.split
  obtain ⟨v₁, v₂, _, hitem, hg⟩ := hg.head
  obtain ⟨v₃, v₄, _, hpark, hg⟩ := World.Gives.head hg
  have hrest := waits_of_gives hg (by rw [lefts_regroup, lefts_map_inl, lefts_map_inr])
  change (a, v₄) = v₃.exec (.set (redisKey apiKeyId key) (.parked fingerprint e.str) false
    self.store.completedTtlS) at hpark
  rw [exec_set, if_neg (not_le.mpr hex)] at hpark
  refine ⟨v₃.now + self.store.completedTtlS, ?_⟩
  rw [hrest.entries, (Prod.mk.inj hpark).2]
  exact Expiring.write_entries_self

/-- **A response that was delivered in full cannot be replayed** where the consumer stops at
it: for every stream of the call that acquired the key, the key is parked, and a later call
with the same body is told that the outcome is unknown. -/
theorem delivered_not_replayable {request : ChatRequest}
    {operation : Prog J Exn (Gen J Exn ChatStreamEvent Unit)} {u : Trace (redisI.sum J) Exn}
    {events : Gen (redisI.sum J) Exn ChatStreamEvent Unit}
    (h : Ends (self.executeStream apiKeyId key request operation) u (.ok events))
    (hacq : ∃ e ∈ lefts u, claimed e = true)
    {t : Trace (redisI.sum (J.sum (handoff ChatStreamEvent))) Exn} {o : Except Exn Unit}
    (hends : Ends events.assoc t o) {r : ChatResponse} {e : Exn}
    (hstop : ⟨.inr (.inr (.response r)), .error e⟩ ∈ t) {w w' : Redis} {x : Expires Record}
    (hclaim : w.entries (redisKey apiKeyId key) = some x)
    (hx : x.value = .claimed (self.fingerprint request))
    (hg : (sound (J.sum (handoff ChatStreamEvent))).Gives w t w') :
    ¬ Replayable apiKeyId key (self.fingerprint request) r w' ∧
      (0 < self.store.completedTtlS →
        (∃ deadline, w'.entries (redisKey apiKeyId key) =
          some ⟨.parked (self.fingerprint request) e.str, deadline⟩) ∧
        refuse (self.fingerprint request) (.found (.parked (self.fingerprint request) e.str)) =
          .error (idempotencyOutcomeUnknown (some e.str))) := by
  obtain ⟨primed, v, hv, rfl⟩ := executeStream_acquired h hacq
  by_cases hex : 0 < self.store.completedTtlS
  · obtain ⟨deadline, hparked⟩ := stopped_parked hends hstop hg hex
    refine ⟨?_, fun _ => ⟨⟨deadline, hparked⟩, ?_⟩⟩
    · rintro ⟨deadline', hcompleted⟩
      rw [hparked] at hcompleted
      have hstatus : IdempotencyStatus.ambiguous.value = IdempotencyStatus.completed.value :=
        congrArg (fun x => x.value.status) (Option.some.inj hcompleted)
      exact absurd hstatus (by decide)
    · have hfound : (ReservationOutcome.found (.parked (self.fingerprint request) e.str)).requestFingerprint =
          some (self.fingerprint request) := rfl
      rw [refuse, if_neg (not_not.mpr hfound)]
      rfl
  · refine ⟨?_, fun h => absurd h hex⟩
    rintro ⟨deadline', hcompleted⟩
    obtain ⟨s, rfl, hs⟩ := ends_assoc.mp hends
    rw [unwritten hg (by rw [lefts_regroup]; exact settle_writes hs) (not_lt.mp hex), hclaim] at hcompleted
    rw [Option.some.inj hcompleted] at hx
    have hstatus : IdempotencyStatus.completed.value = IdempotencyStatus.inProgress.value :=
      congrArg Record.status hx
    exact absurd hstatus (by decide)

end Settle

/-! ### On one stream -/

section Trial

/-- A claim just made, and the call that made it. -/
abbrev trialClaim : Redis :=
  Expiring.write ⟨0, fun _ => none⟩ (redisKey ⟨7⟩ "k1") (.claimed (trialService.fingerprint trialRequest))
    (120 : Int)

/-- Drained to its end, the stream leaves its response. -/
theorem stream_settled_drained :
    ∃ w', trialService.Settled ⟨7⟩ "k1" (trialService.fingerprint trialRequest) trialClaim w' := by
  let print := trialService.fingerprint trialRequest
  have returned : ∃ events, Ends (trialService.executeStream ⟨7⟩ "k1" trialRequest
      (.ret (primed (.response trialResponse))))
      [⟨.inl (.set (redisKey ⟨7⟩ "k1") (.claimed print) true 120), .ok true⟩] (.ok events) ∧
      Over events.assoc true [⟨.inr (.inl .arrive), .ok ()⟩, ⟨.inr (.inr (.response trialResponse)), .ok ()⟩,
        ⟨.inl (.set (redisKey ⟨7⟩ "k1") (.completed print (serialize trialResponse)) false 86400), .ok true⟩] :=
    ⟨_, .step _ (.refl _), .ended (.ok ()) (.step _ (.step _ (.step _ (.refl _))))⟩
  obtain ⟨events, hreturned, hover⟩ := returned
  obtain ⟨prim, v, hv, hall⟩ := stream_settled_iff hreturned ⟨_, List.mem_cons_self, rfl⟩
  have hp : prim = primed (.response trialResponse) := Except.ok.inj (ends_ret.mp hv).2
  have played : (healthy (operationI.sum (handoff ChatStreamEvent))).Gives trialClaim
      [⟨.inr (.inl .arrive), .ok ()⟩, ⟨.inr (.inr (.response trialResponse)), .ok ()⟩,
        ⟨.inl (.set (redisKey ⟨7⟩ "k1") (.completed print (serialize trialResponse)) false 86400), .ok true⟩]
      (trialClaim.write (redisKey ⟨7⟩ "k1") (.completed print (serialize trialResponse)) (86400 : Int)) :=
    .command rfl (.command rfl (.command (.inl rfl) (.done _)))
  refine ⟨_, (hall true _ trialClaim _ hover Expiring.write_entries_self rfl ⟨_, played⟩).mpr
    ⟨rfl, fun hs => ?_, fun _ => ⟨_, List.mem_cons_self, true, rfl⟩⟩ _ played⟩
  obtain ⟨c, hc⟩ := hs.deltas ⟨.response trialResponse, .ok ()⟩ List.mem_cons_self
  cases hc

/-- The consumer closes the generator before it asks for the first item: the claim stays as
it is, to expire after `inflight_ttl_s`. -/
theorem stream_unbegun :
    ∃ (events : Gen (redisI.sum operationI) Exn ChatStreamEvent Unit) (u : Trace (redisI.sum operationI) Exn),
      Ends (trialService.executeStream ⟨7⟩ "k1" trialRequest (.ret (primed (.response trialResponse)))) u
        (.ok events) ∧
      (∃ e ∈ lefts u, claimed e = true) ∧ Over events.assoc false [] ∧
      (healthy (operationI.sum (handoff ChatStreamEvent))).Gives trialClaim [] trialClaim ∧
      ¬ trialService.Settled ⟨7⟩ "k1" (trialService.fingerprint trialRequest) trialClaim trialClaim := by
  refine ⟨_, [⟨.inl (.set (redisKey ⟨7⟩ "k1") (.claimed (trialService.fingerprint trialRequest)) true 120),
    .ok true⟩], .step _ (.refl _), ⟨_, List.mem_cons_self, rfl⟩, .unbegun, .done _, ?_⟩
  rintro ⟨record, t, hr, _, _, hx⟩
  rw [Expiring.write_entries_self] at hx
  have hvalue := congrArg Expires.value (Option.some.inj hx)
  exact hr.status_ne (congrArg Record.status hvalue).symm

/-- A consumer that takes the terminal response and closes the stream. -/
structure ClosedAtResponse (events : Gen (redisI.sum operationI) Exn ChatStreamEvent Unit)
    (u : Trace (redisI.sum operationI) Exn)
    (t : Trace (redisI.sum (operationI.sum (handoff ChatStreamEvent))) Exn) (w' : Redis) : Prop where
  returned : Ends (trialService.executeStream ⟨7⟩ "k1" trialRequest (.ret (primed (.response trialResponse)))) u
    (.ok events)
  acquired : ∃ e ∈ lefts u, claimed e = true
  closed : Ends events.assoc t (.error .generatorExit)
  stopped : (⟨.inr (.inr (.response trialResponse)), .error .generatorExit⟩ :
    Event (redisI.sum (operationI.sum (handoff ChatStreamEvent))) Exn) ∈ t
  played : (sound (operationI.sum (handoff ChatStreamEvent))).Gives trialClaim t w'

theorem closedAtResponse : ∃ events u t,
    ClosedAtResponse events u t (trialClaim.write (redisKey ⟨7⟩ "k1")
      (.parked (trialService.fingerprint trialRequest) "") (86400 : Int)) :=
  ⟨_, [⟨.inl (.set (redisKey ⟨7⟩ "k1") (.claimed (trialService.fingerprint trialRequest)) true 120), .ok true⟩],
    [⟨.inr (.inl .arrive), .ok ()⟩, ⟨.inr (.inr (.response trialResponse)), .error .generatorExit⟩,
      ⟨.inl (.set (redisKey ⟨7⟩ "k1") (.parked (trialService.fingerprint trialRequest) "") false 86400), .ok true⟩],
    .step _ (.refl _), ⟨_, List.mem_cons_self, rfl⟩, .step _ (.step _ (.step _ (.refl _))),
    List.mem_cons_of_mem _ List.mem_cons_self, .command rfl (.command rfl (.command rfl (.done _)))⟩

/-- The next call with the same body is told that the outcome is unknown. -/
theorem delivered_not_replayable_closed :
    refuse (trialService.fingerprint trialRequest) (.found (.parked (trialService.fingerprint trialRequest) "")) =
      .error (idempotencyOutcomeUnknown (some "")) := by
  obtain ⟨events, u, t, h⟩ := closedAtResponse
  exact ((delivered_not_replayable h.returned h.acquired h.closed h.stopped Expiring.write_entries_self rfl
    h.played).2 (by decide)).2

/-- The response was delivered, and the key does not hold it. -/
theorem response_closed :
    ∃ events u t w', ClosedAtResponse events u t w' ∧
      ¬ Replayable ⟨7⟩ "k1" (trialService.fingerprint trialRequest) trialResponse w' := by
  obtain ⟨events, u, t, h⟩ := closedAtResponse
  refine ⟨events, u, t, _, h, ?_⟩
  rintro ⟨deadline, hx⟩
  rw [Expiring.write_entries_self] at hx
  have hstatus : IdempotencyStatus.ambiguous.value = IdempotencyStatus.completed.value :=
    congrArg (fun x => x.value.status) (Option.some.inj hx)
  exact absurd hstatus (by decide)

end Trial
end IdempotencyService
end Relayix
