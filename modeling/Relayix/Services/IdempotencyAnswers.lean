import Mathlib.Tactic.NormNum
import Relayix.Services.IdempotencySafety

/-! What a call says that does not own the key.

Its reservation lost three races, or read the record of somebody else; the rest of the
call follows from that record. The records are those that calls write (`Record.Written`),
so a completed one always has a response to give back. -/
namespace Relayix
open Library

/-- The key was taken, by the owner of this record. -/
def ReservationOutcome.found (record : Record) : ReservationOutcome where
  acquired := false
  status := some record.status
  requestFingerprint := some record.fingerprint
  responseBody := record.response
  error := record.error

namespace RedisIdempotencyStore
variable (self : RedisIdempotencyStore) (apiKeyId : UUID) (key fingerprint : String)

/-- The `SET NX` of `reserve`, and its `GET`. -/
abbrev attempt (acquired : Bool) : Event redisI Exn :=
  ⟨.set (redisKey apiKeyId key) (.claimed fingerprint) true self.inflightTtlS, .ok acquired⟩

abbrev look (existing : Option Record) : Event redisI Exn :=
  ⟨.get (redisKey apiKeyId key), .ok existing⟩

/-- Claim races lost: each time the record was gone again when it was read. -/
def races : Nat → Trace redisI Exn
  | 0 => []
  | n + 1 => self.attempt apiKeyId key fingerprint false :: look apiKeyId key none :: races n

variable {self apiKeyId key fingerprint} {t : Trace redisI Exn}

/-- A reservation that is not granted, and in which no command fails. -/
theorem tryReserve_ends {n : Nat} {o : Except Exn (Option ReservationOutcome)}
    (h : Ends (self.tryReserve apiKeyId key fingerprint n) t o)
    (hok : ∀ e ∈ t, ∃ a, e.answer = .ok a) (hno : ∀ e ∈ t, IdempotencyService.claimed e = false) :
    (∃ m record, m < n ∧ t = self.races apiKeyId key fingerprint m ++
        [self.attempt apiKeyId key fingerprint false, look apiKeyId key (some record)] ∧
      o = .ok (some (.found record))) ∨
    (t = self.races apiKeyId key fingerprint n ∧ o = .ok none) := by
  induction n generalizing t with
  | zero =>
    obtain ⟨rfl, rfl⟩ := ends_ret.mp h
    exact .inr ⟨rfl, rfl⟩
  | succ n ih =>
    rcases ends_perform_bind.mp h with ⟨acquired, rest, rfl, hset⟩ | ⟨e, rfl, _⟩
    · cases acquired with
      | true => cases hno _ List.mem_cons_self
      | false =>
        rcases ends_perform_bind.mp hset with ⟨existing, rest, rfl, hget⟩ | ⟨e, rfl, _⟩
        · cases existing with
          | none =>
            have htail : ∀ e ∈ rest, e ∈ self.attempt apiKeyId key fingerprint false ::
                look apiKeyId key none :: rest :=
              fun e he => List.mem_cons_of_mem _ (List.mem_cons_of_mem _ he)
            rcases ih hget (fun e he => hok e (htail e he)) (fun e he => hno e (htail e he)) with
              ⟨m, record, hm, rfl, ho⟩ | ⟨rfl, ho⟩
            · exact .inl ⟨m + 1, record, Nat.succ_lt_succ hm, rfl, ho⟩
            · exact .inr ⟨rfl, ho⟩
          | some record =>
            obtain ⟨rfl, rfl⟩ := ends_ret.mp hget
            exact .inl ⟨0, record, Nat.succ_pos n, rfl, rfl⟩
        · obtain ⟨a, ha⟩ := hok (⟨.get (redisKey apiKeyId key), .error e⟩ : Event redisI Exn)
            (List.mem_cons_of_mem _ List.mem_cons_self)
          cases ha
    · obtain ⟨a, ha⟩ := hok _ List.mem_cons_self
      cases ha

theorem reserve_ends {o : Except Exn ReservationOutcome}
    (h : Ends (self.reserve apiKeyId key fingerprint) t o)
    (hok : ∀ e ∈ t, ∃ a, e.answer = .ok a) (hno : ∀ e ∈ t, IdempotencyService.claimed e = false) :
    (∃ m record, m < reserveAttempts ∧ t = self.races apiKeyId key fingerprint m ++
        [self.attempt apiKeyId key fingerprint false, look apiKeyId key (some record)] ∧
      o = .ok (.found record)) ∨
    (t = self.races apiKeyId key fingerprint reserveAttempts ∧
      o = .error idempotencyStoreUnavailable) := by
  have tried : ∀ {t₁ : Trace redisI Exn} {r : Except Exn (Option ReservationOutcome)},
      (∀ e ∈ t₁, e ∈ t) →
      Ends ((self.tryReserve apiKeyId key fingerprint reserveAttempts).tryExcept fun e =>
        if e.isStoreFailure then .raise idempotencyStoreUnavailable else .raise e) t₁ r →
      ∃ r', r = .ok r' ∧ Ends (self.tryReserve apiKeyId key fingerprint reserveAttempts) t₁ (.ok r') := by
    intro t₁ r ht htry
    rcases ends_tryExcept.mp htry with ⟨r', rfl, hr⟩ | ⟨e, u₁, u₂, rfl, hr, _⟩
    · exact ⟨r', rfl, hr⟩
    · -- no command failed, so the loop did not raise
      have hsub : ∀ e ∈ u₁, e ∈ t := fun e he => ht e (List.mem_append_left _ he)
      rcases tryReserve_ends hr (fun e he => hok e (hsub e he)) (fun e he => hno e (hsub e he)) with
        ⟨_, _, _, _, ho⟩ | ⟨_, ho⟩ <;> cases ho
  rcases ends_bind.mp h with ⟨outcome, t₁, t₂, rfl, htry, hrest⟩ | ⟨e, rfl, htry⟩
  · have hsub : ∀ e ∈ t₁, e ∈ t₁ ++ t₂ := fun e he => List.mem_append_left _ he
    obtain ⟨r', hr', hloop⟩ := tried hsub htry
    cases hr'
    rcases tryReserve_ends hloop (fun e he => hok e (hsub e he)) (fun e he => hno e (hsub e he)) with
      ⟨m, record, hm, rfl, ho⟩ | ⟨rfl, ho⟩
    · cases ho
      obtain ⟨rfl, rfl⟩ := ends_ret.mp hrest
      exact .inl ⟨m, record, hm, by simp, rfl⟩
    · cases ho
      obtain ⟨rfl, rfl⟩ := ends_raise.mp hrest
      exact .inr ⟨by simp, rfl⟩
  · obtain ⟨r', hr', _⟩ := tried (fun _ he => he) htry
    cases hr'

/-- What follows a reservation that is not granted. -/
theorem reserve_bind_ends {J : Interface} {α : Type} {f : ReservationOutcome → Prog (redisI.sum J) Exn α}
    {t : Trace (redisI.sum J) Exn} {o : Except Exn α}
    (h : Ends ((self.reserve apiKeyId key fingerprint).inl.bind f) t o)
    (hok : ∀ e ∈ lefts t, ∃ a, e.answer = .ok a)
    (hno : ∀ e ∈ lefts t, IdempotencyService.claimed e = false) :
    (∃ m record rest, m < reserveAttempts ∧ t = (self.races apiKeyId key fingerprint m ++
        [self.attempt apiKeyId key fingerprint false, look apiKeyId key (some record)]).map Event.inl ++
          rest ∧ Ends (f (.found record)) rest o) ∨
    (t = (self.races apiKeyId key fingerprint reserveAttempts).map Event.inl ∧
      o = .error idempotencyStoreUnavailable) := by
  rcases ends_bind.mp h with ⟨outcome, t₁, t₂, rfl, hres, hrest⟩ | ⟨e, rfl, hres⟩
  · obtain ⟨s, rfl, hs⟩ := ends_inl.mp hres
    rw [lefts_append, lefts_map_inl] at hok hno
    rcases reserve_ends hs (fun e he => hok e (List.mem_append_left _ he))
      (fun e he => hno e (List.mem_append_left _ he)) with
      ⟨m, record, hm, rfl, ho⟩ | ⟨_, ho⟩
    · cases ho
      exact .inl ⟨m, record, t₂, hm, rfl, hrest⟩
    · cases ho
  · obtain ⟨s, rfl, hs⟩ := ends_inl.mp hres
    rw [lefts_map_inl] at hok hno
    rcases reserve_ends hs hok hno with ⟨_, _, _, _, ho⟩ | ⟨rfl, ho⟩
    · cases ho
    · cases ho
      exact .inr ⟨rfl, rfl⟩

end RedisIdempotencyStore

namespace IdempotencyService
open RedisIdempotencyStore (races attempt look)

/-- The answer to a call that does not own the key, given the record it read. -/
inductive Refusal (fingerprint : String) (record : Record) : Except Exn ChatResponse → Prop where
  | conflict : record.fingerprint ≠ fingerprint →
      Refusal fingerprint record (.error idempotencyKeyConflict)
  | stored (r : ChatResponse) : record.fingerprint = fingerprint →
      record.status = IdempotencyStatus.completed.value → record.response = some (serialize r) →
      Refusal fingerprint record (.ok r)
  | unknown : record.fingerprint = fingerprint →
      record.status = IdempotencyStatus.ambiguous.value →
      Refusal fingerprint record (.error (idempotencyOutcomeUnknown record.error))
  | inProgress : record.fingerprint = fingerprint →
      record.status = IdempotencyStatus.inProgress.value →
      Refusal fingerprint record (.error idempotencyInProgress)

/-- The code refuses, or finds a response, as the record calls for. -/
theorem refuse_found (fingerprint : String) {record : Record} (hw : record.Written) :
    (∃ e, refuse fingerprint (.found record) = .error e ∧ Refusal fingerprint record (.error e)) ∨
    ∃ r, refuse fingerprint (.found record) = .ok (some (serialize r)) ∧
      Refusal fingerprint record (.ok r) := by
  by_cases hf : record.fingerprint = fingerprint
  · have hfound : (ReservationOutcome.found record).requestFingerprint = some fingerprint := by
      rw [← hf]
      rfl
    unfold refuse
    rw [if_neg (not_not.mpr hfound)]
    cases hw with
    | claimed f => exact .inl ⟨_, rfl, .inProgress hf rfl⟩
    | parked f error => exact .inl ⟨_, rfl, .unknown hf rfl⟩
    | completed f r => exact .inr ⟨r, rfl, .stored r hf rfl rfl⟩
  · have hfound : (ReservationOutcome.found record).requestFingerprint ≠ some fingerprint :=
      fun h => hf (Option.some.inj h)
    unfold refuse
    rw [if_pos hfound]
    exact .inl ⟨_, rfl, .conflict hf⟩

/-- The answer of `execute` is the one that the record calls for. -/
theorem refusal (fingerprint : String) {record : Record} (hw : record.Written) :
    Refusal fingerprint record ((refuse fingerprint (.found record)).bind deserialize) := by
  rcases refuse_found fingerprint hw with ⟨e, he, h⟩ | ⟨r, hr, h⟩
  · rw [he]
    exact h
  · rw [hr]
    show Refusal fingerprint record (deserialize (some (serialize r)))
    rw [deserialize_serialize]
    exact h

/-- The pieces in which a stored response goes out again. -/
def pieces (streamed : Bool) (r : ChatResponse) : List ChatStreamEvent :=
  if streamed ∧ r.content ≠ "" then [.delta r.content, .response r] else [.response r]

/-- The response goes out, in whole if the consumer takes it all; only the consumer fails. -/
structure Replays (streamed : Bool) (r : ChatResponse) (ops : Trace operationI Exn)
    (handed : Trace (handoff ChatStreamEvent) Exn) (o : Except Exn Unit) : Prop where
  order : handed.map Event.cmd <+: pieces streamed r
  idle : ∀ e ∈ ops, e.cmd = .iterate
  whole : o = .ok () → handed.map Event.cmd = pieces streamed r
  fault : ∀ e, o = .error e → (∃ c, (⟨c, .error e⟩ : Event operationI Exn) ∈ ops) ∨
    ∃ y, (⟨y, .error e⟩ : Event (handoff ChatStreamEvent) Exn) ∈ handed

/-- A call that does not own the key says what the record calls for. -/
def Says (streamed : Bool) (ops : Trace operationI Exn)
    (handed : Trace (handoff ChatStreamEvent) Exn) (o : Except Exn Unit) :
    Except Exn ChatResponse → Prop
  | .error e => ops = [] ∧ handed = [] ∧ o = .error e
  | .ok r => Replays streamed r ops handed o

/-- The end of a call that does not own the key: it lost three races, or it answers as the
record calls for that it read. -/
inductive Refused (self : IdempotencyService) (apiKeyId : UUID) (key : String) (c : KeyedCall) :
    Trace redisI Exn → Trace operationI Exn → Trace (handoff ChatStreamEvent) Exn →
      Except Exn Unit → Prop where
  | raced : Refused self apiKeyId key c
      (races self.store apiKeyId key (self.fingerprint c.request) reserveAttempts) [] []
      (.error idempotencyStoreUnavailable)
  | read {m : Nat} {record : Record} {x : Except Exn ChatResponse} {ops : Trace operationI Exn}
      {handed : Trace (handoff ChatStreamEvent) Exn} {o : Except Exn Unit} :
      m < reserveAttempts → Refusal (self.fingerprint c.request) record x →
      Says c.streamed ops handed o x →
      Refused self apiKeyId key c
        (races self.store apiKeyId key (self.fingerprint c.request) m ++
          [attempt self.store apiKeyId key (self.fingerprint c.request) false,
            look apiKeyId key (some record)]) ops handed o

/-- Such a call does not touch its operation. -/
theorem Refused.idle {self : IdempotencyService} {apiKeyId : UUID} {key : String} {c : KeyedCall}
    {asked : Trace redisI Exn} {ops : Trace operationI Exn}
    {handed : Trace (handoff ChatStreamEvent) Exn} {o : Except Exn Unit}
    (h : self.Refused apiKeyId key c asked ops handed o) : ∀ e ∈ ops, e.cmd = .iterate := by
  cases h with
  | raced => exact fun _ h => by cases h
  | @read _ _ x _ _ _ _ _ hsays =>
    cases x with
    | error e =>
      obtain ⟨rfl, _, _⟩ := hsays
      exact fun _ h => by cases h
    | ok r => exact hsays.idle

section Ends
variable {self : IdempotencyService} {apiKeyId : UUID} {key : String} {request : ChatRequest}
  {s : Trace ((redisI.sum operationI).sum (handoff ChatStreamEvent)) Exn} {o : Except Exn Unit}

/-- One response, taken or not. -/
theorem replays_yield {streamed : Bool} {r : ChatResponse} (hp : pieces streamed r = [.response r])
    {ops : Trace operationI Exn} (hops : ∀ e ∈ ops, e.cmd = .iterate) :
    Replays streamed r ops [⟨.response r, o⟩] o where
  order := by
    rw [hp]
    exact List.prefix_rfl
  idle := hops
  whole _ := hp.symm
  fault e he := .inr ⟨.response r, by rw [he]; exact List.mem_singleton.mpr rfl⟩

theorem execute_refused {J : Interface} {operation : Prog J Exn ChatResponse}
    {u : Trace (redisI.sum J) Exn} {x : Except Exn ChatResponse}
    (h : Ends (self.execute apiKeyId key request operation) u x)
    (hok : ∀ e ∈ lefts u, ∃ a, e.answer = .ok a) (hno : ∀ e ∈ lefts u, claimed e = false) :
    (∃ m record, m < reserveAttempts ∧ u = (races self.store apiKeyId key (self.fingerprint request) m ++
        [attempt self.store apiKeyId key (self.fingerprint request) false,
          look apiKeyId key (some record)]).map Event.inl ∧
      x = (refuse (self.fingerprint request) (.found record)).bind deserialize) ∨
    (u = (races self.store apiKeyId key (self.fingerprint request) reserveAttempts).map Event.inl ∧
      x = .error idempotencyStoreUnavailable) := by
  rcases RedisIdempotencyStore.reserve_bind_ends h hok hno with ⟨m, record, rest, hm, rfl, hf⟩ | hraced
  · refine .inl ⟨m, record, hm, ?_⟩
    change Ends (Prog.bind (.ofExcept (refuse (self.fingerprint request) (.found record)))
      fun body => .ofExcept (deserialize body)) rest x at hf
    cases hr : refuse (self.fingerprint request) (.found record) with
    | error e =>
      rw [hr] at hf
      obtain ⟨rfl, rfl⟩ := ends_raise.mp hf
      exact ⟨List.append_nil _, rfl⟩
    | ok body =>
      rw [hr] at hf
      obtain ⟨rfl, rfl⟩ := ends_ofExcept.mp hf
      exact ⟨List.append_nil _, rfl⟩
  · exact .inr hraced

theorem executeStream_refused {J : Interface}
    {operation : Prog J Exn (Gen J Exn ChatStreamEvent Unit)} {u : Trace (redisI.sum J) Exn}
    {x : Except Exn (Gen (redisI.sum J) Exn ChatStreamEvent Unit)}
    (h : Ends (self.executeStream apiKeyId key request operation) u x)
    (hok : ∀ e ∈ lefts u, ∃ a, e.answer = .ok a) (hno : ∀ e ∈ lefts u, claimed e = false) :
    (∃ m record, m < reserveAttempts ∧ u = (races self.store apiKeyId key (self.fingerprint request) m ++
        [attempt self.store apiKeyId key (self.fingerprint request) false,
          look apiKeyId key (some record)]).map Event.inl ∧
      x = (refuse (self.fingerprint request) (.found record)).map replayStream) ∨
    (u = (races self.store apiKeyId key (self.fingerprint request) reserveAttempts).map Event.inl ∧
      x = .error idempotencyStoreUnavailable) := by
  rcases RedisIdempotencyStore.reserve_bind_ends h hok hno with ⟨m, record, rest, hm, rfl, hf⟩ | hraced
  · refine .inl ⟨m, record, hm, ?_⟩
    change Ends (Prog.bind (.ofExcept (refuse (self.fingerprint request) (.found record)))
      fun body => .ret (replayStream body)) rest x at hf
    cases hr : refuse (self.fingerprint request) (.found record) with
    | error e =>
      rw [hr] at hf
      obtain ⟨rfl, rfl⟩ := ends_raise.mp hf
      exact ⟨List.append_nil _, rfl⟩
    | ok body =>
      rw [hr] at hf
      obtain ⟨rfl, rfl⟩ := ends_ret.mp hf
      exact ⟨List.append_nil _, rfl⟩
  · exact .inr hraced

theorem buffered_refused (h : Ends (self.buffered apiKeyId key request) s o)
    (hok : ∀ e ∈ lefts (lefts s), ∃ a, e.answer = .ok a)
    (hno : ∀ e ∈ lefts (lefts s), claimed e = false)
    (hw : ∀ record, look apiKeyId key (some record) ∈ lefts (lefts s) → record.Written) :
    self.Refused apiKeyId key ⟨request, false⟩ (lefts (lefts s)) (rights (lefts s)) (rights s) o := by
  rcases ends_bind.mp h with ⟨r, s₁, s₂, rfl, hex, hy⟩ | ⟨e, rfl, hex⟩
  · obtain ⟨u, rfl, hu⟩ := ends_inl.mp hex
    obtain rfl := ends_perform.mp hy
    have hcall : lefts (u.map Event.inl ++ [⟨.inr (.response r), o⟩] :
        Trace ((redisI.sum operationI).sum (handoff ChatStreamEvent)) Exn) = u := by
      rw [lefts_append, lefts_map_inl]
      exact List.append_nil u
    have hhanded : rights (u.map Event.inl ++ [⟨.inr (.response r), o⟩] :
        Trace ((redisI.sum operationI).sum (handoff ChatStreamEvent)) Exn) = [⟨.response r, o⟩] := by
      rw [rights_append, rights_map_inl]
      rfl
    rw [hcall] at hok hno hw
    rw [hcall, hhanded]
    rcases execute_refused hu hok hno with ⟨m, record, hm, rfl, hx⟩ | ⟨_, hx⟩
    · rw [lefts_map_inl] at hw
      rw [lefts_map_inl, rights_map_inl]
      have href := refusal (self.fingerprint request) (hw record (by simp))
      rw [← hx] at href
      exact .read hm href (replays_yield rfl fun _ h => by cases h)
    · cases hx
  · obtain ⟨u, rfl, hu⟩ := ends_inl.mp hex
    rw [lefts_map_inl] at hok hno hw
    rw [lefts_map_inl, rights_map_inl]
    rcases execute_refused hu hok hno with ⟨m, record, hm, rfl, hx⟩ | ⟨rfl, hx⟩
    · rw [lefts_map_inl] at hw
      rw [lefts_map_inl, rights_map_inl]
      have href := refusal (self.fingerprint request) (hw record (by simp))
      rw [← hx] at href
      exact .read hm href ⟨rfl, rfl, rfl⟩
    · cases hx
      rw [lefts_map_inl, rights_map_inl]
      exact .raced

/-- A replay asks nothing, and hands over the pieces of its response as far as it is let. -/
theorem replayStream_ends {J : Interface} {body : Option ResponseBody}
    {s : Trace ((redisI.sum J).sum (handoff ChatStreamEvent)) Exn}
    (h : Ends (replayStream body) s o) :
    lefts s = [] ∧ ∀ r, deserialize body = .ok r → ∀ ops, (∀ e ∈ ops, e.cmd = .iterate) →
      Replays true r ops (rights s) o := by
  unfold replayStream at h
  cases hd : deserialize body with
  | error e =>
    rw [hd] at h
    obtain ⟨rfl, _⟩ := ends_raise.mp h
    exact ⟨rfl, fun r hr => by cases hr⟩
  | ok r =>
    rw [hd] at h
    change Ends (Prog.bind (if r.content = "" then .ret () else Gen.yield (.delta r.content))
      fun _ => Gen.yield (.response r)) s o at h
    by_cases hc : r.content = ""
    · have hp : pieces true r = [.response r] := by simp [pieces, hc]
      rw [if_pos hc] at h
      obtain rfl := ends_perform.mp h
      refine ⟨rfl, fun r' hr ops hops => ?_⟩
      cases hr
      exact replays_yield hp hops
    · have hp : pieces true r = [.delta r.content, .response r] := by simp [pieces, hc]
      rw [if_neg hc] at h
      rcases ends_perform_bind.mp h with ⟨_, rest, rfl, hy⟩ | ⟨e, rfl, rfl⟩
      · obtain rfl := ends_perform.mp hy
        refine ⟨rfl, fun r' hr ops hops => ?_⟩
        cases hr
        refine ⟨?_, hops, fun _ => hp.symm, fun e he => .inr ⟨.response r, ?_⟩⟩
        · rw [hp]
          exact List.prefix_rfl
        · rw [he]
          exact List.mem_cons_of_mem _ List.mem_cons_self
      · refine ⟨rfl, fun r' hr ops hops => ?_⟩
        cases hr
        refine ⟨?_, hops, (fun ho => by cases ho), fun e' he => .inr ⟨.delta r.content, ?_⟩⟩
        · rw [hp]
          exact ⟨[.response r], rfl⟩
        · cases he
          exact List.mem_cons_self

/-- Iterating what `executeStream` returned to a call that does not own the key. -/
theorem iterated_ends {body : Option ResponseBody} {events : Gen (redisI.sum operationI) Exn ChatStreamEvent Unit}
    (he : events = replayStream body)
    (h : Ends (((@Prog.perform (redisI.sum operationI) Exn (.inr .iterate)).inl : Gen
      (redisI.sum operationI) Exn ChatStreamEvent Unit).bind fun _ => events) s o) :
    lefts (lefts s) = [] ∧ ∀ r, deserialize body = .ok r →
      Replays true r (rights (lefts s)) (rights s) o := by
  rcases ends_bind.mp h with ⟨a, s₁, s₂, rfl, hi, hev⟩ | ⟨e, rfl, hi⟩
  · obtain rfl := ends_perform_inl.mp hi
    rw [he] at hev
    obtain ⟨hl, hr⟩ := replayStream_ends hev
    refine ⟨?_, fun r hd => ?_⟩
    · show lefts (lefts s₂) = []
      rw [hl]
      rfl
    · show Replays true r (⟨.iterate, .ok a⟩ :: rights (lefts s₂)) (rights s₂) o
      rw [hl]
      exact hr r hd _ (List.forall_mem_singleton.mpr rfl)
  · obtain rfl := ends_perform_inl.mp hi
    refine ⟨rfl, fun r hd => ⟨List.nil_prefix, List.forall_mem_singleton.mpr rfl,
      (fun ho => by cases ho), fun e' he' => .inl ⟨.iterate, ?_⟩⟩⟩
    cases he'
    exact List.mem_cons_self

theorem streamed_refused (h : Ends (self.streamed apiKeyId key request) s o)
    (hok : ∀ e ∈ lefts (lefts s), ∃ a, e.answer = .ok a)
    (hno : ∀ e ∈ lefts (lefts s), claimed e = false)
    (hw : ∀ record, look apiKeyId key (some record) ∈ lefts (lefts s) → record.Written) :
    self.Refused apiKeyId key ⟨request, true⟩ (lefts (lefts s)) (rights (lefts s)) (rights s) o := by
  rcases ends_bind.mp h with ⟨events, s₁, s₂, rfl, hex, hev⟩ | ⟨e, rfl, hex⟩
  · obtain ⟨u, rfl, hu⟩ := ends_inl.mp hex
    have hasked : lefts (lefts (u.map Event.inl ++ s₂)) = lefts u ++ lefts (lefts s₂) := by
      rw [lefts_append, lefts_map_inl, lefts_append]
    have hops : rights (lefts (u.map Event.inl ++ s₂)) = rights u ++ rights (lefts s₂) := by
      rw [lefts_append, lefts_map_inl, rights_append]
    have hhanded : rights (u.map Event.inl ++ s₂) = rights s₂ := by
      rw [rights_append, rights_map_inl, List.nil_append]
    rw [hasked] at hok hno hw
    rw [hasked, hops, hhanded]
    rcases executeStream_refused hu (fun e he => hok e (List.mem_append_left _ he))
      (fun e he => hno e (List.mem_append_left _ he)) with ⟨m, record, hm, rfl, hx⟩ | ⟨_, hx⟩
    · rw [lefts_map_inl] at hw
      rw [lefts_map_inl, rights_map_inl, List.nil_append]
      have hrecord := hw record (List.mem_append_left _ (by simp))
      rcases refuse_found (self.fingerprint request) hrecord with ⟨e, he, _⟩ | ⟨r, hr, href⟩
      · rw [he] at hx
        cases hx
      · rw [hr] at hx
        obtain ⟨hl, hrep⟩ := iterated_ends (Except.ok.inj hx) hev
        rw [hl, List.append_nil]
        exact .read hm href (hrep r (deserialize_serialize r))
    · cases hx
  · obtain ⟨u, rfl, hu⟩ := ends_inl.mp hex
    rw [lefts_map_inl] at hok hno hw
    rw [lefts_map_inl, rights_map_inl]
    rcases executeStream_refused hu hok hno with ⟨m, record, hm, rfl, hx⟩ | ⟨rfl, hx⟩
    · rw [lefts_map_inl] at hw
      rw [lefts_map_inl, rights_map_inl]
      have hrecord := hw record (by simp)
      rcases refuse_found (self.fingerprint request) hrecord with ⟨e', he, href⟩ | ⟨r, hr, _⟩
      · rw [he] at hx
        cases hx
        exact .read hm href ⟨rfl, rfl, rfl⟩
      · rw [hr] at hx
        cases hx
    · cases hx
      rw [lefts_map_inl, rights_map_inl]
      exact .raced

/-- A call that ended and never owned the key. -/
theorem call_refused {c : KeyedCall} {t : Trace (redisI.sum callI) Exn}
    (h : Ends (self.call apiKeyId key c) t o) (hok : ∀ e ∈ lefts t, ∃ a, e.answer = .ok a)
    (hno : ∀ e ∈ lefts t, claimed e = false)
    (hw : ∀ record, look apiKeyId key (some record) ∈ lefts t → record.Written) :
    self.Refused apiKeyId key c (lefts t) (lefts (rights t)) (rights (rights t)) o := by
  obtain ⟨request, streamed⟩ := c
  cases streamed with
  | true =>
    obtain ⟨s, rfl, hs⟩ := ends_assoc.mp h
    rw [lefts_regroup] at hok hno hw
    rw [lefts_regroup, lefts_rights_regroup, rights_rights_regroup]
    exact streamed_refused hs hok hno hw
  | false =>
    obtain ⟨s, rfl, hs⟩ := ends_assoc.mp h
    rw [lefts_regroup] at hok hno hw
    rw [lefts_regroup, lefts_rights_regroup, rights_rights_regroup]
    exact buffered_refused hs hok hno hw

end Ends

/-! ### Every record was written by a call -/

section Records
variable {ι : Type} [DecidableEq ι] {self : IdempotencyService} {apiKeyId : UUID} {key : String}
  {calls : ι → KeyedCall} {w : Redis} {h : Steps ι} {p : Pool (redisI.sum callI) Exn ι Redis}

theorem Move.written {st : RedisIdempotencyStore} {name : String} {w w' : Redis} {q q' : Phase}
    {e : Event (redisI.sum callI) Exn} (hm : Move st name w w' q q' e)
    (hw : ∀ x, w.entries name = some x → x.value.Written) :
    ∀ x, w'.entries name = some x → x.value.Written := by
  intro x hx
  cases hm with
  | keep same _ _ _ =>
    rw [same] at hx
    exact hw x hx
  | claim fingerprint _ _ wrote _ _ =>
    rw [wrote, Expiring.write_entries_self] at hx
    cases hx
    exact .claimed fingerprint
  | store record written _ wrote _ _ =>
    rw [wrote, Expiring.write_entries_self] at hx
    cases hx
    exact written
  | free _ wrote _ _ =>
    rw [wrote, Expiring.erase_entries_self] at hx
    cases hx

theorem written (hr : Run (served callI) (self.callers apiKeyId key calls w) h p)
    (hw : ∀ x, w.entries (redisKey apiKeyId key) = some x → x.value.Written) :
    ∀ x, p.world.entries (redisKey apiKeyId key) = some x → x.value.Written := by
  have hcommand : ∀ (_ : Steps ι) (w : Redis) (g : ι → Phase) (i : ι) (c : (redisI.sum callI).Cmd)
      a w', (∀ x, w.entries (redisKey apiKeyId key) = some x → x.value.Written) →
      (self.store.claims (redisKey apiKeyId key)).allowed (g i) c →
      (served callI).answers w c a w' →
      ∀ x, w'.entries (redisKey apiKeyId key) = some x → x.value.Written :=
    fun _ _ _ _ _ _ _ hx hc ha => (move_of_answers hc ha).written hx
  refine Run.always (self.served_meets _) (fun i => self.call_obeys apiKeyId key (calls i)) hw
    hcommand (fun _ w _ w' hx he => ?_) hr
  rw [he.entries]
  exact hx

/-- A record that a call read was in Redis. -/
theorem read_written (hr : Run (served callI) (self.callers apiKeyId key calls w) h p)
    (hw : ∀ x, w.entries (redisKey apiKeyId key) = some x → x.value.Written) {i : ι} {record : Record}
    (hread : RedisIdempotencyStore.look apiKeyId key (some record) ∈ lefts (log i h)) :
    record.Written := by
  obtain ⟨pre, s, post, p', _, _, _, hr', hbefore, w', ha⟩ := hr.at_log (mem_of_mem_lefts hread)
  have hfound : ∃ x, s.before.find (redisKey apiKeyId key) = some x ∧ x.value = record := by
    rcases ha with ha | ⟨e, he, _⟩
    · have hexec := (Prod.mk.inj ha).1
      exact Expiring.read_eq_some.mp (Except.ok.inj hexec).symm
    · cases he
  obtain ⟨x, hx, rfl⟩ := hfound
  rw [← hbefore] at hx
  exact written hr' hw x (Expiring.find_eq_some.mp hx).1

/-- **One execution for each key.** Any number of calls on one key, in any interleaving,
while no record expires: one call at a time holds a claim that it has not settled; once
an operation returned, or its outcome is in doubt, no operation begins or returns again;
and a call that does not own the key ends without its operation, with the answer that the
record it read calls for. -/
theorem one_execution (hr : Run (served callI) (self.callers apiKeyId key calls w) h p)
    (hw : ∀ x, w.entries (redisKey apiKeyId key) = some x → x.value.Written)
    (hfresh : Unexpired (redisKey apiKeyId key) h) :
    (∀ i j, Unsettled (log i h) → Unsettled (log j h) → i = j) ∧
    (∀ pre s post, h = pre ++ s :: post → commits s.event = true →
      ∀ s' ∈ post, acquires s'.event = false ∧ returns s'.event = false) ∧
    ∀ i o, p.threads i = .ofExcept o → (∀ e ∈ log i h, acquires e = false) →
      (∀ e ∈ lefts (log i h), ∃ a, e.answer = .ok a) →
      (∀ e ∈ lefts (rights (log i h)), e.cmd = .iterate) ∧
        self.Refused apiKeyId key (calls i) (lefts (log i h)) (lefts (rights (log i h)))
          (rights (rights (log i h))) o := by
  obtain ⟨hsole, hseal⟩ := sole_sealed hr hfresh
  refine ⟨fun i j hi hj => ?_, fun pre s post he hc => (hseal pre s post he hc).2.2, ?_⟩
  · exact hsole.one i j ((recorded hr i).unsettled hi) ((recorded hr j).unsettled hj)
  · intro i o ho hno hok
    have hrefused := call_refused (hr.ends ho) hok (fun e he => hno _ (mem_of_mem_lefts he))
      (fun record hread => read_written hr hw hread)
    exact ⟨hrefused.idle, hrefused⟩

/-- A service as deployed, for one request body. -/
def trialService : IdempotencyService :=
  ⟨⟨120, 86400⟩, fun _ => "6854e67072f57734f34d91df9b0ee7e772511238ee943479cbd735ae911f56be"⟩

def trialRequest : ChatRequest := ⟨"gpt-4o", [⟨"user", "hi"⟩], none, .atMostOnce⟩

def trialResponse : ChatResponse := ⟨.openai, "gpt-4o", "hi back", 1, 1, "stop", "req-1"⟩

/-- The second call on the key finds the response of the first, and replays it. -/
theorem one_execution_replayed :
    ∃ h : Steps Bool, trialService.Refused ⟨7⟩ "k1" ⟨trialRequest, false⟩ (lefts (log true h))
      (lefts (rights (log true h))) (rights (rights (log true h))) (.ok ()) := by
  let name := redisKey ⟨7⟩ "k1"
  let print := trialService.fingerprint trialRequest
  let w₀ : Redis := ⟨0, fun _ => none⟩
  let w₁ : Redis := w₀.write name (.claimed print) (120 : Int)
  let w₂ : Redis := w₁.write name (.completed print (serialize trialResponse)) (86400 : Int)
  have found : w₂.find name = some ⟨.completed print (serialize trialResponse), 0 + (86400 : Int)⟩ :=
    Expiring.find_eq_some.mpr ⟨Expiring.write_entries_self,
      Expiring.write_fresh (by norm_num) Expiring.write_entries_self⟩
  have hread : w₂.read name = some (.completed print (serialize trialResponse)) :=
    Expiring.read_eq_some.mpr ⟨_, found, rfl⟩
  have r₀ : Run (served callI) (trialService.callers ⟨7⟩ "k1" (fun _ : Bool => ⟨trialRequest, false⟩) w₀)
      [] _ := .start
  have r₁ := r₀.answer false rfl (.ok true) w₁ (exec_taken (by decide) rfl)
  have r₂ := r₁.answer false rfl (.ok trialResponse) w₁ rfl
  have r₃ := r₂.answer false rfl (.ok true) w₂ (exec_write (by decide))
  have r₄ := r₃.answer true rfl (.ok false) w₂ (exec_refused (by decide) found)
  have r₅ := r₄.answer true rfl (.ok (some (.completed print (serialize trialResponse)))) w₂
    (by rw [← hread]; exact exec_look)
  have r₆ := r₅.answer true rfl (.ok ()) w₂ rfl
  refine ⟨_, ((one_execution r₆ (fun _ h => by cases h) ?_).2.2 true (.ok ()) rfl ?_ ?_).2⟩
  · have fresh₁ : ∀ e, w₁.entries name = some e → w₁.now < e.deadline :=
      fun _ he => Expiring.write_fresh (by norm_num) he
    have fresh₂ : ∀ e, w₂.entries name = some e → w₂.now < e.deadline :=
      fun _ he => Expiring.write_fresh (by norm_num) he
    exact List.forall_mem_cons.mpr ⟨(fun _ h => by cases h), List.forall_mem_cons.mpr ⟨fresh₁,
      List.forall_mem_cons.mpr ⟨fresh₁, List.forall_mem_cons.mpr ⟨fresh₂,
        List.forall_mem_cons.mpr ⟨fresh₂, List.forall_mem_singleton.mpr fresh₂⟩⟩⟩⟩⟩
  · exact List.forall_mem_cons.mpr ⟨rfl, List.forall_mem_cons.mpr ⟨rfl, List.forall_mem_singleton.mpr rfl⟩⟩
  · exact List.forall_mem_cons.mpr ⟨⟨_, rfl⟩, List.forall_mem_singleton.mpr ⟨_, rfl⟩⟩

end Records
end IdempotencyService
end Relayix
