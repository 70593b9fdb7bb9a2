import Relayix.Api.V1.Chat

/-! What a request keeps to.

The gateway, the idempotency service and the endpoint run the adapters inside loops, handlers and
generators of generators. A monitor that ignores what these ask in the name of the request, of the
store and of the recorder, sees the calls of the adapters alone: where each of them obeys, from any state,
the whole request does, and so does the body of a streamed response, which runs when the endpoint has
long returned. -/
namespace Relayix
open Library

variable {A J : Interface} {σ : Type} {s : σ}

/-- The program obeys, and so does the generator that it returns. -/
def Serves {I : Interface} {Y : Type} (M : Monitor I Exn σ) (p : Prog I Exn (Gen I Exn Y Unit)) (s : σ) : Prop :=
  p.Obeys M (fun o s' => ∀ g, o = .ok g → g.Obeys (M.handing Y) (fun _ _ => True) s') s

theorem Serves.ret {I : Interface} {Y : Type} {M : Monitor I Exn σ} {g : Gen I Exn Y Unit}
    (h : g.Obeys (M.handing Y) (fun _ _ => True) s) : Serves M (.ret g) s := by
  rintro _ hg
  cases hg
  exact h

theorem Serves.raise {I : Interface} {Y : Type} {M : Monitor I Exn σ} (e : Exn) :
    Serves M (.raise e : Prog I Exn (Gen I Exn Y Unit)) s := by
  intro g hg
  cases hg

/-- Every call of the adapter obeys, from any state. -/
structure ProviderAdapter.Keeps (M : Monitor A Exn σ) (adapter : ProviderAdapter A) : Prop where
  complete : ∀ request s, (adapter.complete request).Obeys M (fun _ _ => True) s
  stream : ∀ request s, (adapter.stream request).Obeys (M.handing ChatStreamEvent) (fun _ _ => True) s

/-- And so does every call of the registered adapters. -/
def GatewayService.Keeps (M : Monitor A Exn σ) (self : GatewayService A) : Prop :=
  ∀ provider adapter, self.registry provider = some adapter → adapter.Keeps M

theorem GatewayService.keeps_of_lenient {M : Monitor A Exn σ} (h : ∀ s c, M.allowed s c) (self : GatewayService A) : self.Keeps M := by
  intro provider adapter _
  constructor
  · exact fun request s => Prog.Obeys.of_lenient h _ s
  · intro request s
    apply Prog.Obeys.of_lenient
    rintro s (c | event)
    · exact h s c
    · trivial

/-! ### The gateway -/

namespace GatewayService

/-- Usage is recorded for this key. -/
def OwnUsage (apiKeyId : UUID) : (A.sum recorderI).Cmd → Prop
  | .inl _ => True
  | .inr (.record id _) => id = apiKeyId

/-- A recording for this key. -/
def Recording (apiKeyId : UUID) : (A.sum recorderI).Cmd → Prop
  | .inl _ => False
  | .inr (.record id _) => id = apiKeyId

section Gateway
variable {M : Monitor (A.sum recorderI) Exn σ} {self : GatewayService A} {request : ChatRequest} {apiKeyId : UUID}

theorem record_keeps (hM : M.Ignores (Recording apiKeyId)) (response : ChatResponse) :
    (record apiKeyId response : Prog (A.sum recorderI) Exn Unit).Obeys M (fun _ s' => s' = s) s := by
  have asked : (record apiKeyId response : Prog (A.sum recorderI) Exn Unit).Asks (Recording apiKeyId) := Prog.Asks.perform rfl
  exact asked.ignored hM s

theorem tryComplete_keeps (hM : M.Ignores (Recording apiKeyId)) (hself : self.Keeps M.onLeft) (ambiguousError : Option Exn)
    (candidates : List Candidate) : (self.tryComplete request apiKeyId ambiguousError candidates).Obeys M (fun _ _ => True) s := by
  induction candidates generalizing ambiguousError s with
  | nil => trivial
  | cons candidate rest ih =>
    unfold tryComplete
    split
    · exact ih _
    · rename_i adapter hadapter
      have called := (hself _ _ hadapter).complete (upstream request candidate) s
      apply (Prog.Obeys.inl called).attempt_bind
      intro r s' _
      cases r with
      | error e =>
        dsimp only
        split
        · exact ih _
        · trivial
      | ok response =>
        apply (record_keeps hM response).bind
        · exact fun _ _ _ => trivial
        · exact fun _ _ _ => trivial

theorem complete_keeps (hM : M.Ignores (Recording apiKeyId)) (hself : self.Keeps M.onLeft) :
    (self.complete request apiKeyId).Obeys M (fun _ _ => True) s := by
  unfold complete
  cases self.candidatesFor request.model with
  | error e => trivial
  | ok candidates => exact tryComplete_keeps hM hself none candidates

theorem interrupted_keeps (hM : M.Ignores (Recording apiKeyId)) (e : Exn) :
    (interrupted apiKeyId e : Gen (A.sum recorderI) Exn ChatStreamEvent Unit).Obeys (M.handing ChatStreamEvent)
      (fun _ s' => s' = s) s := by
  unfold interrupted
  split
  · apply (record_keeps hM _).handing.bind
    · exact fun _ _ h => h
    · exact fun _ _ h => h
  · exact rfl

theorem emit_keeps (hM : M.Ignores (Recording apiKeyId)) {event : ChatStreamEvent}
    {streamIter : Except Exn Unit → Gen A Exn ChatStreamEvent Unit} {rest : Gen (A.sum recorderI) Exn ChatStreamEvent Unit}
    (hiter : ∀ a, (streamIter a).Obeys (M.onLeft.handing ChatStreamEvent) (fun _ _ => True) s)
    (hrest : rest.Obeys (M.handing ChatStreamEvent) (fun _ _ => True) s) :
    (emit apiKeyId event streamIter rest).Obeys (M.handing ChatStreamEvent) (fun _ _ => True) s := by
  have dropped : ((Gen.finalise streamIter).inl.inl : Gen (A.sum recorderI) Exn ChatStreamEvent Unit).Obeys
      (M.handing ChatStreamEvent) (fun _ _ => True) s :=
    Prog.Obeys.handing (Prog.Obeys.inl (finalise_obeys hiter))
  have yielded : (Gen.yield event : Gen (A.sum recorderI) Exn ChatStreamEvent Unit).Obeys (M.handing ChatStreamEvent)
      (fun _ s' => s' = s) s := Prog.Obeys.perform trivial fun _ _ => rfl
  cases event with
  | response r =>
    have billed : (((record apiKeyId r).inl : Gen (A.sum recorderI) Exn ChatStreamEvent Unit).bind fun _ =>
        Gen.yield (.response r)).Obeys (M.handing ChatStreamEvent) (fun _ s' => s' = s) s := by
      apply (record_keeps hM r).handing.bind
      · rintro _ _ rfl
        exact yielded
      · exact fun _ _ h => h
    apply Prog.Obeys.tryFinally (Q := fun _ s' => s' = s)
    · apply billed.tryExcept (fun _ _ h => h)
      rintro e _ rfl
      exact interrupted_keeps hM e
    · rintro _ _ rfl
      exact dropped.mono fun _ _ _ => trivial
  | delta c =>
    apply yielded.attempt_bind
    rintro r _ rfl
    cases r with
    | ok _ => exact hrest
    | error e =>
      apply (interrupted_keeps hM e).tryFinally
      rintro _ _ rfl
      exact dropped.mono fun _ _ _ => trivial

theorem forward_keeps (hM : M.Ignores (Recording apiKeyId)) {g : Gen A Exn ChatStreamEvent Unit}
    (h : g.Obeys (M.onLeft.handing ChatStreamEvent) (fun _ _ => True) s) :
    (forward apiKeyId g).Obeys (M.handing ChatStreamEvent) (fun _ _ => True) s := by
  induction g generalizing s with
  | ret a => trivial
  | raise e => exact (interrupted_keeps hM e).mono fun _ _ _ => trivial
  | await c k ih =>
    cases c with
    | inl c => exact ⟨h.1, fun a ha => ih a (h.2 a ha)⟩
    | inr event => exact emit_keeps hM (fun a => h.2 a trivial) (ih _ (h.2 _ trivial))

theorem tryStream_serves (hM : M.Ignores (Recording apiKeyId)) (hself : self.Keeps M.onLeft) (ambiguousError : Option Exn)
    (candidates : List Candidate) : Serves M (self.tryStream request apiKeyId ambiguousError candidates) s := by
  induction candidates generalizing ambiguousError s with
  | nil => exact Serves.raise _
  | cons candidate rest ih =>
    unfold tryStream
    split
    · exact ih _
    · rename_i adapter hadapter
      have called := (hself _ _ hadapter).stream (upstream request candidate) s
      apply (Prog.Obeys.inl (anext_obeys called)).attempt_bind
      intro r s' hr
      rcases r with e | _ | ⟨firstEvent, streamIter⟩
      · dsimp only
        split
        · exact ih _
        · exact Serves.raise _
      · exact ih _
      · have hiter := hr firstEvent streamIter rfl
        exact Serves.ret (emit_keeps hM hiter (forward_keeps hM (hiter _)))

theorem stream_serves (hM : M.Ignores (Recording apiKeyId)) (hself : self.Keeps M.onLeft) :
    Serves M (self.stream request apiKeyId) s := by
  unfold stream
  cases self.candidatesFor request.model with
  | error e => exact Serves.raise e
  | ok candidates => exact tryStream_serves hM hself none candidates

end Gateway
end GatewayService

/-! ### The idempotency service -/

namespace RedisIdempotencyStore
variable {self : RedisIdempotencyStore} {apiKeyId : UUID} {key fingerprint : String}

/-- A command on the record of the key. -/
def OnRecord (apiKeyId : UUID) (key : String) (c : redisI.Cmd) : Prop := c.name = redisKey apiKeyId key

theorem tryReserve_asks (attempts : Nat) :
    (self.tryReserve apiKeyId key fingerprint attempts).Asks (OnRecord apiKeyId key) := by
  induction attempts with
  | zero => trivial
  | succ attempts ih =>
    refine Prog.Asks.bind (Prog.Asks.perform rfl) fun acquired => ?_
    split
    · trivial
    · refine Prog.Asks.bind (Prog.Asks.perform rfl) fun found => ?_
      cases found with
      | none => exact ih
      | some existing => trivial

theorem reserve_asks : (self.reserve apiKeyId key fingerprint).Asks (OnRecord apiKeyId key) := by
  refine ((tryReserve_asks reserveAttempts).tryExcept fun e => ?_).bind fun outcome => ?_
  · split <;> trivial
  · cases outcome <;> trivial

theorem keep_asks (record : Record) : (self.keep apiKeyId key record).Asks (OnRecord apiKeyId key) :=
  Prog.Asks.bind (Prog.Asks.perform rfl) fun _ => trivial

theorem complete_asks (body : ResponseBody) : (self.complete apiKeyId key fingerprint body).Asks (OnRecord apiKeyId key) := by
  refine (keep_asks _).tryExcept fun e => ?_
  split <;> trivial

theorem markAmbiguous_asks (error : String) :
    (self.markAmbiguous apiKeyId key fingerprint error).Asks (OnRecord apiKeyId key) := by
  refine (keep_asks _).tryExcept fun e => ?_
  split <;> trivial

theorem release_asks : (release apiKeyId key).Asks (OnRecord apiKeyId key) := by
  refine Prog.Asks.tryExcept (Prog.Asks.bind (Prog.Asks.perform rfl) fun _ => trivial) fun e => ?_
  split <;> trivial

end RedisIdempotencyStore

namespace IdempotencyService
open RedisIdempotencyStore (OnRecord)
variable {M : Monitor (redisI.sum J) Exn σ} {self : IdempotencyService} {apiKeyId : UUID} {key fingerprint : String}
  {request : ChatRequest}

/-- The store is asked on the record of the key. -/
theorem store_keeps {α : Type} {p : Prog redisI Exn α} (hM : M.onLeft.Ignores (OnRecord apiKeyId key))
    (h : p.Asks (OnRecord apiKeyId key)) : (p.inl : Prog (redisI.sum J) Exn α).Obeys M (fun _ s' => s' = s) s :=
  Prog.Obeys.inl (h.ignored hM s)

/-- The handlers of the operation, which raise. -/
theorem unserved_keeps {α : Type} (hM : M.onLeft.Ignores (OnRecord apiKeyId key)) (e : Exn) :
    (self.unserved apiKeyId key fingerprint e : Prog (redisI.sum J) Exn α).Obeys M (fun o _ => ∃ e, o = .error e) s := by
  unfold unserved
  split
  · apply (store_keeps hM (RedisIdempotencyStore.markAmbiguous_asks _)).bind
    · exact fun _ _ _ => ⟨e, rfl⟩
    · exact fun e' _ _ => ⟨e', rfl⟩
  · apply (store_keeps hM RedisIdempotencyStore.release_asks).bind
    · exact fun _ _ _ => ⟨e, rfl⟩
    · exact fun e' _ _ => ⟨e', rfl⟩

theorem execute_keeps {operation : Prog J Exn ChatResponse} (hM : M.onLeft.Ignores (OnRecord apiKeyId key))
    (hop : operation.Obeys M.onRight (fun _ _ => True) s) :
    (self.execute apiKeyId key request operation).Obeys M (fun _ _ => True) s := by
  apply (store_keeps hM RedisIdempotencyStore.reserve_asks).bind
  · rintro outcome _ rfl
    split
    · apply Prog.Obeys.bind (Q := fun _ _ => True)
      · apply (Prog.Obeys.inr hop).tryExcept (fun _ _ _ => trivial)
        exact fun e _ _ => (unserved_keeps hM e).mono fun _ _ _ => trivial
      · intro response _ _
        apply (store_keeps hM (RedisIdempotencyStore.complete_asks _)).bind
        · exact fun _ _ _ => trivial
        · exact fun _ _ _ => trivial
      · exact fun _ _ _ => trivial
    · have replayed : ((Prog.ofExcept (refuse (self.fingerprint request) outcome)).bind fun body =>
          .ofExcept (deserialize body) : Prog (redisI.sum J) Exn ChatResponse).Asks fun _ => False :=
        (Prog.Asks.ofExcept _).bind fun _ => Prog.Asks.ofExcept _
      exact (replayed.ignored (fun _ _ hc => hc.elim) _).mono fun _ _ _ => trivial
  · exact fun _ _ _ => trivial

theorem replayStream_keeps (body : Option ResponseBody) :
    (replayStream body : Gen (redisI.sum J) Exn ChatStreamEvent Unit).Obeys (M.handing ChatStreamEvent) (fun _ _ => True) s := by
  have yields : ∀ event, (Gen.yield event : Gen (redisI.sum J) Exn ChatStreamEvent Unit).Obeys (M.handing ChatStreamEvent)
      (fun _ s' => s' = s) s := fun _ => Prog.Obeys.perform trivial fun _ _ => rfl
  unfold replayStream
  cases deserialize body with
  | error e => trivial
  | ok response =>
    have before : (if response.content = "" then pure () else Gen.yield (.delta response.content) :
        Gen (redisI.sum J) Exn ChatStreamEvent Unit).Obeys (M.handing ChatStreamEvent) (fun _ s' => s' = s) s := by
      split
      · exact rfl
      · exact yields _
    apply before.bind
    · rintro _ _ rfl
      exact (yields _).mono fun _ _ _ => trivial
    · exact fun _ _ _ => trivial

theorem broken_keeps (hM : M.onLeft.Ignores (OnRecord apiKeyId key)) (e : Exn) :
    (self.broken apiKeyId key fingerprint e : Gen (redisI.sum J) Exn ChatStreamEvent Unit).Obeys (M.handing ChatStreamEvent)
      (fun _ s' => s' = s) s := by
  apply (store_keeps hM (RedisIdempotencyStore.markAmbiguous_asks _)).handing.bind
  · exact fun _ _ h => h
  · exact fun _ _ h => h

theorem pass_keeps (hM : M.onLeft.Ignores (OnRecord apiKeyId key)) (event : ChatStreamEvent) :
    (self.pass apiKeyId key fingerprint event : Gen (redisI.sum J) Exn ChatStreamEvent Unit).Obeys (M.handing ChatStreamEvent)
      (fun _ s' => s' = s) s := by
  apply Prog.Obeys.bind (Q := fun _ s' => s' = s)
  · exact Prog.Obeys.perform trivial fun _ _ => rfl
  · rintro _ _ rfl
    cases event with
    | delta content => exact rfl
    | response r => exact (store_keeps hM (RedisIdempotencyStore.complete_asks _)).handing
  · exact fun _ _ h => h

theorem settle_keeps {primed : Gen J Exn ChatStreamEvent Unit} (hM : M.onLeft.Ignores (OnRecord apiKeyId key))
    (h : primed.Obeys (M.onRight.handing ChatStreamEvent) (fun _ _ => True) s) :
    (self.settle apiKeyId key fingerprint primed).Obeys (M.handing ChatStreamEvent) (fun _ _ => True) s := by
  induction primed generalizing s with
  | ret a => trivial
  | raise e => exact (broken_keeps hM e).mono fun _ _ _ => trivial
  | await c k ih =>
    cases c with
    | inl c => exact ⟨h.1, fun a ha => ih a (h.2 a ha)⟩
    | inr event =>
      have closed : ((Gen.aclose k).inr.inl : Gen (redisI.sum J) Exn ChatStreamEvent Unit).Obeys (M.handing ChatStreamEvent)
          (fun _ _ => True) s := Prog.Obeys.handing (Prog.Obeys.inr (closing_obeys (h.2 _ trivial)))
      apply (pass_keeps hM event).attempt_bind
      rintro r _ rfl
      cases r with
      | ok _ => exact ih _ (h.2 _ trivial)
      | error e =>
        apply (broken_keeps hM e).tryFinally
        rintro _ _ rfl
        exact closed.mono fun _ _ _ => trivial

theorem executeStream_serves {operation : Prog J Exn (Gen J Exn ChatStreamEvent Unit)}
    (hM : M.onLeft.Ignores (OnRecord apiKeyId key)) (hop : Serves M.onRight operation s) :
    Serves M (self.executeStream apiKeyId key request operation) s := by
  apply (store_keeps hM RedisIdempotencyStore.reserve_asks).bind
  · rintro outcome _ rfl
    split
    · apply Prog.Obeys.bind (Q := fun o s' => ∀ g, o = .ok g → g.Obeys (M.onRight.handing ChatStreamEvent) (fun _ _ => True) s')
      · apply (Prog.Obeys.inr hop).tryExcept (fun _ _ h => h)
        intro e _ _
        apply (unserved_keeps hM e).mono
        rintro _ _ ⟨e', rfl⟩ _ hg
        cases hg
      · intro primed s' hprimed
        exact Serves.ret (settle_keeps hM (hprimed primed rfl))
      · intro e _ _ _ hg
        cases hg
    · cases refuse (self.fingerprint request) outcome with
      | error e => exact Serves.raise e
      | ok body => exact Serves.ret (replayStream_keeps body)
  · intro e _ _ _ hg
    cases hg

end IdempotencyService

/-! ### The endpoint -/

namespace Chat
section Frames
variable {I : Interface} {M : Monitor I Exn σ}

theorem handled_keeps (e : Exn) : (handled e : Gen I Exn Frame Unit).Obeys (M.handing Frame) (fun _ s' => s' = s) s := by
  unfold handled
  split
  · exact Prog.Obeys.perform trivial fun _ _ => rfl
  · exact rfl

/-- Rendered as frames, the events keep to what they kept to. -/
theorem encodeSse_keeps {g : Gen I Exn ChatStreamEvent Unit} (h : g.Obeys (M.handing ChatStreamEvent) (fun _ _ => True) s) :
    (encodeSse g).Obeys (M.handing Frame) (fun _ _ => True) s := by
  induction g generalizing s with
  | ret a => trivial
  | raise e => exact (handled_keeps e).mono fun _ _ _ => trivial
  | await c k ih =>
    cases c with
    | inl c => exact ⟨h.1, fun a ha => ih a (h.2 a ha)⟩
    | inr event =>
      have yielded : (Gen.yield (frame event) : Gen I Exn Frame Unit).Obeys (M.handing Frame) (fun _ s' => s' = s) s :=
        Prog.Obeys.perform trivial fun _ _ => rfl
      have dropped : (Gen.finalise k).Obeys M (fun _ _ => True) s := finalise_obeys fun a => h.2 a trivial
      apply yielded.attempt_bind
      rintro r _ rfl
      cases r with
      | ok _ => exact ih _ (h.2 _ trivial)
      | error e =>
        apply (handled_keeps e).tryFinally
        rintro _ _ rfl
        exact dropped.handing.mono fun _ _ _ => trivial

/-- What a response still does keeps to it too. -/
def Completion.Keeps (M : Monitor I Exn σ) (s : σ) : Completion I → Prop
  | .streaming body => body.Obeys (M.handing Frame) (fun _ _ => True) s
  | .json _ => True

end Frames

section Endpoint
variable {M : Monitor (requestI A) Exn σ} {payload : ChatRequestSchema} {service : GatewayService A} {apiKeyId : UUID}
  {idempotency : IdempotencyService} {idempotencyKey : Option String}

/-- A command that is given in the name of this key: on the record that it has under the key of the
request, or of its usage. -/
def InNameOf (apiKeyId : UUID) (idempotencyKey : Option String) : (requestI A).Cmd → Prop
  | .inl c => ∃ key, idempotencyKey = some key ∧ RedisIdempotencyStore.OnRecord apiKeyId key c
  | .inr c => GatewayService.OwnUsage apiKeyId c

/-- The same, without those of the adapters. -/
def Aside (apiKeyId : UUID) (idempotencyKey : Option String) : (requestI A).Cmd → Prop
  | .inl c => ∃ key, idempotencyKey = some key ∧ RedisIdempotencyStore.OnRecord apiKeyId key c
  | .inr c => GatewayService.Recording apiKeyId c

theorem events_serves (hM : M.Ignores (Aside apiKeyId idempotencyKey)) (hservice : service.Keeps M.onRight.onLeft) :
    Serves M (events payload service apiKeyId idempotency idempotencyKey) s := by
  have streamed : Serves M.onRight (service.stream payload.toDomain apiKeyId) s :=
    GatewayService.stream_serves (fun s c hc => hM s (.inr c) hc) hservice
  cases idempotencyKey with
  | none =>
    apply Prog.Obeys.bind (Prog.Obeys.inr streamed)
    · exact fun served s' hserved => Serves.ret (among_obeys (hserved served rfl))
    · intro e _ _ _ hg
      cases hg
  | some key => exact IdempotencyService.executeStream_serves (fun s c hc => hM s (.inl c) ⟨key, rfl, hc⟩) streamed

theorem result_keeps (hM : M.Ignores (Aside apiKeyId idempotencyKey)) (hservice : service.Keeps M.onRight.onLeft) :
    (result payload service apiKeyId idempotency idempotencyKey).Obeys M (fun _ _ => True) s := by
  have completed : (service.complete payload.toDomain apiKeyId).Obeys M.onRight (fun _ _ => True) s :=
    GatewayService.complete_keeps (fun s c hc => hM s (.inr c) hc) hservice
  cases idempotencyKey with
  | none => exact Prog.Obeys.inr completed
  | some key => exact IdempotencyService.execute_keeps (fun s c hc => hM s (.inl c) ⟨key, rfl, hc⟩) completed

/-- **A request keeps to what its adapters keep to**, and so does the body that it leaves. -/
theorem createCompletion_keeps (hM : M.Ignores (Aside apiKeyId idempotencyKey)) (hservice : service.Keeps M.onRight.onLeft) :
    (createCompletion payload service apiKeyId idempotency idempotencyKey).Obeys M
      (fun o s' => ∀ completion, o = .ok completion → completion.Keeps M s') s := by
  unfold createCompletion
  split
  · apply Prog.Obeys.bind (events_serves hM hservice)
    · rintro events s' hevents _ hc
      cases hc
      exact encodeSse_keeps (hevents events rfl)
    · intro e _ _ _ hc
      cases hc
  · apply Prog.Obeys.bind (result_keeps hM hservice)
    · rintro response s' _ _ hc
      cases hc
      trivial
    · intro e _ _ _ hc
      cases hc

end Endpoint
end Chat
end Relayix
