import Relayix.Api.V1.Chat
import Relayix.Services.IdempotencyStream

/-! The frames of a streamed request.

Three generators end the body between them, `_drain`, `_settle` and the encoder, and only the
encoder sees what the others made of a failure. `Ending` says what the events of a request can
be: they finish with the terminal response, they are cut by an exception, or the exception comes
late, after the terminal response. -/
namespace Relayix
open Library
namespace Chat
open GatewayService (Handed bills forward)
open IdempotencyService (Settling asked operated)

/-- The frames of a body, and the events of a stream, as far as they were handed over. -/
def frames {I : Interface} (b : Trace (I.sum (handoff Frame)) Exn) : List Frame := (rights b).map Event.cmd

def given {I : Interface} (s : Trace (I.sum (handoff ChatStreamEvent)) Exn) : List ChatStreamEvent :=
  (rights s).map Event.cmd

/-- Deltas, then one terminal frame and nothing after it. -/
def WellFramed (frames : List Frame) : Prop :=
  ∃ (contents : List String) (last : Frame), frames = contents.map Frame.delta ++ [last] ∧ ∀ c, last ≠ .delta c

/-- Deltas, then the terminal response. -/
def Finished (given : List ChatStreamEvent) : Prop :=
  ∃ (contents : List String) (r : ChatResponse), given = contents.map ChatStreamEvent.delta ++ [.response r]

/-- Deltas alone. -/
def Cut (given : List ChatStreamEvent) : Prop := ∃ contents : List String, given = contents.map ChatStreamEvent.delta

/-- The write of a completed record failed. -/
def Unstored (stored : Trace redisI Exn) : Prop :=
  ∃ name fingerprint body ex e, ⟨.set name (.completed fingerprint body) false ex, .error e⟩ ∈ stored

/-! ### The encoder -/

theorem errorFrame_ne_delta {e : Exn} {f : Frame} (h : errorFrame e = some f) (c : String) : f ≠ .delta c := by
  rintro rfl
  unfold errorFrame at h
  split at h
  · cases h
  · split at h <;> cases h

theorem frame_delta_map (contents : List String) :
    (contents.map ChatStreamEvent.delta).map frame = contents.map Frame.delta := by
  rw [List.map_map]
  rfl

theorem wellFramed_of_finished {events : List ChatStreamEvent} (h : Finished events) : WellFramed (events.map frame) := by
  obtain ⟨contents, r, rfl⟩ := h
  refine ⟨contents, .done (.fromDomain r), ?_, fun c hc => by cases hc⟩
  rw [List.map_append, frame_delta_map]
  rfl

theorem wellFramed_of_cut {events : List ChatStreamEvent} {e : Exn} {f : Frame} (h : Cut events)
    (hf : errorFrame e = some f) : WellFramed (events.map frame ++ [f]) := by
  obtain ⟨contents, rfl⟩ := h
  exact ⟨contents, f, by rw [frame_delta_map], errorFrame_ne_delta hf⟩

/-- A frame after the terminal one. -/
theorem not_wellFramed {events : List ChatStreamEvent} {f : Frame} (h : Finished events) :
    ¬ WellFramed (events.map frame ++ [f]) := by
  obtain ⟨contents, r, rfl⟩ := h
  rintro ⟨contents', last, heq, _⟩
  obtain ⟨hinit, _⟩ := List.append_inj' heq rfl
  have hdone : Frame.done (.fromDomain r) ∈ contents'.map Frame.delta := by
    rw [← hinit, List.map_append]
    exact List.mem_append_right _ List.mem_cons_self
  obtain ⟨c, _, hc⟩ := List.mem_map.mp hdone
  cases hc

section Encoder
variable {I : Interface} {b : Trace (I.sum (handoff Frame)) Exn}

theorem handled_ends {e : Exn} {o : Except Exn Unit} (h : Ends (handled e : Gen I Exn Frame Unit) b o) :
    (∃ f a, errorFrame e = some f ∧ b = [⟨.inr f, a⟩] ∧ o = a) ∨ (b = [] ∧ o = .error e) := by
  unfold handled at h
  split at h
  · rename_i f hf
    exact .inl ⟨f, o, hf, ends_perform.mp h, rfl⟩
  · exact .inr (ends_raise.mp h)

/-- The frames of a body whose frames are all taken, and how it ends: by the events, and by how
their stream ended. -/
inductive Encoded (given : List ChatStreamEvent) : Except Exn Unit → List Frame → Except Exn Unit → Prop where
  | returned : Encoded given (.ok ()) (given.map frame) (.ok ())
  | told (e : Exn) {f : Frame} : errorFrame e = some f → Encoded given (.error e) (given.map frame ++ [f]) (.ok ())
  | raised (e : Exn) : Encoded given (.error e) (given.map frame) (.error e)

theorem Encoded.cons {given : List ChatStreamEvent} {o o' : Except Exn Unit} {fs : List Frame} (h : Encoded given o fs o')
    (event : ChatStreamEvent) : Encoded (event :: given) o (frame event :: fs) o' := by
  cases h with
  | returned => exact .returned
  | told e he => exact .told e he
  | raised e => exact .raised e

theorem encodeSse_ends {g : Gen I Exn ChatStreamEvent Unit} {o' : Except Exn Unit} (h : Ends (encodeSse g) b o')
    (htaken : ∀ x ∈ rights b, x.answer = .ok ()) :
    ∃ s o, Ends g s o ∧ (∀ x ∈ rights s, x.answer = .ok ()) ∧ lefts s = lefts b ∧ Encoded (given s) o (frames b) o' := by
  induction g generalizing b with
  | ret a =>
    obtain ⟨rfl, rfl⟩ := ends_ret.mp h
    exact ⟨[], .ok (), .refl _, fun _ hx => absurd hx List.not_mem_nil, rfl, .returned⟩
  | raise e =>
    refine ⟨[], .error e, .refl _, fun _ hx => absurd hx List.not_mem_nil, ?_⟩
    rcases handled_ends h with ⟨f, a, hf, rfl, rfl⟩ | ⟨rfl, rfl⟩
    · obtain rfl : o' = .ok () := htaken ⟨f, o'⟩ List.mem_cons_self
      exact ⟨rfl, .told e hf⟩
    · exact ⟨rfl, .raised e⟩
  | await c k ih =>
    cases c with
    | inl c =>
      obtain ⟨a, rest, rfl, hr⟩ := ends_await.mp h
      obtain ⟨s, o, hs, hall, hlefts, hend⟩ := ih a hr htaken
      exact ⟨⟨.inl c, a⟩ :: s, o, ends_await.mpr ⟨a, s, rfl, hs⟩, hall, congrArg (_ :: ·) hlefts, hend⟩
    | inr event =>
      obtain ⟨a, b₁, b₂, rfl, hy, hr⟩ := ends_attempt_bind.mp h
      obtain rfl := ends_perform.mp hy
      obtain ⟨ha, hrest⟩ := List.forall_mem_cons.mp htaken
      obtain rfl : a = .ok () := ha
      obtain ⟨s, o, hs, hall, hlefts, hend⟩ := ih (.ok ()) hr hrest
      exact ⟨⟨.inr event, .ok ()⟩ :: s, o, ends_await.mpr ⟨_, s, rfl, hs⟩, List.forall_mem_cons.mpr ⟨rfl, hall⟩, hlefts,
        hend.cons event⟩

end Encoder

/-! ### The events -/

/-- How the events of a request end, all of them taken: what was handed over, and what was
asked of the store. -/
inductive Ending (given : List ChatStreamEvent) (stored : Trace redisI Exn) : Except Exn Unit → Prop where
  | finished : Finished given → ¬ Unstored stored → Ending given stored (.ok ())
  | cut (e : Exn) : Cut given → ¬ Unstored stored → Ending given stored (.error e)
  | late (e : Exn) : Finished given → Unstored stored → Ending given stored (.error e)

theorem not_unstored_nil : ¬ Unstored [] := by
  rintro ⟨_, _, _, _, _, hmem⟩
  exact List.not_mem_nil hmem

/-- A drained stream whose items are taken: finished where it returns, cut where it fails. -/
theorem drains_given {apiKeyId : UUID} {source : Source Exn ChatStreamEvent} {handed : Handed}
    {records : GatewayService.Records} {o : Except Exn Unit}
    (h : GatewayService.Drains apiKeyId source handed records o) (htaken : ∀ x ∈ handed, x.answer = .ok ()) :
    (o = .ok () ∧ Finished (handed.map Event.cmd)) ∨ ∃ e, o = .error e ∧ Cut (handed.map Event.cmd) := by
  induction h with
  | dry => exact .inr ⟨_, rfl, [], rfl⟩
  | broke _ => exact .inr ⟨_, rfl, [], rfl⟩
  | @delta c _ _ _ _ _ ih =>
    rcases ih (List.forall_mem_cons.mp htaken).2 with ⟨rfl, contents, r, hf⟩ | ⟨e, rfl, contents, hf⟩
    · exact .inl ⟨rfl, c :: contents, r, congrArg (_ :: ·) hf⟩
    · exact .inr ⟨e, rfl, c :: contents, congrArg (_ :: ·) hf⟩
  | stopped _ => cases (List.forall_mem_cons.mp htaken).1
  | unbilled _ => exact .inr ⟨_, rfl, [], rfl⟩
  | answered => exact .inl ⟨rfl, [], _, rfl⟩
  | refused _ => cases (List.forall_mem_cons.mp htaken).1

/-- Items that were all deltas. -/
theorem cut_of_deltas {handed : Handed} (h : ∀ x ∈ handed, ∃ c, x = ⟨.delta c, .ok ()⟩) :
    Cut (handed.map Event.cmd) := by
  induction handed with
  | nil => exact ⟨[], rfl⟩
  | cons x handed ih =>
    obtain ⟨⟨c, rfl⟩, hrest⟩ := List.forall_mem_cons.mp h
    obtain ⟨contents, hcut⟩ := ih hrest
    exact ⟨c :: contents, congrArg (_ :: ·) hcut⟩

section Events
variable {A : Interface} {self : IdempotencyService} {apiKeyId : UUID} {key fingerprint : String}
  {g : Gen A Exn ChatStreamEvent Unit} {s : Settling (A.sum recorderI)} {o : Except Exn Unit}

theorem given_operated (s : Settling (A.sum recorderI)) : given (operated s) = given s := by
  rw [given, IdempotencyService.rights_operated]
  rfl

/-- A stream that nobody keeps a key for. -/
theorem among_ending (h : Ends (forward apiKeyId g).among s o) (htaken : ∀ x ∈ rights s, x.answer = .ok ()) :
    Ending (given s) (asked s) o := by
  obtain ⟨hends, hnone⟩ := among_ends h
  obtain ⟨source, hd⟩ := GatewayService.forward_some_drains hends
  have hgiven : (rights (operated s)).map Event.cmd = given s := given_operated s
  have hasked : asked s = [] := hnone
  rw [hasked]
  rcases drains_given hd (by rwa [IdempotencyService.rights_operated]) with ⟨rfl, hf⟩ | ⟨e, rfl, hf⟩
  · rw [hgiven] at hf
    exact .finished hf not_unstored_nil
  · rw [hgiven] at hf
    exact .cut e hf not_unstored_nil

/-- What the store was asked while everything went smoothly. -/
theorem smooth_stored (h : IdempotencyService.Smooth s) : ¬ Unstored (asked s) := by
  rintro ⟨name, fingerprint, body, ex, e, hmem⟩
  obtain ⟨b, hb⟩ := h.stored _ hmem
  cases hb

/-- The stream of a key: an exception comes late exactly where its response was not stored. -/
theorem settled_ending (h : Ends (self.settle apiKeyId key fingerprint (forward apiKeyId g)) s o)
    (htaken : ∀ x ∈ rights s, x.answer = .ok ()) : Ending (given s) (asked s) o := by
  obtain ⟨s₁, s₂, rfl, hsmooth, hleft⟩ := IdempotencyService.settle_left h
  have hdone : ∀ x ∈ rights (operated s₁), x.answer = .ok () := by
    rw [IdempotencyService.rights_operated]
    exact hsmooth.taken
  have hgiven : (rights (operated s₁)).map Event.cmd = given s₁ := given_operated s₁
  cases hleft with
  | returned hends =>
    obtain ⟨source, hd⟩ := GatewayService.forward_some_drains hends
    rw [List.append_nil]
    rcases drains_given hd hdone with ⟨_, hf⟩ | ⟨e, he, _⟩
    · rw [hgiven] at hf
      exact .finished hf (smooth_stored hsmooth)
    · cases he
  | @broken e e' a hends _ =>
    obtain ⟨source, hd⟩ := GatewayService.forward_some_drains hends
    rcases drains_given hd hdone with ⟨he, _⟩ | ⟨_, _, hf⟩
    · cases he
    · rw [hgiven] at hf
      have hsame : given (s₁ ++ [self.writes apiKeyId key (.parked fingerprint e.str) a]) = given s₁ := by
        rw [given, rights_append]
        exact congrArg _ (List.append_nil _)
      rw [hsame]
      refine .cut e' hf ?_
      rintro ⟨name, print, body, ex, x, hmem⟩
      rw [asked, lefts_append, lefts_append] at hmem
      rcases List.mem_append.mp hmem with hmem | hmem
      · exact smooth_stored hsmooth ⟨name, print, body, ex, x, hmem⟩
      · have hcmd := congrArg Event.cmd (List.mem_singleton.mp hmem)
        have hstatus : IdempotencyStatus.completed.value = IdempotencyStatus.ambiguous.value :=
          congrArg Record.status (RedisCmd.set.inj hcmd).2.1
        exact absurd hstatus (by decide)
  | @stopped event k s e e' a u x hreach hpass _ =>
    have hlast : ∀ x ∈ rights s, x.answer = .ok () := fun x hx =>
      htaken x (by rw [rights_append, rights_append]; exact List.mem_append_right _ (List.mem_append_left _ hx))
    cases hpass with
    | refused => cases hlast _ List.mem_cons_self
    | unstored r e =>
      obtain ⟨hdeltas, _⟩ := GatewayService.forward_reaches hreach
      obtain ⟨contents, hcut⟩ := cut_of_deltas hdeltas
      refine .late e' ⟨contents, r, ?_⟩
        ⟨redisKey apiKeyId key, fingerprint, IdempotencyService.serialize r, self.store.completedTtlS, e, ?_⟩
      · rw [given, rights_append, List.map_append]
        refine congr (congrArg _ (hgiven.symm.trans hcut)) ?_
        rw [rights_append, rights_inl, rights_map_inl]
        rfl
      · rw [asked, lefts_append, lefts_append]
        exact List.mem_append_right _ List.mem_cons_self

/-- A replayed response. -/
theorem replay_ending {J : Interface} {body : Option ResponseBody} {s : Settling J}
    (h : Ends (IdempotencyService.replayStream body) s o) (htaken : ∀ x ∈ rights s, x.answer = .ok ()) :
    Ending (given s) (asked s) o := by
  rcases ends_bind.mp h with ⟨response, s₁, s₂, rfl, hbody, hitems⟩ | ⟨e, rfl, hbody⟩
  · obtain ⟨rfl, _⟩ := ends_ofExcept.mp hbody
    have delivered : ∀ {v : Settling J}, Ends (Gen.yield (ChatStreamEvent.response response)) v o →
        (∀ x ∈ rights v, x.answer = .ok ()) → v = [⟨.inr (.response response), .ok ()⟩] ∧ o = .ok () := by
      intro v hv hall
      obtain rfl := ends_perform.mp hv
      have ho : o = .ok () := hall _ List.mem_cons_self
      rw [ho]
      exact ⟨rfl, rfl⟩
    by_cases hempty : response.content = ""
    · rw [if_pos hempty] at hitems
      obtain ⟨rfl, rfl⟩ := delivered hitems htaken
      exact .finished ⟨[], response, rfl⟩ not_unstored_nil
    · rw [if_neg hempty] at hitems
      rcases ends_perform_bind.mp hitems with ⟨_, rest, rfl, hresponse⟩ | ⟨e, rfl, _⟩
      · obtain ⟨rfl, rfl⟩ := delivered hresponse (List.forall_mem_cons.mp htaken).2
        exact .finished ⟨[response.content], response, rfl⟩ not_unstored_nil
      · cases (List.forall_mem_cons.mp htaken).1
  · obtain ⟨rfl, _⟩ := ends_ofExcept.mp hbody
    exact .cut e ⟨[], rfl⟩ not_unstored_nil

end Events

/-! ### The body of a streamed request -/

section Endpoint
variable {A : Interface} {payload : ChatRequestSchema} {service : GatewayService A} {apiKeyId : UUID}
  {idempotency : IdempotencyService} {idempotencyKey : Option String}

/-- Whatever events a request is answered with, they end in one of the three ways. -/
theorem events_ending {t : Trace (requestI A) Exn} {g : Gen (requestI A) Exn ChatStreamEvent Unit}
    (h : Ends (events payload service apiKeyId idempotency idempotencyKey) t (.ok g))
    {s : Settling (A.sum recorderI)} {o : Except Exn Unit} (hs : Ends g s o)
    (htaken : ∀ x ∈ rights s, x.answer = .ok ()) : Ending (given s) (asked s) o := by
  have served : ∀ {v} {served : GatewayService.Served A}, Ends (service.stream payload.toDomain apiKeyId) v
      (.ok served) → ∃ g', served = forward apiKeyId g' := by
    intro v served hv
    obtain ⟨_, _, _, _, _, hc⟩ := GatewayService.stream_commits hv
    obtain ⟨event, streamIter, _, rfl⟩ := hc.first
    exact ⟨.await (.inr event) streamIter, rfl⟩
  cases idempotencyKey with
  | none =>
    obtain ⟨_, t₁, t₂, rfl, hstream, hret⟩ | ⟨e, he, _⟩ := ends_bind.mp h
    · obtain ⟨v, rfl, hv⟩ := ends_inr.mp hstream
      obtain ⟨_, hg⟩ := ends_ret.mp hret
      cases hg
      obtain ⟨g', rfl⟩ := served hv
      exact among_ending hs htaken
    · cases he
  | some key =>
    obtain ⟨_, v, hv, rfl⟩ | ⟨_, body, rfl⟩ := IdempotencyService.executeStream_returns h
    · obtain ⟨g', rfl⟩ := served hv
      exact settled_ending hs htaken
    · exact replay_ending hs htaken

/-- **The frames of a streamed request, and when they go on after the terminal one.** For every
request that is answered with a stream, with a key or without, and every body of it that is read
to its end: it is deltas, then one terminal frame and nothing after it, exactly if no write of
the completed record failed. -/
theorem well_framed_iff {t : Trace (requestI A) Exn} {body : Gen (requestI A) Exn Frame Unit}
    (h : Ends (createCompletion payload service apiKeyId idempotency idempotencyKey) t (.ok (.streaming body)))
    {b : Trace ((requestI A).sum (handoff Frame)) Exn} (hb : Ends body b (.ok ()))
    (htaken : ∀ x ∈ rights b, x.answer = .ok ()) : WellFramed (frames b) ↔ ¬ Unstored (lefts (lefts b)) := by
  have hevents : ∃ g, Ends (events payload service apiKeyId idempotency idempotencyKey) t (.ok g) ∧
      body = encodeSse g := by
    unfold createCompletion at h
    split at h
    · obtain ⟨g, t₁, t₂, rfl, hg, hret⟩ | ⟨e, he, _⟩ := ends_bind.mp h
      · obtain ⟨rfl, hbody⟩ := ends_ret.mp hret
        cases hbody
        exact ⟨g, by rwa [List.append_nil], rfl⟩
      · cases he
    · obtain ⟨_, _, _, _, _, hret⟩ | ⟨e, he, _⟩ := ends_bind.mp h
      · cases (ends_ret.mp hret).2
      · cases he
  obtain ⟨g, hg, rfl⟩ := hevents
  obtain ⟨s, o, hs, hall, hlefts, hend⟩ := encodeSse_ends hb htaken
  have hending := events_ending hg hs hall
  have hasked : asked s = lefts (lefts b) := congrArg lefts hlefts
  rw [hasked] at hending
  generalize hfs : frames b = fs at hend ⊢
  cases hending with
  | finished hfin hstored =>
    cases hend with
    | returned => exact iff_of_true (wellFramed_of_finished hfin) hstored
  | cut e hcut hstored =>
    cases hend with
    | told _ hframe => exact iff_of_true (wellFramed_of_cut hcut hframe) hstored
  | late e hfin hstored =>
    cases hend with
    | told _ _ => exact iff_of_false (not_wellFramed hfin) (not_not_intro hstored)

end Endpoint

/-! ### On one request -/

section Trial
open GatewayService (trialAnswer trialSource trialStreamed)
open IdempotencyService (trialService trialRequest serialize)

def trialPayload : ChatRequestSchema where
  model := "gpt-4o"
  messages := [⟨"user", "hi", by decide, by decide⟩]
  stream := true
  named := by decide
  nonempty := List.cons_ne_nil _ _
  positive _ h := by cases h

def trialFrames : List Frame := [.delta "hi", .done (.fromDomain trialAnswer)]

/-- Without a key the body is a delta and the terminal frame. -/
theorem well_framed_keyless : WellFramed trialFrames := by
  let b : Trace ((requestI streamingI).sum (handoff Frame)) Exn :=
    [⟨.inr (.delta "hi"), .ok ()⟩, ⟨.inl (.inr (.inr (.record ⟨7⟩ trialAnswer))), .ok ()⟩,
      ⟨.inr (.done (.fromDomain trialAnswer)), .ok ()⟩]
  have served : ∃ body, Ends (createCompletion trialPayload trialStreamed ⟨7⟩ trialService none)
      [⟨.inr (.inl (.openai, trialRequest)), .ok trialSource⟩] (.ok (.streaming body)) ∧ Ends body b (.ok ()) :=
    ⟨_, .step _ (.refl _), .step _ (.step _ (.step _ (.refl _)))⟩
  obtain ⟨body, hserved, hb⟩ := served
  exact (well_framed_iff hserved hb (List.forall_mem_cons.mpr ⟨rfl, List.forall_mem_singleton.mpr rfl⟩)).mpr
    not_unstored_nil

/-- The store fails at the completed record: a done frame, and then an error frame. -/
theorem done_then_error :
    ∃ t body b, Ends (createCompletion trialPayload trialStreamed ⟨7⟩ trialService (some "k1")) t
        (.ok (.streaming body)) ∧
      Ends body b (.ok ()) ∧ (∀ x ∈ rights b, x.answer = .ok ()) ∧
      frames b = trialFrames ++ [.error ⟨"IDEMPOTENCY_STORE_UNAVAILABLE",
        "Idempotency store is unavailable, retry the request", none⟩] ∧ ¬ WellFramed (frames b) := by
  let print := trialService.fingerprint trialRequest
  refine ⟨[⟨.inl (.set (redisKey ⟨7⟩ "k1") (.claimed print) true 120), .ok true⟩,
      ⟨.inr (.inl (.openai, trialRequest)), .ok trialSource⟩], _,
    [⟨.inr (.delta "hi"), .ok ()⟩, ⟨.inl (.inr (.inr (.record ⟨7⟩ trialAnswer))), .ok ()⟩,
      ⟨.inr (.done (.fromDomain trialAnswer)), .ok ()⟩,
      ⟨.inl (.inl (.set (redisKey ⟨7⟩ "k1") (.completed print (serialize trialAnswer)) false 86400)),
        .error (.redisError "down")⟩,
      ⟨.inl (.inl (.set (redisKey ⟨7⟩ "k1") (.parked print idempotencyStoreUnavailable.str) false 86400)), .ok true⟩,
      ⟨.inr (.error ⟨"IDEMPOTENCY_STORE_UNAVAILABLE", "Idempotency store is unavailable, retry the request", none⟩),
        .ok ()⟩],
    .step _ (.step _ (.refl _)), .step _ (.step _ (.step _ (.step _ (.step _ (.step _ (.refl _)))))), ?_, rfl, ?_⟩
  · exact List.forall_mem_cons.mpr ⟨rfl, List.forall_mem_cons.mpr ⟨rfl, List.forall_mem_singleton.mpr rfl⟩⟩
  · have hfin : Finished [.delta "hi", .response trialAnswer] := ⟨["hi"], trialAnswer, rfl⟩
    exact not_wellFramed hfin

end Trial
end Chat
end Relayix
