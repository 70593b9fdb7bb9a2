import Relayix.Api.Authentication
import Relayix.Api.V1.ChatStream
import Relayix.Api.V1.Keeping
import Relayix.Infra.RateLimit.Windows
import Relayix.Infra.SharedRedis

/-! A chat request, from its header to the end of its body (`api/deps.py`, `api/v1/chat.py`).

The dependencies come first: the caller's key is looked up, and its limit is enforced. The endpoint
then runs in the name of that key. In a process any number of requests run in any interleaving, with
each other and with the operations that issue and revoke keys. -/
namespace Relayix
open Library
open ApiKeyService (Operation Issued tableAfter)

inductive LookupCmd where
  /-- the active row with the hash, if there is one -/
  | select (keyHash : String)
  deriving DecidableEq

@[reducible] def lookupI : Interface := ⟨LookupCmd, fun _ => Option ApiKeyRow⟩

/-- What an endpoint asks, and the frames that it sends. -/
@[reducible] def endpointI (A : Interface) : Interface := redisI.sum ((A.sum recorderI).sum (handoff Frame))

/-- What a request asks. -/
@[reducible] def appI (A : Interface) : Interface := lookupI.sum (limitersI.sum (endpointI A))

/-! ### The dependencies -/

section Dependencies
variable (sha256 : ByteArray → String) (authorization : Option String) (defaultRateLimitRpm : Nat) (apiKey : ApiKeyRow)

/-- `get_current_api_key`, its query put to the database. -/
def currentApiKey : Prog lookupI Exn ApiKeyRow := do
  let token ← Prog.ofExcept (bearerToken authorization)
  match ← @Prog.perform lookupI Exn (.select (hashApiKey sha256 token)) with
  | none => .raise unauthorized
  | some apiKey => pure apiKey

/-- `rate_limit_rpm or default_rate_limit_rpm` -/
def effectiveRpm : Nat :=
  match apiKey.rateLimitRpm with
  | none => defaultRateLimitRpm
  | some rpm => if rpm = 0 then defaultRateLimitRpm else rpm.toNat

def enforceRateLimit : Prog limitersI Exn Unit :=
  ResilientRateLimiter.composed apiKey.id (effectiveRpm defaultRateLimitRpm apiKey)

end Dependencies

/-- What a client sends to the endpoint, and the services that the request is given. -/
structure ChatCall (A : Interface) where
  authorization : Option String
  payload : ChatRequestSchema
  idempotencyKey : Option String
  service : GatewayService A
  idempotency : IdempotencyService

namespace ChatCall
variable {A : Interface} (self : ChatCall A)

/-- The endpoint, and the body of its response. -/
def answer (apiKeyId : UUID) : Prog (endpointI A) Exn Unit :=
  Prog.assoc <| ((Chat.createCompletion self.payload self.service apiKeyId self.idempotency self.idempotencyKey).inl :
      Prog ((Chat.requestI A).sum (handoff Frame)) Exn (Chat.Completion (Chat.requestI A))).bind fun
    | .streaming body => body
    | .json _ => .ret ()

def serve (sha256 : ByteArray → String) (defaultRateLimitRpm : Nat) : Prog (appI A) Exn Unit := do
  let apiKey ← (currentApiKey sha256 self.authorization).inl
  (enforceRateLimit defaultRateLimitRpm apiKey).inl.inr
  (self.answer apiKey.id).inr.inr

end ChatCall

/-! ### The process -/

/-- A process, and the table of keys. -/
structure Site where
  table : ApiKeyTable
  worker : Worker

/-- A lookup finds what is committed, or fails. Keys are issued and revoked meanwhile. -/
def siteWorld (sha256 : ByteArray → String) (columns : ApiKeyRow → Except Exn Unit) (runs : RateBuckets → BucketCmd → Prop)
    (A : Interface) : World (appI A) Exn Site where
  answers
    | x, .inl (.select keyHash), a, x' =>
        (a = .ok (x.table.rows.find? fun row => row.keyHash = keyHash ∧ row.isActive) ∨ ∃ e, a = .error e) ∧ x' = x
    | x, .inr c, a, x' => (sharedWorld runs _).answers x.worker c a x'.worker ∧ x'.table = x.table
  elapses x x' :=
    (∃ op, x' = { x with table := (ApiKeyService.step sha256 columns x.table op).2 }) ∨
      ((sharedWorld runs ((A.sum recorderI).sum (handoff Frame))).elapses x.worker x'.worker ∧ x'.table = x.table)

/-! ### One request -/

section Request
variable {A : Interface} {sha256 : ByteArray → String} {authorization : Option String} {defaultRateLimitRpm : Nat}
  {call : ChatCall A} {apiKey : ApiKeyRow} {apiKeyId : UUID} {idempotencyKey : Option String}

theorem currentApiKey_ends {t : Trace lookupI Exn} (h : Ends (currentApiKey sha256 authorization) t (.ok apiKey)) :
    ∃ token, bearerToken authorization = .ok token ∧ t = [⟨.select (hashApiKey sha256 token), .ok (some apiKey)⟩] := by
  rcases ends_bind.mp h with ⟨token, t₁, t₂, rfl, htoken, hrest⟩ | ⟨e, he, _⟩
  · obtain ⟨rfl, hbearer⟩ := ends_ofExcept.mp htoken
    refine ⟨token, hbearer.symm, ?_⟩
    rcases ends_perform_bind.mp hrest with ⟨found, rest, rfl, hr⟩ | ⟨e, _, he⟩
    · cases found with
      | none => cases (ends_raise.mp hr).2
      | some row =>
        obtain ⟨rfl, hrow⟩ := ends_ret.mp hr
        cases hrow
        rfl
    · cases he
  · cases he

/-- What an endpoint asks in the name of a key. -/
def Acts (apiKeyId : UUID) (idempotencyKey : Option String) : (endpointI A).Cmd → Prop
  | .inl c => Chat.InNameOf (A := A) apiKeyId idempotencyKey (.inl c)
  | .inr (.inl c) => Chat.InNameOf apiKeyId idempotencyKey (.inr c)
  | .inr (.inr _) => True

/-- The same, without what its adapters ask. -/
def Besides (apiKeyId : UUID) (idempotencyKey : Option String) : (endpointI A).Cmd → Prop
  | .inl c => Chat.Aside (A := A) apiKeyId idempotencyKey (.inl c)
  | .inr (.inl c) => Chat.Aside apiKeyId idempotencyKey (.inr c)
  | .inr (.inr _) => True

/-- What a request asks, its endpoint in the name of a key. -/
def Allowed (apiKeyId : UUID) (idempotencyKey : Option String) : (appI A).Cmd → Prop
  | .inr (.inr c) => Acts apiKeyId idempotencyKey c
  | _ => True

theorem answer_keeps {σ : Type} {M : Monitor (endpointI A) Exn σ} {s : σ} (hM : M.Ignores (Besides apiKeyId call.idempotencyKey))
    (hservice : call.service.Keeps M.onRight.onLeft.onLeft) : (call.answer apiKeyId).Obeys M (fun _ _ => True) s := by
  have aside : M.unassoc.onLeft.Ignores (Chat.Aside apiKeyId call.idempotencyKey) := by
    rintro s (c | c) hc
    · exact hM s (.inl c) hc
    · exact hM s (.inr (.inl c)) hc
  apply Prog.Obeys.assoc
  apply Prog.Obeys.of_handing
  · rintro s _ ⟨frame, rfl⟩
    exact hM s (.inr (.inr frame)) trivial
  · apply (Chat.createCompletion_keeps aside hservice).handing.bind
    · intro completion s' h
      cases completion with
      | streaming body => exact h _ rfl
      | json response => trivial
    · exact fun _ _ _ => trivial

theorem answer_asks : (call.answer apiKeyId).Asks (Acts apiKeyId call.idempotencyKey) := by
  apply answer_keeps
  · rintro s (c | (c | ⟨id, response⟩) | frame) hc
    · exact ⟨hc, fun _ => rfl⟩
    · exact hc.elim
    · exact ⟨hc, fun _ => rfl⟩
    · exact ⟨trivial, fun _ => rfl⟩
  · exact GatewayService.keeps_of_lenient (fun _ _ => trivial) _

/-- The request was let in: the lookup found the row, and a check of its limit returned. `checks` is
what the limiter was asked. -/
def Admitted (sha256 : ByteArray → String) (defaultRateLimitRpm : Nat) (call : ChatCall A) (apiKey : ApiKeyRow)
    (checks : Trace limitersI Exn) (t : Trace (appI A) Exn) : Prop :=
  ∃ (token : String) (rest : Trace (endpointI A) Exn), bearerToken call.authorization = .ok token ∧
    t = ⟨.inl (.select (hashApiKey sha256 token)), .ok (some apiKey)⟩ ::
      ((checks.map Event.inl).map Event.inr ++ (rest.map Event.inr).map Event.inr) ∧
    Ends (enforceRateLimit defaultRateLimitRpm apiKey) checks (.ok ())

theorem currentApiKey_first {t : Trace lookupI Exn} {c : lookupI.Cmd} {k : Except Exn (lookupI.Ans c) → Prog lookupI Exn ApiKeyRow}
    (h : Reaches (currentApiKey sha256 authorization) t (.await c k)) : t = [] := by
  rcases h.of_bind with ⟨k', hk⟩ | ⟨token, t₁, t₂, rfl, htoken, hrest⟩
  · cases hbearer : bearerToken authorization with
    | ok token =>
      rw [hbearer] at hk
      cases (reaches_ret.mp hk).2
    | error e =>
      rw [hbearer] at hk
      cases (reaches_raise.mp hk).2
  · obtain ⟨rfl, _⟩ := ends_ofExcept.mp htoken
    rcases reaches_await.mp hrest with ⟨rfl, _⟩ | ⟨a, rest, _, hr⟩
    · rfl
    · -- nothing is asked after the lookup
      match a with
      | .ok none => cases (reaches_raise.mp hr).2
      | .ok (some row) => cases (reaches_ret.mp hr).2
      | .error e => cases (reaches_raise.mp hr).2

/-- Whom a request asks. -/
inductive Layer where
  | lookup
  | check
  | endpoint
  deriving DecidableEq

def layer : (appI A).Cmd → Layer
  | .inl _ => .lookup
  | .inr (.inl _) => .check
  | .inr (.inr _) => .endpoint

theorem lookup_asks {α : Type} (p : Prog lookupI Exn α) : (p.inl : Prog (appI A) Exn α).Asks fun c => layer c = .lookup :=
  (Prog.Asks.of_forall (fun _ => rfl) p).inl

theorem check_asks {α : Type} (p : Prog limitersI Exn α) : (p.inl.inr : Prog (appI A) Exn α).Asks fun c => layer c = .check :=
  Prog.Asks.inr (Prog.Asks.of_forall (fun _ => rfl) p).inl

theorem endpoint_asks {α : Type} (p : Prog (endpointI A) Exn α) :
    (p.inr.inr : Prog (appI A) Exn α).Asks fun c => layer c = .endpoint :=
  (Prog.Asks.inr (Prog.Asks.of_forall (fun _ => rfl) p)).inr

/-- A monitor of what the adapters of a request are asked. -/
def onAdapters {σ : Type} (M : Monitor A Exn σ) : Monitor (appI A) Exn σ where
  next
    | s, .inr (.inr (.inr (.inl (.inl c)))), a => M.next s c a
    | s, _, _ => s
  allowed
    | s, .inr (.inr (.inr (.inl (.inl c)))) => M.allowed s c
    | _, _ => True
  expects
    | .inr (.inr (.inr (.inl (.inl c)))), a => M.expects c a
    | _, _ => True

/-- **A request keeps to what its adapters keep to.** -/
theorem serve_keeps {σ : Type} {M : Monitor A Exn σ} (h : call.service.Keeps M) (s : σ) :
    (call.serve sha256 defaultRateLimitRpm).Obeys (onAdapters M) (fun _ _ => True) s := by
  have before : (onAdapters M).Ignores fun c => layer c ≠ .endpoint := by
    rintro s (c | c | c) hc
    · exact ⟨trivial, fun _ => rfl⟩
    · exact ⟨trivial, fun _ => rfl⟩
    · exact absurd rfl hc
  have lookups : ((currentApiKey sha256 call.authorization).inl : Prog (appI A) Exn ApiKeyRow).Asks fun c => layer c ≠ .endpoint :=
    (lookup_asks _).imp fun c hc => by rw [hc]; decide
  have checks : ∀ apiKey, ((enforceRateLimit defaultRateLimitRpm apiKey).inl.inr : Prog (appI A) Exn Unit).Asks
      fun c => layer c ≠ .endpoint := fun apiKey => (check_asks _).imp fun c hc => by rw [hc]; decide
  apply (lookups.ignored before s).bind
  · rintro apiKey _ rfl
    apply ((checks apiKey).ignored before _).bind
    · rintro _ _ rfl
      apply Prog.Obeys.inr
      apply Prog.Obeys.inr
      apply answer_keeps
      · rintro s (c | (c | c) | c) hc
        · exact ⟨trivial, fun _ => rfl⟩
        · exact hc.elim
        · exact ⟨trivial, fun _ => rfl⟩
        · exact ⟨trivial, fun _ => rfl⟩
      · exact h
    · exact fun _ _ _ => trivial
  · exact fun _ _ _ => trivial

/-- Where a request has got to, by the layer that it asks next. -/
theorem serve_reaches {t : Trace (appI A) Exn} {c : (appI A).Cmd} {k : Except Exn ((appI A).Ans c) → Prog (appI A) Exn Unit}
    (h : Reaches (call.serve sha256 defaultRateLimitRpm) t (.await c k)) :
    (layer c = .lookup → t = []) ∧
    ∀ c', c = .inr (.inr c') → ∃ apiKey checks, Admitted sha256 defaultRateLimitRpm call apiKey checks t ∧
      Acts apiKey.id call.idempotencyKey c' := by
  rcases h.of_bind with ⟨k', hk⟩ | ⟨apiKey, t₁, t₂, rfl, hlookup, hrest⟩
  · have hlayer : layer c = .lookup := (Prog.Obeys.reaches (lookup_asks _) hk fun _ _ => trivial).1
    refine ⟨fun _ => ?_, fun c' hc => by rw [hc] at hlayer; cases hlayer⟩
    cases c with
    | inl c =>
      obtain ⟨s, q, rfl, hq, hs⟩ := hk.of_inl
      cases q with
      | ret a => cases hq
      | raise e => cases hq
      | await c k => rw [currentApiKey_first hs, List.map_nil]
    | inr c => cases c <;> cases hlayer
  · obtain ⟨s, rfl, hs⟩ := ends_inl.mp hlookup
    obtain ⟨token, htoken, rfl⟩ := currentApiKey_ends hs
    rcases hrest.of_bind with ⟨k', hk⟩ | ⟨_, t₃, t₄, rfl, hcheck, hend⟩
    · have hlayer : layer c = .check := (Prog.Obeys.reaches (check_asks _) hk fun _ _ => trivial).1
      exact ⟨fun hl => (by rw [hl] at hlayer; cases hlayer), fun c' hc => by rw [hc] at hlayer; cases hlayer⟩
    · have hlayer : layer c = .endpoint := (Prog.Obeys.reaches (endpoint_asks _) hend fun _ _ => trivial).1
      refine ⟨fun hl => (by rw [hl] at hlayer; cases hlayer), ?_⟩
      rintro c' rfl
      obtain ⟨_, rfl, hinner⟩ := ends_inr.mp hcheck
      obtain ⟨checks, rfl, hchecked⟩ := ends_inl.mp hinner
      obtain ⟨_, _, rfl, _, hinner⟩ := hend.of_inr
      obtain ⟨rest, _, rfl, _, _⟩ := hinner.of_inr
      refine ⟨apiKey, checks, ⟨token, rest, htoken, rfl, hchecked⟩, ?_⟩
      have hacts : (call.answer apiKey.id).inr.inr.Asks (Allowed apiKey.id call.idempotencyKey) := (Prog.Asks.inr answer_asks).inr
      exact (Prog.Obeys.reaches hacts hend fun _ _ => trivial).1

end Request

/-! ### The table of keys -/

section Table
variable {sha256 : ByteArray → String} {columns : ApiKeyRow → Except Exn Unit} {runs : RateBuckets → BucketCmd → Prop} {A : Interface}
  {ι : Type} [DecidableEq ι] {start p : Pool (appI A) Exn ι Site} {h : List (Step (appI A) Exn ι Site)}

/-- A request leaves the table as it is. -/
theorem table_of_answers {x x' : Site} {c : (appI A).Cmd} {a : Except Exn ((appI A).Ans c)}
    (h : (siteWorld sha256 columns runs A).answers x c a x') : x'.table = x.table := by
  match c, a, h with
  | .inl (.select keyHash), a, h => exact congrArg Site.table h.2
  | .inr c, a, h => exact h.2

/-- In a run the table only undergoes the operations on keys. -/
theorem table_run (hr : Run (siteWorld sha256 columns runs A) start h p) :
    ∃ ops : List Operation,
      p.world.table = ops.foldl (fun table op => (ApiKeyService.step sha256 columns table op).2) start.world.table := by
  induction hr with
  | start => exact ⟨[], rfl⟩
  | command _ _ ha ih =>
    obtain ⟨ops, hops⟩ := ih
    exact ⟨ops, (table_of_answers ha).trans hops⟩
  | elapse _ he ih =>
    obtain ⟨ops, hops⟩ := ih
    rcases he with ⟨op, rfl⟩ | ⟨_, htable⟩
    · refine ⟨ops ++ [op], ?_⟩
      rw [List.foldl_append, ← hops]
      rfl
    · exact ⟨ops, htable.trans hops⟩

/-- An operation changes no row's id or limit. -/
theorem kept_by_operation (table : ApiKeyTable) (op : Operation) {row : ApiKeyRow} (hrow : row ∈ table.rows) :
    ∃ row' ∈ (ApiKeyService.step sha256 columns table op).2.rows, row'.id = row.id ∧ row'.rateLimitRpm = row.rateLimitRpm := by
  refine ⟨ApiKeyService.effect op row, ?_, ?_⟩
  · rw [ApiKeyService.step_rows]
    exact List.mem_append_left _ (List.mem_map_of_mem hrow)
  · cases op with
    | create draws name rateLimitRpm monthlyTokenQuota => exact ⟨rfl, rfl⟩
    | revoke apiKeyId =>
      refine ⟨ApiKeyRow.revoke_id apiKeyId row, ?_⟩
      show (row.revoke apiKeyId).rateLimitRpm = row.rateLimitRpm
      unfold ApiKeyRow.revoke
      split <;> rfl

theorem kept_by_operations (ops : List Operation) (table : ApiKeyTable) {row : ApiKeyRow} (hrow : row ∈ table.rows) :
    ∃ row' ∈ (ops.foldl (fun table op => (ApiKeyService.step sha256 columns table op).2) table).rows,
      row'.id = row.id ∧ row'.rateLimitRpm = row.rateLimitRpm := by
  induction ops generalizing table row with
  | nil => exact ⟨row, hrow, rfl, rfl⟩
  | cons op ops ih =>
    obtain ⟨row', hrow', hid, hrpm⟩ := kept_by_operation table op hrow
    obtain ⟨row'', hrow'', hid', hrpm'⟩ := ih _ hrow'
    exact ⟨row'', hrow'', hid'.trans hid, hrpm'.trans hrpm⟩

/-- A lookup answers with an active row of the table. -/
theorem found_of_select (hr : Run (siteWorld sha256 columns runs A) start h p) {s : Step (appI A) Exn ι Site} (hs : s ∈ h)
    {keyHash : String} {apiKey : ApiKeyRow} (hevent : s.event = ⟨.inl (.select keyHash), .ok (some apiKey)⟩) :
    apiKey ∈ s.before.table.rows ∧ apiKey.keyHash = keyHash ∧ apiKey.isActive = true := by
  obtain ⟨w', ha⟩ := hr.mem_answers hs
  rw [hevent] at ha
  rcases ha.1 with hfind | ⟨e, he⟩
  · have hfind := (Except.ok.inj hfind).symm
    have hfound := List.find?_some hfind
    exact ⟨List.mem_of_find?_eq_some hfind, by simpa using hfound⟩
  · cases he

/-- Whenever it is looked up, a key has the limit that it has in the end. -/
theorem limit_of_select (hr : Run (siteWorld sha256 columns runs A) start h p) {s : Step (appI A) Exn ι Site} (hs : s ∈ h)
    {keyHash : String} {apiKey row : ApiKeyRow} (hevent : s.event = ⟨.inl (.select keyHash), .ok (some apiKey)⟩)
    (hrow : row ∈ p.world.table.rows) (hid : apiKey.id = row.id) : apiKey.rateLimitRpm = row.rateLimitRpm := by
  obtain ⟨hmem, _, _⟩ := found_of_select hr hs hevent
  obtain ⟨pre, post, rfl⟩ := List.append_of_mem hs
  obtain ⟨p₀, k, w, _, _, _, ha, hrest⟩ := hr.resumes rfl
  obtain ⟨ops, hops⟩ := table_run hrest
  rw [← table_of_answers ha] at hmem
  obtain ⟨row', hrow', hid', hrpm⟩ := kept_by_operations ops _ hmem
  rw [← hops] at hrow'
  rw [ApiKeyTable.eq_of_id hrow hrow' (hid.symm.trans hid'.symm)]
  exact hrpm.symm

/-- A key that was issued has a positive limit, or none of its own. -/
theorem issued_limit {ops later : List Operation} {apiKey : ApiKey} {token : String}
    (h : Issued sha256 columns ops apiKey token later) : ∀ rpm ∈ apiKey.rateLimitRpm, 0 < rpm := by
  obtain ⟨before, op, _, hop⟩ := h
  cases op with
  | create draws name rateLimitRpm monthlyTokenQuota =>
    unfold ApiKeyService.step at hop
    cases hcreate : ApiKeyService.createApiKey sha256 columns (tableAfter sha256 columns before) draws name rateLimitRpm
        monthlyTokenQuota with
    | ok created =>
      obtain ⟨⟨key, drawn⟩, table'⟩ := created
      simp only [hcreate, ApiKeyService.Outcome.created.injEq] at hop
      obtain ⟨rfl, rfl⟩ := hop
      obtain ⟨key', hkey, hinsert⟩ := ok_of_bind hcreate
      obtain ⟨_, _, hret⟩ := ok_of_bind hinsert
      cases hret
      unfold ApiKey.create at hkey
      split_ifs at hkey with _ _ hrpm _
      rw [← Except.ok.inj hkey]
      intro rpm hmem
      by_contra hno
      exact hrpm ⟨rpm, hmem, not_lt.mp hno⟩
    | error e =>
      simp only [hcreate, reduceCtorEq] at hop
  | revoke apiKeyId =>
    rcases ApiKeyService.step_revoke (tableAfter sha256 columns before) apiKeyId with ⟨row, _, _, hstep⟩ | ⟨_, hstep⟩ <;>
      rw [hstep] at hop <;> cases hop

theorem effectiveRpm_pos {ops : List Operation} {row : ApiKeyRow} {defaultRateLimitRpm : Nat} (hdefault : 0 < defaultRateLimitRpm)
    (hrow : row ∈ (tableAfter sha256 columns ops).rows) : 0 < effectiveRpm defaultRateLimitRpm row := by
  obtain ⟨apiKey, token, later, hissued, rfl⟩ := ApiKeyService.mem_tableAfter.mp hrow
  rw [ApiKeyService.stored_eq hissued.created.2.2]
  show 0 < match apiKey.rateLimitRpm with | none => _ | some rpm => _
  cases hrpm : apiKey.rateLimitRpm with
  | none => exact hdefault
  | some rpm =>
    have hpos : 0 < rpm := issued_limit hissued rpm (by rw [hrpm]; rfl)
    show 0 < if rpm = 0 then _ else _
    rw [if_neg (ne_of_gt hpos)]
    omega

end Table

/-- The row that a request found, if it found one. -/
def found {A : Interface} (t : Trace (appI A) Exn) : Option ApiKeyRow :=
  match t with
  | ⟨.inl (.select _), .ok row⟩ :: _ => row
  | _ => none

/-! ### What the limiter sees -/

/-- The commands of the limiter. -/
def limiterView (A : Interface) : View (appI A) limitersI
  | .inl _ => .other
  | .inr (.inl c) => .mine c
  | .inr (.inr _) => .other

section View
variable {A : Interface} {sha256 : ByteArray → String} {columns : ApiKeyRow → Except Exn Unit} {K : UUID}

theorem outside_of_layer {c : (appI A).Cmd} (h : layer c ≠ .check) : (limiterView A).Outside c := by
  match c, h with
  | .inl c, _ => trivial
  | .inr (.inl c), h => exact h rfl
  | .inr (.inr c), _ => trivial

theorem layer_of_heard {c : (appI A).Cmd} {a : Except Exn ((appI A).Ans c)} {e : Event limitersI Exn}
    (h : (limiterView A c).heard a = some e) : layer c = .check := by
  cases c with
  | inl c => cases h
  | inr c =>
    cases c with
    | inl c => rfl
    | inr c => cases h

theorem check_shows {α : Type} (E : Event (appI A) Exn → Prop) (q : Prog limitersI Exn α) :
    (q.inl.inr : Prog (appI A) Exn α).Shows (limiterView A) E q := by
  induction q with
  | ret a => trivial
  | raise e => trivial
  | await c k ih => exact ⟨k, rfl, fun a _ => ih a⟩

theorem trace_check (t : Trace limitersI Exn) :
    (limiterView A).trace ((t.map Event.inl).map Event.inr : Trace (appI A) Exn) = t := by
  induction t with
  | nil => rfl
  | cons e t ih => exact congrArg (e :: ·) ih

/-- The limiter sees of an admitted request what it was asked. -/
theorem Admitted.trace {defaultRateLimitRpm : Nat} {call : ChatCall A} {apiKey : ApiKeyRow} {checks : Trace limitersI Exn}
    {t : Trace (appI A) Exn} (h : Admitted sha256 defaultRateLimitRpm call apiKey checks t) : (limiterView A).trace t = checks := by
  obtain ⟨token, rest, _, rfl, _⟩ := h
  have hrest : (limiterView A).trace ((rest.map Event.inr).map Event.inr : Trace (appI A) Exn) = [] := by
    refine View.trace_outside _ fun e he => ?_
    obtain ⟨e', he', rfl⟩ := List.mem_map.mp he
    obtain ⟨e'', _, rfl⟩ := List.mem_map.mp he'
    trivial
  show (limiterView A).trace (_ ++ _) = checks
  rw [View.trace_append, trace_check, hrest, List.append_nil]

/-- For the limiters of a key, everything else is time that passes. -/
theorem elapses_of_limiters {w w' : Worker} (h : w'.limiters = w.limiters) :
    (ResilientRateLimiter.process K (ResilientRateLimiter.Forward K)).elapses w.limiters w'.limiters :=
  .inl ⟨w.redis.buckets, h, le_refl _, rfl⟩

def limiterProjection (sha256 : ByteArray → String) (columns : ApiKeyRow → Except Exn Unit) (K : UUID) (A : Interface) :
    Projection (siteWorld sha256 columns (ResilientRateLimiter.Forward K) A)
      (ResilientRateLimiter.process K (ResilientRateLimiter.Forward K)) (limiterView A) where
  within
    | .inl _ => True
    | .inr c => WellNamed _ c
  inv x := x.worker.Proper
  abs x := x.worker.limiters
  answers {x x' c a} hc hx ha := by
    match c, a, hc, ha with
    | .inl (.select keyHash), a, _, ha =>
      obtain rfl := ha.2
      exact ⟨hx, elapses_of_limiters rfl⟩
    | .inr (.inl c), a, hc, ha =>
      obtain ⟨hx', hlimiters, _⟩ := apart_of_shared hx hc ha.1
      exact ⟨hx', hlimiters⟩
    | .inr (.inr c), a, hc, ha =>
      obtain ⟨hx', _, hlimiters⟩ := apart_of_shared hx hc ha.1
      exact ⟨hx', elapses_of_limiters hlimiters⟩
  elapses {x x'} hx he := by
    rcases he with ⟨op, rfl⟩ | ⟨he, _⟩
    · exact ⟨hx, elapses_of_limiters rfl⟩
    · obtain ⟨hx', hapart⟩ := apart_of_shared_elapses hx he
      refine ⟨hx', ?_⟩
      rcases hapart with ⟨now, hnow, _, h⟩ | ⟨c, hc, hruns, h⟩
      · exact .inl ⟨{ x.worker.redis.buckets with now := now }, congrArg Prod.fst h, hnow, rfl⟩
      · exact .inr ⟨c, hc, hruns, congrArg Prod.fst h⟩

end View

/-! ### Every run -/

section Runs
variable {A : Interface} {sha256 : ByteArray → String} {columns : ApiKeyRow → Except Exn Unit} {defaultRateLimitRpm : Nat}
  {ι : Type} [DecidableEq ι] {runs : RateBuckets → BucketCmd → Prop} {before : List Operation} {worker : Worker}
  {calls : ι → ChatCall A} {h : List (Step (appI A) Exn ι Site)} {p : Pool (appI A) Exn ι Site}

/-- The requests of a process, on the keys that earlier operations left. -/
abbrev requests (sha256 : ByteArray → String) (columns : ApiKeyRow → Except Exn Unit) (defaultRateLimitRpm : Nat)
    (before : List Operation) (worker : Worker) (calls : ι → ChatCall A) : Pool (appI A) Exn ι Site :=
  ⟨⟨tableAfter sha256 columns before, worker⟩, fun i => (calls i).serve sha256 defaultRateLimitRpm⟩

/-- The request of this thread was let in for this key: it stood when it was looked up, by the hash of
what the header bears, and a check of its limit returned. -/
structure LetIn (sha256 : ByteArray → String) (columns : ApiKeyRow → Except Exn Unit) (defaultRateLimitRpm : Nat)
    (call : ChatCall A) (i : ι) (h : List (Step (appI A) Exn ι Site)) (apiKey : ApiKey) : Prop where
  authenticated : ∃ s ∈ h, s.thread = i ∧ ∃ ops token presented, s.before.table = tableAfter sha256 columns ops ∧
    ApiKeyService.Standing sha256 columns ops apiKey token ∧ bearerToken call.authorization = .ok presented ∧
      hashApiKey sha256 presented = hashApiKey sha256 token
  throttled : ∃ checks, Admitted sha256 defaultRateLimitRpm call (ApiKeyRepo.ofDomain apiKey) checks (log i h)

theorem table_at {x : Site} {q : Pool (appI A) Exn ι Site}
    (hr : Run (siteWorld sha256 columns runs A) (requests sha256 columns defaultRateLimitRpm before worker calls) h q)
    (hx : q.world = x) : ∃ ops, x.table = tableAfter sha256 columns ops := by
  obtain ⟨ops, hops⟩ := table_run hr
  refine ⟨before ++ ops, ?_⟩
  rw [← hx, hops]
  exact (List.foldl_append ..).symm

/-- What was looked up is the row of a key that stood. -/
theorem standing_of_select (hr : Run (siteWorld sha256 columns runs A) (requests sha256 columns defaultRateLimitRpm before worker calls) h p)
    {s : Step (appI A) Exn ι Site} (hs : s ∈ h) {authorization : Option String} {presented : String} {row : ApiKeyRow}
    (hbearer : bearerToken authorization = .ok presented)
    (hevent : s.event = ⟨.inl (.select (hashApiKey sha256 presented)), .ok (some row)⟩) :
    ∃ ops apiKey token, s.before.table = tableAfter sha256 columns ops ∧ ApiKeyService.Standing sha256 columns ops apiKey token ∧
      hashApiKey sha256 presented = hashApiKey sha256 token ∧ row = ApiKeyRepo.ofDomain apiKey := by
  obtain ⟨hmem, hhash, hactive⟩ := found_of_select hr hs hevent
  obtain ⟨pre, post, he⟩ := List.append_of_mem hs
  obtain ⟨q, hq, hworld, _⟩ := hr.at he
  obtain ⟨ops, hops⟩ := table_at hq hworld
  rw [hops] at hmem
  obtain ⟨text, apiKey, token, later, htext, hissued, hlater, htoken, hrow⟩ :=
    ApiKeyService.standing_of_ok (getCurrentApiKey_ok.mpr ⟨presented, hbearer, hmem, hhash, hactive⟩)
  obtain rfl := Except.ok.inj (hbearer.symm.trans htext)
  exact ⟨ops, apiKey, token, hops, ⟨later, hissued, hlater⟩, htoken, hrow⟩

/-- **Whoever is served was let in.** Before an endpoint asks anything, its caller's key was found standing
and a check of the key's limit returned; and all that it ever asks is in the name of that key. -/
theorem served_let_in
    (hr : Run (siteWorld sha256 columns runs A) (requests sha256 columns defaultRateLimitRpm before worker calls) h p) :
    ∀ pre s post c, h = pre ++ s :: post → s.event.cmd = .inr (.inr c) →
      ∃ apiKey, LetIn sha256 columns defaultRateLimitRpm (calls s.thread) s.thread pre apiKey ∧
        Acts apiKey.id (calls s.thread).idempotencyKey c := by
  intro pre s post c he hc
  obtain ⟨q, hq, _, ⟨k, hk⟩, _⟩ := hr.at he
  have hreaches := hq.reaches s.thread
  rw [hk] at hreaches
  obtain ⟨row, checks, hadmitted, hacts⟩ := (serve_reaches hreaches).2 c hc
  obtain ⟨presented, rest, hbearer, hlog, hcheck⟩ := hadmitted
  have hfirst : ⟨.inl (.select (hashApiKey sha256 presented)), .ok (some row)⟩ ∈ log s.thread pre := by
    rw [hlog]
    exact List.mem_cons_self
  obtain ⟨s₀, hs₀, hthread, hevent⟩ := mem_log.mp hfirst
  obtain ⟨ops, apiKey, token, hops, hstanding, hhash, rfl⟩ := standing_of_select hq hs₀ hbearer hevent
  refine ⟨apiKey, ⟨⟨s₀, hs₀, hthread, ops, token, presented, hops, hstanding, hbearer, hhash⟩, checks, ?_⟩, hacts⟩
  exact ⟨presented, rest, hbearer, hlog, hcheck⟩

end Runs

/-! ### On one request -/

section Trial
open ApiKeyService (issuedHash trialColumns trialOps trialHeader secondToken)

/-- The row of the second key. -/
def trialRow : ApiKeyRow := ⟨⟨2⟩, issuedHash (generateApiKey secondToken).toUTF8, "second", some 60, none, true, 20⟩

/-- A buffered request of the second key. -/
def trialCall : ChatCall Interface.silent where
  authorization := trialHeader
  payload := { Chat.trialPayload with stream := false }
  idempotencyKey := some "k1"
  service := ⟨fun _ => none, fun _ => .ok []⟩
  idempotency := ⟨⟨120, 86400⟩, fun _ => "6854e67072f57734f34d91df9b0ee7e772511238ee943479cbd735ae911f56be"⟩

theorem find_trial : (tableAfter issuedHash trialColumns trialOps).rows.find? (fun row =>
    row.keyHash = hashApiKey issuedHash (generateApiKey secondToken) ∧ row.isActive) = some trialRow := by
  decide +kernel

/-- Redis is down for the limiter, and the fallback lets the request in; its claim is what it asks next. -/
theorem trial_run : ∃ (h : List (Step (appI Interface.silent) Exn Unit Site)) (p : Pool (appI Interface.silent) Exn Unit Site),
    Run (siteWorld issuedHash trialColumns (ResilientRateLimiter.Forward trialRow.id) Interface.silent)
      (requests issuedHash trialColumns 60 trialOps trialWorker fun _ => trialCall) h p ∧
    ∃ c k, p.threads () = .await (.inr (.inr (.inl c))) k := by
  have hok : (InMemoryRateLimiter.new.check ⟨⟨2⟩, 60, 0⟩).1 = .ok () := by
    refine (InMemoryRateLimiter.check_ok_iff (c := ⟨⟨2⟩, 60, 0⟩) .new (by decide)).mpr ?_
    show (1 : ℚ) ≤ Bucket.level ((60 : Nat) : ℚ) ((60 : Nat) / 60) (.fresh ((60 : Nat) : ℚ) 0) 0
    rw [Bucket.level_fresh (by norm_num) (le_refl 0)]
    norm_num
  have r₀ : Run (siteWorld issuedHash trialColumns (ResilientRateLimiter.Forward trialRow.id) Interface.silent)
      (requests issuedHash trialColumns 60 trialOps trialWorker fun _ : Unit => trialCall) [] _ := .start
  have r₁ := r₀.answer () rfl (.ok (some trialRow)) _ ⟨.inl (congrArg _ find_trial.symm), rfl⟩
  have r₂ := r₁.answer () rfl (.ok (true, 0)) ⟨_, trialWorker⟩ ⟨⟨rfl, rfl⟩, rfl⟩
  have r₃ := r₂.answer () rfl (.ok 0) ⟨_, trialWorker⟩ ⟨⟨rfl, rfl⟩, rfl⟩
  have r₄ := r₃.answer () rfl (.error rateLimiterUnavailable) ⟨_, _⟩ ⟨.inr ⟨⟨_, rfl⟩, rfl⟩, rfl⟩
  have r₅ := r₄.answer () rfl (.ok ()) ⟨_, _⟩ ⟨⟨rfl, rfl⟩, rfl⟩
  have r₆ := r₅.answer () rfl (.ok ()) ⟨_, _⟩ ⟨⟨hok.symm, rfl⟩, rfl⟩
  exact ⟨_, _, r₆, _, _, rfl⟩

/-- Its claim is in the name of the key. -/
theorem served_let_in_trial : ∃ (apiKey : ApiKey) (h : List (Step (appI Interface.silent) Exn Unit Site)) (c : redisI.Cmd),
    LetIn issuedHash trialColumns 60 trialCall () h apiKey ∧ Acts (A := Interface.silent) apiKey.id (some "k1") (.inl c) := by
  obtain ⟨h, p, hr, c, k, hk⟩ := trial_run
  have r₁ := hr.answer () hk (.error (.redisError "")) p.world ⟨.inr ⟨_, rfl, .inl rfl⟩, rfl⟩
  obtain ⟨apiKey, hlet, hacts⟩ := served_let_in r₁ h _ [] (.inl c) rfl rfl
  exact ⟨apiKey, h, c, hlet, hacts⟩

end Trial

section Runs
variable {A : Interface} {sha256 : ByteArray → String} {columns : ApiKeyRow → Except Exn Unit} {defaultRateLimitRpm : Nat}
  {ι : Type} [DecidableEq ι] {runs : RateBuckets → BucketCmd → Prop} {before : List Operation} {worker : Worker}
  {calls : ι → ChatCall A} {h : List (Step (appI A) Exn ι Site)} {p : Pool (appI A) Exn ι Site}

/-! ### How often a key is let in -/

/-- A lookup is the first that a request asks, so what it answered is what was found. -/
theorem found_of_mem (hr : Run (siteWorld sha256 columns runs A) (requests sha256 columns defaultRateLimitRpm before worker calls) h p)
    {i : ι} {keyHash : String} {row : ApiKeyRow} (hmem : ⟨.inl (.select keyHash), .ok (some row)⟩ ∈ log i h) :
    found (log i h) = some row := by
  obtain ⟨pre, post, hsplit⟩ := List.append_of_mem hmem
  have hreaches := hr.reaches i
  rw [hsplit] at hreaches
  obtain ⟨q, hq, hrest⟩ := Reaches.split pre hreaches
  cases hrest with
  | step a _ =>
    obtain rfl : pre = [] := (serve_reaches hq).1 rfl
    rw [hsplit]
    rfl

theorem mem_of_found {t : Trace (appI A) Exn} {row : ApiKeyRow} (h : found t = some row) :
    ∃ keyHash, ⟨.inl (.select keyHash), .ok (some row)⟩ ∈ t := by
  unfold found at h
  split at h
  · cases h
    exact ⟨_, List.mem_cons_self⟩
  · cases h

/-- The limit under which the limiter is asked. -/
theorem effectiveRpm_of_mem (hr : Run (siteWorld sha256 columns runs A) (requests sha256 columns defaultRateLimitRpm before worker calls) h p)
    {i : ι} {keyHash : String} {apiKey row : ApiKeyRow} (hmem : ⟨.inl (.select keyHash), .ok (some apiKey)⟩ ∈ log i h)
    (hrow : row ∈ p.world.table.rows) (hid : apiKey.id = row.id) :
    effectiveRpm defaultRateLimitRpm apiKey = effectiveRpm defaultRateLimitRpm row := by
  obtain ⟨s, hs, _, hevent⟩ := mem_log.mp hmem
  unfold effectiveRpm
  rw [limit_of_select hr hs hevent hrow hid]

/-- What each request asks its limiter: of the key that it found, and where that is the key of `row`, with its limit. -/
def limitOf (defaultRateLimitRpm : Nat) (row : ApiKeyRow) (found : Option ApiKeyRow) : UUID × Nat :=
  match found with
  | none => (row.id, effectiveRpm defaultRateLimitRpm row)
  | some apiKey => (apiKey.id, effectiveRpm defaultRateLimitRpm apiKey)

/-- A request shows the limiter one check, of the key that it finds. -/
theorem serve_shows {call : ChatCall A} {E : Event (appI A) Exn → Prop} {q : Prog limitersI Exn Unit}
    (hE : ∀ keyHash apiKey, E ⟨.inl (.select keyHash), .ok (some apiKey)⟩ → q = enforceRateLimit defaultRateLimitRpm apiKey) :
    (call.serve sha256 defaultRateLimitRpm).Shows (limiterView A) E q := by
  have hlookup : ((currentApiKey sha256 call.authorization).inl : Prog (appI A) Exn ApiKeyRow).Asks (limiterView A).Outside :=
    (lookup_asks _).imp fun c hc => outside_of_layer (by rw [hc]; decide)
  refine Prog.Shows.after hlookup fun t apiKey hends ht => ?_
  obtain ⟨s, rfl, hs⟩ := ends_inl.mp hends
  obtain ⟨token, _, rfl⟩ := currentApiKey_ends hs
  obtain rfl := hE _ apiKey (ht _ List.mem_cons_self)
  refine (check_shows E _).bind fun _ => ?_
  exact (endpoint_asks _).imp fun c hc => outside_of_layer (by rw [hc]; decide)

theorem serve_within {call : ChatCall A} {K : UUID} : (call.serve sha256 defaultRateLimitRpm).Asks (limiterProjection sha256 columns K A).within := by
  refine (Prog.Asks.of_forall (fun _ => trivial) _).inl.bind fun apiKey => ?_
  refine Prog.Asks.bind (Prog.Asks.inr (Prog.Asks.inl (composed_wellNamed _ _ _))) fun _ => Prog.Asks.inr ?_
  refine Prog.Asks.inr (answer_asks.imp fun c hc => ?_)
  match c, hc with
  | .inl c, ⟨key, _, hname⟩ => exact ⟨⟨apiKey.id, key⟩, hname⟩
  | .inr c, _ => trivial

/-- The requests of a key in a run, let in by a check that lies in a window of `T` seconds. -/
def InWindow (sha256 : ByteArray → String) (defaultRateLimitRpm : Nat) (calls : ι → ChatCall A) (h : List (Step (appI A) Exn ι Site))
    (apiKeyId : UUID) (s T : ℚ) (i : ι) : Prop :=
  (∃ apiKey checks, apiKey.id = apiKeyId ∧ Admitted sha256 defaultRateLimitRpm (calls i) apiKey checks (log i h)) ∧
    ∀ x ∈ h, x.thread = i → layer x.event.cmd = .check → s ≤ x.before.worker.redis.now ∧ x.before.worker.redis.now ≤ s + T

/-- **No more requests than the limit allows are let in for a key**, twice over for the two limiters:
whoever else uses the process, and whatever is issued and revoked meanwhile. -/
theorem requests_throttled {failThreshold : Nat} {resetTimeoutS : ℚ} {redis : SharedRedis} {row : ApiKeyRow}
    (hr : Run (siteWorld sha256 columns (ResilientRateLimiter.Forward row.id) A)
      (requests sha256 columns defaultRateLimitRpm before ⟨.new failThreshold resetTimeoutS, redis, .new, []⟩ calls) h p)
    (hdefault : 0 < defaultRateLimitRpm) (htyped : redis.Typed) (hnew : redis.entries (RedisRateLimiter.bucketName row.id) = none)
    (hrow : row ∈ p.world.table.rows) {R : Finset ι} {s T : ℚ} (hT : 0 ≤ T)
    (hR : ∀ i ∈ R, InWindow sha256 defaultRateLimitRpm calls h row.id s T i) :
    (R.card : ℚ) ≤ 2 * (effectiveRpm defaultRateLimitRpm row + effectiveRpm defaultRateLimitRpm row * T / 60) := by
  obtain ⟨ops, hops⟩ := table_at hr rfl
  have hlimit : 0 < effectiveRpm defaultRateLimitRpm row := effectiveRpm_pos hdefault (hops ▸ hrow)
  let asked : ι → UUID × Nat := fun i => limitOf defaultRateLimitRpm row (found (log i h))
  have hrpm : ∀ i, (asked i).1 = row.id → (asked i).2 = effectiveRpm defaultRateLimitRpm row := by
    intro i hi
    cases hfound : found (log i h) with
    | none => simp only [asked, hfound, limitOf]
    | some apiKey =>
      simp only [asked, hfound, limitOf] at hi ⊢
      obtain ⟨keyHash, hmem⟩ := mem_of_found hfound
      exact effectiveRpm_of_mem hr hmem hrow hi
  have hshows : ∀ i, ((calls i).serve sha256 defaultRateLimitRpm).Shows (limiterView A) (fun e => e ∈ log i h)
      (ResilientRateLimiter.composed (asked i).1 (asked i).2) := by
    intro i
    refine serve_shows fun keyHash apiKey hmem => ?_
    show ResilientRateLimiter.composed (limitOf _ _ _).1 (limitOf _ _ _).2 = _
    rw [found_of_mem hr hmem]
    rfl
  have hproper : Worker.Proper ⟨.new failThreshold resetTimeoutS, redis, .new, []⟩ := ⟨htyped, fun c hc => absurd hc List.not_mem_nil⟩
  let P := limiterProjection sha256 columns row.id A
  obtain ⟨_, threads, hr₁, _⟩ := hr.project P (fun i => serve_within) hshows (by exact hproper) fun i e he => he
  have habsent : redis.buckets.entries (RedisRateLimiter.bucketName row.id) = none :=
    Expiring.narrow_entries_eq_none.mpr fun e he => by rw [hnew] at he; cases he
  refine ResilientRateLimiter.card_le_window (s := s) hr₁ hlimit hrpm habsent hT fun i hi => ?_
  obtain ⟨⟨apiKey, checks, hid, hadmitted⟩, hwindow⟩ := hR i hi
  have hfound : found (log i h) = some apiKey := by
    obtain ⟨token, rest, _, hlog, _⟩ := hadmitted
    rw [hlog]
    rfl
  have hasked : asked i = (apiKey.id, effectiveRpm defaultRateLimitRpm apiKey) := by
    show limitOf _ _ _ = _
    rw [hfound]
    rfl
  -- the check returned, in its own run as in that of the request
  have hreturned : threads i = .ret () := by
    have hreaches : Reaches (ResilientRateLimiter.composed (asked i).1 (asked i).2) (log i (h.filterMap P.step)) (threads i) :=
      hr₁.reaches i
    rw [P.log_steps, hadmitted.trace, hasked] at hreaches
    obtain ⟨_, _, _, _, hchecked⟩ := hadmitted
    exact hreaches.unique hchecked
  have hkey : (asked i).1 = row.id := by rw [hasked, hid]
  obtain ⟨t, hthrough⟩ := ResilientRateLimiter.through_of_returned hr₁ hkey hreturned
  refine ⟨t, hthrough, ResilientRateLimiter.through_within hr₁ (fun x₁ hx₁ hthread => ?_) hthrough⟩
  obtain ⟨x, hx, hstep⟩ := List.mem_filterMap.mp hx₁
  obtain ⟨e, heard, rfl⟩ := Option.map_eq_some_iff.mp hstep
  exact hwindow x hx hthread (layer_of_heard heard)

end Runs

/-! ### On four requests -/

section Four
open ApiKeyService (issuedHash trialColumns secondToken)

/-- A key that allows one request a minute. -/
def onceOps : List Operation := [.create ⟨secondToken, ⟨2⟩, 20⟩ "second" (some 1) none]

def onceRow : ApiKeyRow := ⟨⟨2⟩, issuedHash (generateApiKey secondToken).toUTF8, "second", some 1, none, true, 20⟩

theorem find_once : (tableAfter issuedHash trialColumns onceOps).rows.find? (fun row =>
    row.keyHash = hashApiKey issuedHash (generateApiKey secondToken) ∧ row.isActive) = some onceRow := by
  decide +kernel

def onceScript (now : ℚ) : BucketCmd := .script (RedisRateLimiter.bucketName ⟨2⟩) (1 : Nat) ((1 : Nat) / 60) now 120

/-- Redis lets the check through. -/
def byRedis (now : ℚ) : Trace limitersI Exn :=
  [⟨.inl .allow, .ok (true, 0)⟩, ⟨.inr (.inl .time), .ok now⟩, ⟨.inr (.inl (onceScript now)), .ok (true, 0)⟩,
    ⟨.inl (.report .success 0), .ok ()⟩]

/-- Its reply is lost, and the other limiter lets it through. -/
def byMemory (now : ℚ) : Trace limitersI Exn :=
  [⟨.inl .allow, .ok (true, 0)⟩, ⟨.inr (.inl .time), .ok now⟩, ⟨.inr (.inl (onceScript now)), .error rateLimiterUnavailable⟩,
    ⟨.inl (.report .failure 0), .ok ()⟩, ⟨.inr (.inr (.check ⟨2⟩ 1)), .ok ()⟩]

/-- A request, up to its endpoint. -/
def lettingIn (checks : Trace limitersI Exn) : Trace (appI Interface.silent) Exn :=
  ⟨.inl (.select (hashApiKey issuedHash (generateApiKey secondToken))), .ok (some onceRow)⟩ :: (checks.map Event.inl).map Event.inr

/-- Two of them at once, and two a minute later. Of either two one reply is lost. -/
def onceNow (later : Bool) : ℚ := if later then 60 else 0

def onceChecks (i : Bool × Bool) : Trace limitersI Exn := if i.2 then byMemory (onceNow i.1) else byRedis (onceNow i.1)

theorem ends_once (i : Bool × Bool) : Ends (enforceRateLimit 60 onceRow) (onceChecks i) (.ok ()) := by
  obtain ⟨later, lost⟩ := i
  cases lost with
  | false => exact .step _ (.step _ (.step _ (.step _ (.refl _))))
  | true => exact .step _ (.step _ (.step _ (.step _ (.step _ (.refl _)))))

theorem admitted_once (i : Bool × Bool) : Admitted issuedHash 60 trialCall onceRow (onceChecks i) (lettingIn (onceChecks i)) := by
  refine ⟨generateApiKey secondToken, [], by decide, ?_, ends_once i⟩
  rw [List.map_nil, List.map_nil, List.append_nil]
  rfl

theorem reaches_once (i : Bool × Bool) : ∃ q, Reaches (trialCall.serve issuedHash 60) (lettingIn (onceChecks i)) q := by
  obtain ⟨later, lost⟩ := i
  cases lost with
  | false => exact ⟨_, .step _ (.step _ (.step _ (.step _ (.step _ (.refl _)))))⟩
  | true => exact ⟨_, .step _ (.step _ (.step _ (.step _ (.step _ (.step _ (.refl _))))))⟩

/-- The requests follow each other, the clock having moved on between the second and the third. -/
def onceTurns : List ((Bool × Bool) × Event (appI Interface.silent) Exn) :=
  [(false, false), (false, true), (true, false), (true, true)].flatMap fun i => (lettingIn (onceChecks i)).map fun e => (i, e)

theorem part_once (i : Bool × Bool) : part i onceTurns = lettingIn (onceChecks i) := by
  obtain ⟨later, lost⟩ := i
  cases later <;> cases lost <;> rfl

/-- The first minute. -/
def InMinute (x : Site) : Prop := 0 ≤ x.worker.redis.now ∧ x.worker.redis.now ≤ 60

abbrev onceWorld : World (appI Interface.silent) Exn Site :=
  (siteWorld issuedHash trialColumns (ResilientRateLimiter.Forward onceRow.id) Interface.silent).within InMinute

section Gives
variable {w : Worker}

abbrev onceSite (w : Worker) : Site := ⟨tableAfter issuedHash trialColumns onceOps, w⟩

/-- The process once its breaker has let a check ask Redis. -/
abbrev asking (w : Worker) : Worker := { w with breaker := (w.breaker.exec w.redis.now .allow).2 }

/-- The process once Redis has let it through. -/
abbrev throughRedis (w : Worker) (redis : SharedRedis) : Worker :=
  ⟨((asking w).breaker.exec redis.now (.report .success 0)).2, redis, w.memory, w.lost⟩

/-- The process once the reply is lost, and the other limiter has let it through. -/
abbrev throughMemory (w : Worker) : Worker :=
  ⟨((asking w).breaker.exec w.redis.now (.report .failure 0)).2, w.redis, (w.memory.check ⟨⟨2⟩, 1, w.redis.now⟩).2,
    onceScript w.redis.now :: w.lost⟩

/-- What a check asks first. -/
theorem gives_asking {t : Trace (appI Interface.silent) Exn} {x : Site} (hw : InMinute (onceSite w))
    (hallow : (w.breaker.exec w.redis.now .allow).1 = (true, 0)) (h : onceWorld.Gives (onceSite (asking w)) t x) :
    onceWorld.Gives (onceSite w) (⟨.inl (.select (hashApiKey issuedHash (generateApiKey secondToken))), .ok (some onceRow)⟩ ::
      ⟨.inr (.inl (.inl .allow)), .ok (true, 0)⟩ :: ⟨.inr (.inl (.inr (.inl .time))), .ok w.redis.now⟩ :: t) x := by
  have found : onceWorld.answers (onceSite w) (.inl (.select (hashApiKey issuedHash (generateApiKey secondToken)))) (.ok (some onceRow))
      (onceSite w) := ⟨⟨.inl (congrArg _ find_once.symm), rfl⟩, hw⟩
  have allowed : onceWorld.answers (onceSite w) (.inr (.inl (.inl .allow))) (.ok (true, 0)) (onceSite (asking w)) :=
    ⟨⟨⟨congrArg Except.ok hallow.symm, rfl⟩, rfl⟩, hw⟩
  have read : onceWorld.answers (onceSite (asking w)) (.inr (.inl (.inr (.inl .time)))) (.ok w.redis.now) (onceSite (asking w)) :=
    ⟨⟨⟨rfl, rfl⟩, rfl⟩, hw⟩
  exact .command found (.command allowed (.command read h))

theorem gives_byRedis {redis : SharedRedis} (hw : InMinute (onceSite w)) (hallow : (w.breaker.exec w.redis.now .allow).1 = (true, 0))
    (hforward : ResilientRateLimiter.Forward onceRow.id w.redis.buckets (onceScript w.redis.now))
    (hrun : w.redis.run (onceScript w.redis.now) = (.ok (true, 0), redis)) (hnow : redis.now = w.redis.now) :
    onceWorld.Gives (onceSite w) (lettingIn (byRedis w.redis.now)) (onceSite (throughRedis w redis)) := by
  have hredis : ∀ breaker, InMinute (onceSite ⟨breaker, redis, w.memory, w.lost⟩) := by
    intro breaker
    rw [InMinute, hnow]
    exact hw
  have ran : onceWorld.answers (onceSite (asking w)) (.inr (.inl (.inr (.inl (onceScript w.redis.now))))) (.ok (true, 0))
      (onceSite { asking w with redis }) := by
    refine ⟨⟨.inl ⟨hforward, (congrArg Prod.fst hrun).symm, ?_⟩, rfl⟩, hredis _⟩
    exact congrArg (fun redis => ({ asking w with redis } : Worker)) (congrArg Prod.snd hrun).symm
  have reported : onceWorld.answers (onceSite { asking w with redis }) (.inr (.inl (.inl (.report .success 0)))) (.ok ())
      (onceSite (throughRedis w redis)) := ⟨⟨⟨rfl, rfl⟩, rfl⟩, hredis _⟩
  exact gives_asking hw hallow (.command ran (.command reported (.done _)))

theorem gives_byMemory (hw : InMinute (onceSite w)) (hallow : (w.breaker.exec w.redis.now .allow).1 = (true, 0))
    (hmemory : (w.memory.check ⟨⟨2⟩, 1, w.redis.now⟩).1 = .ok ()) :
    onceWorld.Gives (onceSite w) (lettingIn (byMemory w.redis.now)) (onceSite (throughMemory w)) := by
  have lost : onceWorld.answers (onceSite (asking w)) (.inr (.inl (.inr (.inl (onceScript w.redis.now)))))
      (.error rateLimiterUnavailable) (onceSite { asking w with lost := onceScript w.redis.now :: w.lost }) :=
    ⟨⟨.inr ⟨⟨_, rfl⟩, rfl⟩, rfl⟩, hw⟩
  have reported : onceWorld.answers (onceSite { asking w with lost := onceScript w.redis.now :: w.lost })
      (.inr (.inl (.inl (.report .failure 0)))) (.ok ()) (onceSite { throughMemory w with memory := w.memory }) :=
    ⟨⟨⟨rfl, rfl⟩, rfl⟩, hw⟩
  have checked : onceWorld.answers (onceSite { throughMemory w with memory := w.memory }) (.inr (.inl (.inr (.inr (.check ⟨2⟩ 1)))))
      (.ok ()) (onceSite (throughMemory w)) := ⟨⟨⟨hmemory.symm, rfl⟩, rfl⟩, hw⟩
  exact gives_asking hw hallow (.command lost (.command reported (.command checked (.done _))))

end Gives

/-- Redis after the first script, a minute later, and after the second one. -/
def onceRedis : SharedRedis := (⟨0, fun _ => none⟩ : SharedRedis).write (RedisRateLimiter.bucketName ⟨2⟩) (.hash ⟨0, 0⟩) 120

def onceLater : SharedRedis := { onceRedis with now := 60 }

def onceAgain : SharedRedis := onceLater.write (RedisRateLimiter.bucketName ⟨2⟩) (.hash ⟨0, 60⟩) 120

theorem run_first : trialWorker.redis.run (onceScript 0) = (.ok (true, 0), onceRedis) := by
  have full : tokenBucketLua (1 : Nat) ((1 : Nat) / 60) 0 none = ((true, 0), ⟨0, 0⟩) := by decide +kernel
  have hread : trialWorker.redis.read (RedisRateLimiter.bucketName ⟨2⟩) = none := rfl
  simp only [onceScript, SharedRedis.run, hread, full]
  rfl

theorem run_again : onceLater.run (onceScript 60) = (.ok (true, 0), onceAgain) := by
  have refilled : tokenBucketLua (1 : Nat) ((1 : Nat) / 60) 60 (some ⟨0, 0⟩) = ((true, 0), ⟨0, 60⟩) := by decide +kernel
  have waited : Expiring.Waits onceRedis onceLater := ⟨show (0 : ℚ) ≤ 60 by norm_num, rfl⟩
  have hread : onceLater.read (RedisRateLimiter.bucketName ⟨2⟩) = some (.hash ⟨0, 0⟩) := by
    refine waited.kept ?_
    show (60 : ℚ) < 0 + 120
    norm_num
  simp only [onceScript, SharedRedis.run, hread, refilled]
  rfl

/-- The minute that has passed has not been credited before. -/
theorem forward_again : ResilientRateLimiter.Forward onceRow.id onceLater.buckets (onceScript 60) := by
  rintro - e he
  have hbuckets : onceRedis.buckets = (⟨0, fun _ => none⟩ : RateBuckets).write (RedisRateLimiter.bucketName ⟨2⟩) ⟨0, 0⟩ 120 :=
    Expiring.narrow_write_of_kind rfl
  have hentry : onceLater.buckets.entries (RedisRateLimiter.bucketName ⟨2⟩) = some ⟨⟨0, 0⟩, 0 + 120⟩ := by
    have hentries : onceLater.buckets.entries = onceRedis.buckets.entries := rfl
    rw [hentries, hbuckets, Expiring.write_entries_self]
  obtain rfl := Option.some.inj (hentry.symm.trans he)
  constructor
  · show (0 : ℚ) ≤ 60
    norm_num
  · intro _
    show (0 : ℚ) + 60 ≤ 60
    norm_num

/-- The process after each of the requests. -/
abbrev onceFirst : Worker := throughRedis trialWorker onceRedis

abbrev onceSecond : Worker := throughMemory onceFirst

abbrev onceWaited : Worker := { onceSecond with redis := onceLater }

abbrev onceThird : Worker := throughRedis onceWaited onceAgain

theorem gives_once : onceWorld.Gives (onceSite trialWorker) (onceTurns.map Prod.snd) (onceSite (throughMemory onceThird)) := by
  have hturns : onceTurns.map Prod.snd = lettingIn (byRedis 0) ++ (lettingIn (byMemory 0) ++ (lettingIn (byRedis 60) ++
      lettingIn (byMemory 60))) := rfl
  have first : InMinute (onceSite onceFirst) := ⟨le_refl 0, show (0 : ℚ) ≤ 60 by norm_num⟩
  have later : InMinute (onceSite onceWaited) := ⟨show (0 : ℚ) ≤ 60 by norm_num, le_refl 60⟩
  have hmemory : (onceFirst.memory.check ⟨⟨2⟩, 1, 0⟩).1 = .ok () := by
    rw [InMemoryRateLimiter.check_ok_iff _ (le_refl 1)]
    decide +kernel
  have hmemory' : (onceThird.memory.check ⟨⟨2⟩, 1, 60⟩).1 = .ok () := by
    rw [InMemoryRateLimiter.check_ok_iff _ (le_refl 1)]
    decide +kernel
  have waited : onceWorld.elapses (onceSite onceSecond) (onceSite onceWaited) :=
    ⟨.inr ⟨.inl ⟨60, show (0 : ℚ) ≤ 60 by norm_num, rfl⟩, rfl⟩, later⟩
  rw [hturns]
  refine .append (gives_byRedis first (by decide +kernel) (ResilientRateLimiter.forward_absent rfl _) run_first rfl) ?_
  refine .append (gives_byMemory first (by decide +kernel) hmemory) (.elapse waited ?_)
  refine .append (gives_byRedis later (by decide +kernel) forward_again run_again rfl) ?_
  exact gives_byMemory later (by decide +kernel) hmemory'

/-- The four requests are all that the key may make in the minute, two let in by either limiter. -/
theorem requests_throttled_trial : ∃ h : List (Step (appI Interface.silent) Exn (Bool × Bool) Site),
    (∀ i, InWindow issuedHash 60 (fun _ => trialCall) h onceRow.id 0 60 i) ∧
      (∃ s ∈ h, s.event = ⟨.inr (.inl (.inr (.inl (onceScript 60)))), .ok (true, 0)⟩) ∧
      ((({(false, false), (false, true), (true, false), (true, true)} : Finset (Bool × Bool)).card : Nat) : ℚ) ≤
        2 * ((effectiveRpm 60 onceRow : Nat) + (effectiveRpm 60 onceRow : Nat) * 60 / 60) ∧
      (2 : ℚ) * ((effectiveRpm 60 onceRow : Nat) + (effectiveRpm 60 onceRow : Nat) * 60 / 60) = 4 := by
  choose q hq using reaches_once
  have hstart : Run onceWorld (requests issuedHash trialColumns 60 onceOps trialWorker fun _ : Bool × Bool => trialCall) []
      (requests issuedHash trialColumns 60 onceOps trialWorker fun _ => trialCall) := .start
  obtain ⟨h, hrun, hturns⟩ := hstart.interleaves (q := q) (fun i => (part_once i).symm ▸ hq i) gives_once
  obtain ⟨hr, _, hminute⟩ := hrun.within ⟨le_refl 0, show (0 : ℚ) ≤ 60 by norm_num⟩
  have hlog : ∀ i, log i h = lettingIn (onceChecks i) := by
    intro i
    rw [← part_history, hturns, part_once]
  have hwindow : ∀ i, InWindow issuedHash 60 (fun _ => trialCall) h onceRow.id 0 60 i := by
    intro i
    refine ⟨⟨onceRow, onceChecks i, rfl, ?_⟩, fun x hx _ _ => ?_⟩
    · rw [hlog]
      exact admitted_once i
    · rw [zero_add]
      exact hminute x hx
  have hscript : ∃ s ∈ h, s.event = ⟨.inr (.inl (.inr (.inl (onceScript 60)))), .ok (true, 0)⟩ := by
    have hmem : ((true, false), ⟨.inr (.inl (.inr (.inl (onceScript 60)))), .ok (true, 0)⟩) ∈ onceTurns := by
      refine List.mem_flatMap.mpr ⟨(true, false), by decide, List.mem_map.mpr ⟨_, ?_, rfl⟩⟩
      exact List.mem_cons_of_mem _ (List.mem_cons_of_mem _ (List.mem_cons_of_mem _ List.mem_cons_self))
    rw [← hturns] at hmem
    obtain ⟨s, hs, heq⟩ := List.mem_map.mp hmem
    exact ⟨s, hs, congrArg Prod.snd heq⟩
  have hrow : onceRow ∈ (tableAfter issuedHash trialColumns onceOps).rows := List.mem_of_find?_eq_some find_once
  have hpos : 0 < 60 := by decide
  have hminutes : (0 : ℚ) ≤ 60 := by norm_num
  have hbound := requests_throttled (R := {(false, false), (false, true), (true, false), (true, true)}) (s := 0) (T := 60) hr hpos
    (SharedRedis.typed_empty 0) rfl hrow hminutes fun i _ => hwindow i
  refine ⟨h, hwindow, hscript, hbound, ?_⟩
  have hlimit : effectiveRpm 60 onceRow = 1 := rfl
  rw [hlimit]
  norm_num

end Four
end Relayix
