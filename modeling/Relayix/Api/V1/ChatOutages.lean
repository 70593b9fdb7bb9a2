import Relayix.Api.V1.ChatUsage
import Relayix.Core.Adapters.Deployed
import Relayix.Core.Resilience.CallersRecovery

/-! Outages of providers, in a process that serves chat requests.

The requests of a process share the breakers of its registry. Of their history a breaker sees the
calls of its own provider, each of them a client of its own, however many a request makes (`dialled`).
The ledger of the breaker holds of what it sees, whatever the requests do meanwhile with the other
provider, with the store, the limiter and the database. -/
namespace Relayix
open Library

variable {ι : Type}

/-- The breakers answer for their providers. Everyone else may answer anything, and time passes. -/
def deployedWorld : World (appI deployedI) Exn Breakers where
  answers
    | w, .inr (.inr (.inr (.inl (.inl (provider, .inl c))))), a, w' =>
        a = .ok (w.exec provider c).1 ∧ w' = (w.exec provider c).2
    | w, _, _, w' => w' = w
  elapses w w' := w.now ≤ w'.now ∧ w'.of = w.of

abbrev Deployment (ι : Type) := List (Step (appI deployedI) Exn ι Breakers)

/-! ### What a provider is asked -/

section Dealings
variable (provider : ProviderEnum)

/-- An answer of its breaker, or of its inner adapter. -/
def dealing (c : adapterI.Cmd) (a : Except Exn (adapterI.Ans c)) : Event (appI deployedI) Exn :=
  ⟨.inr (.inr (.inr (.inl (.inl (provider, c))))), a⟩

/-- What a provider is asked. -/
def dealt : Event (appI deployedI) Exn → Option (Event adapterI Exn)
  | ⟨.inr (.inr (.inr (.inl (.inl (p, c))))), a⟩ => if p = provider then some ⟨c, a⟩ else none
  | _ => none

def dealings (t : Trace (appI deployedI) Exn) : Trace adapterI Exn := t.filterMap (dealt provider)

/-- The breaker is asked to let a call through. -/
def dials (e : Event adapterI Exn) : Bool :=
  match e.cmd with
  | .inl .allow => true
  | _ => false

/-- Whether the event begins a call of the provider. -/
def calling (e : Event (appI deployedI) Exn) : Bool := (dealt provider e).elim false dials

/-- How often a request has called the provider. -/
def callsOf [DecidableEq ι] (i : ι) (h : Deployment ι) : Nat := (log i h).countP (calling provider)

/-- The event, as the breaker of the provider sees it. -/
def seen (e : Event (appI deployedI) Exn) : Event (breakerI.sum (appI deployedI)) Exn :=
  match dealt provider e with
  | some ⟨.inl c, a⟩ => ⟨.inl c, a⟩
  | _ => e.inr

variable {provider} {c : adapterI.Cmd} {a : Except Exn (adapterI.Ans c)}

theorem dealt_dealing : dealt provider (dealing provider c a) = some ⟨c, a⟩ := if_pos rfl

theorem dealt_dealing_of_ne {p : ProviderEnum} (hp : p ≠ provider) : dealt provider (dealing p c a) = none := if_neg hp

theorem calling_dealing : calling provider (dealing provider c a) = dials ⟨c, a⟩ := by
  rw [calling, dealt_dealing]
  rfl

theorem seen_dealing {c : BreakerCmd} {a : Except Exn (breakerI.Ans c)} : seen provider (dealing provider (.inl c) a) = ⟨.inl c, a⟩ := by
  rw [seen, dealt_dealing]

/-- What is not for the breaker, it does not see. -/
theorem seen_beside {e : Event (appI deployedI) Exn} (h : ∀ c a, dealt provider e ≠ some ⟨.inl c, a⟩) : seen provider e = e.inr := by
  unfold seen
  split
  · rename_i hdealt
    exact absurd hdealt (h _ _)
  · rfl

theorem dealt_eq_some {e : Event (appI deployedI) Exn} {x : Event adapterI Exn} (he : dealt provider e = some x) :
    e = dealing provider x.cmd x.answer := by
  obtain ⟨c | c | c | ((⟨p, c⟩ | c) | c), a⟩ := e
  · cases he
  · cases he
  · cases he
  · by_cases hp : p = provider
    · subst hp
      obtain rfl := Option.some.inj (dealt_dealing.symm.trans he)
      rfl
    · cases (dealt_dealing_of_ne hp).symm.trans he
  · cases he
  · cases he

variable (provider) [DecidableEq ι]

/-- A step, taken by the call that its request is at. -/
def dial (pre : Deployment ι) (s : Step (appI deployedI) Exn ι Breakers) : Step (breakerI.sum (appI deployedI)) Exn (ι × Nat) Clocked :=
  ⟨s.before.clocked provider, (s.thread, callsOf provider s.thread (pre ++ [s])), seen provider s.event⟩

def dialledFrom (pre : Deployment ι) : Deployment ι → History (appI deployedI) Exn (ι × Nat)
  | [] => []
  | s :: rest => dial provider pre s :: dialledFrom (pre ++ [s]) rest

/-- The history of the provider's breaker, call by call. -/
def dialled (h : Deployment ι) : History (appI deployedI) Exn (ι × Nat) := dialledFrom provider [] h

theorem dialledFrom_snoc (pre h : Deployment ι) (s : Step (appI deployedI) Exn ι Breakers) :
    dialledFrom provider pre (h ++ [s]) = dialledFrom provider pre h ++ [dial provider (pre ++ h) s] := by
  induction h generalizing pre with
  | nil => rw [List.append_nil]; rfl
  | cons x h ih =>
    have hrest := ih (pre ++ [x])
    rw [List.append_assoc] at hrest
    exact congrArg _ hrest

theorem dialled_snoc (h : Deployment ι) (s : Step (appI deployedI) Exn ι Breakers) :
    dialled provider (h ++ [s]) = dialled provider h ++ [dial provider h s] := dialledFrom_snoc provider [] h s

theorem callsOf_snoc_self (h : Deployment ι) (s : Step (appI deployedI) Exn ι Breakers) :
    callsOf provider s.thread (h ++ [s]) = callsOf provider s.thread h + if calling provider s.event then 1 else 0 := by
  rw [callsOf, log_snoc_self, List.countP_append, List.countP_singleton]
  rfl

theorem callsOf_snoc_of_ne {i : ι} (h : Deployment ι) {s : Step (appI deployedI) Exn ι Breakers} (hi : s.thread ≠ i) :
    callsOf provider i (h ++ [s]) = callsOf provider i h := by
  rw [callsOf, log_snoc_of_ne h hi]
  rfl

end Dealings

/-! ### One step -/

section Step
variable {provider : ProviderEnum} {w w' : Breakers} {q : Client} {c : (appI deployedI).Cmd} {a : Except Exn ((appI deployedI).Ans c)}

/-- Where the call stands that takes the step. -/
def standsAt (provider : ProviderEnum) (q : Client) (e : Event (appI deployedI) Exn) : Client :=
  if calling provider e then .fresh else q

/-- The step, as the breaker sees it: of a client that asks what it may, and answered as it answers. -/
structure Sees (provider : ProviderEnum) (w w' : Breakers) (q r : Client) (e : Event (appI deployedI) Exn) : Prop where
  allowed : (client : Monitor _ Exn _).allowed (standsAt provider q e) (seen provider e).cmd
  next : client.next (standsAt provider q e) (seen provider e).cmd (seen provider e).answer = r
  answers : (guarded (appI deployedI) Exn).answers (w.clocked provider) (seen provider e).cmd (seen provider e).answer (w'.clocked provider)

/-- A step that the breaker is not asked. -/
theorem Sees.beside {e : Event (appI deployedI) Exn} (hseen : seen provider e = e.inr) (hcalling : calling provider e = false)
    (hw : w'.clocked provider = w.clocked provider) : Sees provider w w' q q e := by
  have hstands : standsAt provider q e = q := by rw [standsAt, hcalling]; rfl
  constructor
  · rw [hstands, hseen]
    cases q <;> trivial
  · rw [hstands, hseen]
    cases q <;> rfl
  · rw [hseen]
    exact hw

/-- A step of its own. -/
theorem sees_own {c : adapterI.Cmd} {a : Except Exn (adapterI.Ans c)} (hq : redialing.allowed q c)
    (ha : deployedWorld.answers w (dealing provider c a).cmd a w') :
    Sees provider w w' q (redialing.next q c a) (dealing provider c a) := by
  have hstands : standsAt provider q (dealing provider c a) = if dials ⟨c, a⟩ then .fresh else q := by
    rw [standsAt, calling_dealing]
  rcases c with (_ | ⟨o, generation⟩) | c
  · obtain ⟨rfl, rfl⟩ := ha
    constructor
    · rw [hstands, seen_dealing]
      trivial
    · rw [hstands, seen_dealing, redialing_allow]
      obtain ⟨⟨_ | _, generation⟩, w'⟩ := w.exec provider .allow <;> rfl
    · rw [seen_dealing]
      exact ⟨rfl, Breakers.clocked_exec_self⟩
  · obtain ⟨rfl, rfl⟩ := ha
    constructor
    · rw [hstands, seen_dealing]
      cases q <;> exact hq
    · rw [hstands, seen_dealing]
      cases q <;> rfl
    · rw [seen_dealing]
      exact ⟨rfl, Breakers.clocked_exec_self⟩
  · have hsame : redialing.next q (.inr c) a = q := by cases q <;> rfl
    have hw : w' = w := ha
    rw [hsame]
    apply Sees.beside
    · exact seen_beside fun c' a' h => by cases dealt_dealing.symm.trans h
    · exact calling_dealing
    · rw [hw]

theorem sees_step (hq : (onAdapters (redialing.single provider)).allowed q c) (ha : deployedWorld.answers w c a w') :
    Sees provider w w' q ((onAdapters (redialing.single provider)).next q c a) ⟨c, a⟩ := by
  have same : w' = w → w'.clocked provider = w.clocked provider := fun h => by rw [h]
  rcases c with c | c | c | ((⟨p, c⟩ | c) | c)
  · exact Sees.beside rfl rfl (same ha)
  · exact Sees.beside rfl rfl (same ha)
  · exact Sees.beside rfl rfl (same ha)
  · show Sees provider w w' q ((onAdapters (redialing.single provider)).next q (dealing p c a).cmd a) (dealing p c a)
    by_cases hp : p = provider
    · subst hp
      have hnext : (onAdapters (redialing.single p)).next q (dealing p c a).cmd a = redialing.next q c a := Monitor.single_next_self
      rw [hnext]
      exact sees_own (hq rfl) ha
    · -- to another provider
      have hnext : (onAdapters (redialing.single provider)).next q (dealing p c a).cmd a = q := Monitor.single_next_other hp
      have hdealt : dealt provider (dealing p c a) = none := dealt_dealing_of_ne hp
      rw [hnext]
      apply Sees.beside
      · exact seen_beside fun c' a' h => by cases hdealt.symm.trans h
      · rw [calling, hdealt]
        rfl
      · cases c with
        | inl c =>
          obtain ⟨_, rfl⟩ := ha
          exact Breakers.clocked_exec_other (Ne.symm hp)
        | inr c => exact same ha
  · exact Sees.beside rfl rfl (same ha)
  · exact Sees.beside rfl rfl (same ha)

end Step

/-! ### What the breaker has seen -/

section Apart
variable [DecidableEq ι] {provider : ProviderEnum} {r : ℚ} {h : Deployment ι} {w w' : Breakers} {g : ι → Client}

/-- What the breaker of a provider has seen of a run, where every request stands as `g` says. -/
structure Apart (provider : ProviderEnum) (r : ℚ) (h : Deployment ι) (w : Breakers) (g : ι → Client) : Prop where
  ledger : Ledger r (dialled provider h) (w.clocked provider) (callers (dialled provider h))
  current : ∀ i, callers (dialled provider h) (i, callsOf provider i h) = g i
  later : ∀ i n, callsOf provider i h < n → callers (dialled provider h) (i, n) = .fresh
  steps : Audited r (dialled provider h)

theorem apart_new {config : Settings} {now : ℚ} :
    Apart provider config.circuitBreakerResetTimeoutS ([] : Deployment ι) (Breakers.new config now) fun _ => .fresh where
  ledger := ledger_new _ _ _
  current _ := rfl
  later _ _ _ := rfl
  steps pre s post he := by simp [dialled, dialledFrom] at he

theorem Apart.elapse (ha : Apart provider r h w g) (he : deployedWorld.elapses w w') : Apart provider r h w' g where
  ledger := ha.ledger.elapse ⟨he.1, congrFun he.2 provider⟩
  current := ha.current
  later := ha.later
  steps := ha.steps

variable {i : ι} {c : (appI deployedI).Cmd} {a : Except Exn ((appI deployedI).Ans c)}

/-- The call that takes a step stands where its request does, or has not begun. -/
theorem Apart.stands (ha : Apart provider r h w g) : callers (dialled provider h) (dial provider h ⟨w, i, ⟨c, a⟩⟩).thread =
    standsAt provider (g i) ⟨c, a⟩ := by
  have hthread : (dial provider h ⟨w, i, ⟨c, a⟩⟩).thread =
      (i, callsOf provider i h + if calling provider ⟨c, a⟩ then 1 else 0) :=
    congrArg (Prod.mk i) (callsOf_snoc_self provider h ⟨w, i, ⟨c, a⟩⟩)
  rw [hthread, standsAt]
  split
  · exact ha.later i _ (Nat.lt_succ_self _)
  · exact ha.current i

/-- A step of a request is a step of one call, if of any. -/
theorem Apart.step (ha : Apart provider r h w g) (hq : (onAdapters (redialing.single provider)).allowed (g i) c)
    (hw : deployedWorld.answers w c a w') : Apart provider r (h ++ [⟨w, i, ⟨c, a⟩⟩]) w'
      (Function.update g i ((onAdapters (redialing.single provider)).next (g i) c a)) := by
  have hsees := sees_step hq hw
  have hstands := ha.stands (i := i) (c := c) (a := a)
  have hcalls : callsOf provider i (h ++ [⟨w, i, ⟨c, a⟩⟩]) = callsOf provider i h + if calling provider ⟨c, a⟩ then 1 else 0 :=
    callsOf_snoc_self provider h ⟨w, i, ⟨c, a⟩⟩
  have hothers : ∀ {j}, j ≠ i → callsOf provider j (h ++ [⟨w, i, ⟨c, a⟩⟩]) = callsOf provider j h := fun hj =>
    callsOf_snoc_of_ne provider h (s := ⟨w, i, ⟨c, a⟩⟩) (Ne.symm hj)
  have hcallers : callers (dialled provider (h ++ [⟨w, i, ⟨c, a⟩⟩])) = Function.update (callers (dialled provider h))
      (i, callsOf provider i (h ++ [⟨w, i, ⟨c, a⟩⟩])) ((onAdapters (redialing.single provider)).next (g i) c a) := by
    rw [dialled_snoc, callers, watched_snoc, ← hsees.next, ← hstands]
    rfl
  -- the monitor of the request answers for the call that it is at
  have hallowed := hsees.allowed
  rw [← hstands] at hallowed
  constructor
  case ledger =>
    have hstep := ha.ledger.step hallowed hsees.answers
    rw [hcallers, dialled_snoc, ← hsees.next, ← hstands]
    exact hstep
  case current =>
    intro j
    rw [hcallers]
    by_cases hj : j = i
    · rw [hj, Function.update_self, Function.update_self]
    · rw [Function.update_of_ne hj, Function.update_of_ne fun he => hj (congrArg Prod.fst he), hothers hj]
      exact ha.current j
  case later =>
    intro j n hn
    rw [hcallers]
    by_cases hj : j = i
    · -- its calls are counted up, so one that is still to begin was so before
      subst hj
      rw [Function.update_of_ne fun he => Nat.ne_of_gt hn (congrArg Prod.snd he)]
      rw [hcalls] at hn
      exact ha.later j n (by omega)
    · rw [Function.update_of_ne fun he => hj (congrArg Prod.fst he)]
      exact ha.later j n (hothers hj ▸ hn)
  case steps =>
    intro pre s post he
    rw [dialled_snoc] at he
    rcases snoc_eq_split he with ⟨_, rfl, rfl⟩ | ⟨front, _, hh⟩
    · exact ⟨ha.ledger, hallowed, _, hsees.answers⟩
    · exact ha.steps pre s front hh

end Apart

/-! ### Runs -/

section Runs
variable [DecidableEq ι] {sha256 : ByteArray → String} {rpm : Nat} {config : Settings} {now : ℚ} {calls : ι → ChatCall deployedI}
  {provider : ProviderEnum} {h pre post : Deployment ι} {s : Step (appI deployedI) Exn ι Breakers}
  {p : Pool (appI deployedI) Exn ι Breakers}

omit [DecidableEq ι] in
/-- A request keeps to what the adapter of the provider keeps to, when it has one. -/
theorem serves_keeping {σ : Type} {M : Monitor adapterI Exn σ}
    (hcalls : ∀ i, (calls i).service.registry = fun p => ((buildRegistry config).get p).toOption)
    (hcomplete : Settings.isSet (config.apiKey provider) → ∀ request s,
      ((withResilience provider config).complete request).Obeys M (fun _ _ => True) s)
    (hstream : Settings.isSet (config.apiKey provider) → ∀ request s,
      ((withResilience provider config).stream request).Obeys (M.handing ChatStreamEvent) (fun _ _ => True) s) (s : σ) (i : ι) :
    ((calls i).serve sha256 rpm).Obeys (onAdapters (M.single provider)) (fun _ _ => True) s :=
  serve_keeps (keeps_of_registered (hcalls i) hcomplete hstream) s

theorem deployed_meets {σ : Type} {M : Monitor adapterI Exn σ} (hbreaker : ∀ c r, M.expects (.inl c) (.ok r))
    (hprovider : ∀ c a, M.expects (.inr c) a) : deployedWorld.Meets (onAdapters (M.single provider)) := by
  rintro w (c | c | c | ((⟨p, c | c⟩ | c) | c)) a w' ha
  · trivial
  · trivial
  · trivial
  · obtain ⟨rfl, _⟩ := ha
    exact fun _ => hbreaker c _
  · exact fun _ => hprovider c a
  · trivial
  · trivial

/-- What a provider is asked was allowed. -/
theorem dealt_allowed {σ : Type} {M : Monitor adapterI Exn σ} {q : ι → σ} {start : Pool (appI deployedI) Exn ι Breakers}
    (hV : deployedWorld.Meets (onAdapters (M.single provider)))
    (ho : ∀ i, (start.threads i).Obeys (onAdapters (M.single provider)) (fun _ _ => True) (q i))
    (hr : Run deployedWorld start h p) (he : h = pre ++ s :: post) {x : Event adapterI Exn} (hx : dealt provider s.event = some x) :
    M.allowed (watched (onAdapters (M.single provider)) q pre s.thread) x.cmd := by
  obtain ⟨p', hr', _, ⟨k, hk⟩, _⟩ := hr.at he
  have hob := hr'.obeys hV ho s.thread
  rw [hk] at hob
  have hallowed := hob.1
  rw [dealt_eq_some hx] at hallowed
  exact hallowed rfl

/-- **The breaker of a provider, in every run of requests.** -/
theorem apart_run (hcalls : ∀ i, (calls i).service.registry = fun p => ((buildRegistry config).get p).toOption)
    (hr : Run deployedWorld ⟨Breakers.new config now, fun i => (calls i).serve sha256 rpm⟩ h p) :
    Apart provider config.circuitBreakerResetTimeoutS h p.world
      (watched (onAdapters (redialing.single provider)) (fun _ => .fresh) h) := by
  have hV : deployedWorld.Meets (onAdapters (redialing.single provider)) := deployed_meets (fun _ r => ⟨r, rfl⟩) fun _ _ => trivial
  have ho : ∀ i, ((calls i).serve sha256 rpm).Obeys (onAdapters (redialing.single provider)) (fun _ _ => True) .fresh :=
    serves_keeping hcalls (fun _ request => ResilientAdapter.complete_redialing _ request)
      (fun _ request => ResilientAdapter.stream_redialing _ request) .fresh
  refine Run.always hV ho apart_new ?_ ?_ hr
  · intro h w g i c a w' ha hq hw
    exact ha.step hq hw
  · intro h w g w' ha he
    exact ha.elapse he

theorem hearing_run (t : Trace (appI deployedI) Exn) :
    (onAdapters (hearing.single provider)).run none t = (dealings provider t).getLast? := by
  have hnext : ∀ last c a, (onAdapters (hearing.single provider)).next last c a = (dealt provider ⟨c, a⟩).or last := by
    rintro last (c | c | c | ((⟨p, c⟩ | c) | c)) a
    · rfl
    · rfl
    · rfl
    · by_cases hp : p = provider
      · simp [onAdapters, Monitor.single, hearing, dealt, hp]
      · simp [onAdapters, Monitor.single, dealt, hp]
    · rfl
    · rfl
  induction t using List.reverseRecOn with
  | nil => rfl
  | append_singleton t e ih =>
    rw [Monitor.run_snoc, hnext, ih, dealings, dealings, List.filterMap_append, List.getLast?_append]
    cases hd : dealt provider e <;> simp [hd]

/-- What the breaker of a provider is to the requests of a process, and to nobody else. -/
structure Isolated (config : Settings) (provider : ProviderEnum) (h : Deployment ι) (b : CircuitBreaker) : Prop where
  /-- It owes to every call of its provider what it owes to its callers. -/
  safe : Safe config.circuitBreakerResetTimeoutS (dialled provider h) b
  /-- A call is refused during an outage of its own provider, before the timeout or beside a trial. -/
  refused : ∀ pre s post generation, h = pre ++ s :: post →
    dealt provider s.event = some ⟨.inl .allow, .ok (false, generation)⟩ →
    ∃ trip ∈ dialled provider pre, trips trip = true ∧
      (s.before.now < trip.before.now + config.circuitBreakerResetTimeoutS ∨
        ∃ call, Outstanding (dialled provider pre) call (s.before.of provider).generation)
  /-- The inner adapter is asked right after the request that asks it was admitted. -/
  admitted : ∀ pre s post c a, h = pre ++ s :: post → dealt provider s.event = some ⟨.inr c, a⟩ → c ≠ .aclose →
    ∃ generation, (dealings provider (log s.thread pre)).getLast? = some ⟨.inl .allow, .ok (true, generation)⟩
  /-- A provider without a key is asked nothing. -/
  unregistered : Settings.isSet (config.apiKey provider) = false → ∀ s ∈ h, dealt provider s.event = none

theorem isolated_refused (hcalls : ∀ i, (calls i).service.registry = fun p => ((buildRegistry config).get p).toOption)
    (hr : Run deployedWorld ⟨Breakers.new config now, fun i => (calls i).serve sha256 rpm⟩ h p) {generation : Nat}
    (he : h = pre ++ s :: post) (hx : dealt provider s.event = some ⟨.inl .allow, .ok (false, generation)⟩) :
    ∃ trip ∈ dialled provider pre, trips trip = true ∧
      (s.before.now < trip.before.now + config.circuitBreakerResetTimeoutS ∨
        ∃ call, Outstanding (dialled provider pre) call (s.before.of provider).generation) := by
  obtain ⟨p', hr', hw, _, w', ha⟩ := hr.at he
  have hapart : Apart provider _ pre p'.world _ := apart_run hcalls hr'
  have hl := hapart.ledger
  rw [hw] at hl
  rw [dealt_eq_some hx] at ha
  have hallow : Except.ok (false, generation) = Except.ok ((s.before.of provider).allow s.before.now).1 := ha.1
  have hfalse : ((s.before.of provider).allow s.before.now).1.1 = false := by rw [← Except.ok.inj hallow]
  obtain ⟨trip, hmem, htrip, hearly | htrial⟩ := hl.refuses hfalse
  · exact ⟨trip, hmem, htrip, .inl hearly⟩
  · exact ⟨trip, hmem, htrip, .inr (hl.consistent.trial.mp htrial).2⟩

theorem isolated_admitted (hcalls : ∀ i, (calls i).service.registry = fun p => ((buildRegistry config).get p).toOption)
    (hr : Run deployedWorld ⟨Breakers.new config now, fun i => (calls i).serve sha256 rpm⟩ h p) {c : ProviderCmd}
    {a : Except Exn (providerI.Ans c)} (he : h = pre ++ s :: post) (hx : dealt provider s.event = some ⟨.inr c, a⟩)
    (hc : c ≠ .aclose) :
    ∃ generation, (dealings provider (log s.thread pre)).getLast? = some ⟨.inl .allow, .ok (true, generation)⟩ := by
  have hV : deployedWorld.Meets (onAdapters (hearing.single provider)) := deployed_meets (fun _ _ => trivial) fun _ _ => trivial
  have ho : ∀ i, ((calls i).serve sha256 rpm).Obeys (onAdapters (hearing.single provider)) (fun _ _ => True) none :=
    serves_keeping hcalls (fun _ request => ResilientAdapter.complete_hearing _ request)
      (fun _ request => ResilientAdapter.stream_hearing _ request) none
  have hallowed := dealt_allowed hV ho hr he hx
  have hlast : watched (onAdapters (hearing.single provider)) (fun _ => none) pre s.thread =
      (dealings provider (log s.thread pre)).getLast? := hearing_run _
  rw [hlast] at hallowed
  cases c with
  | complete request => exact hallowed
  | stream request => exact hallowed
  | aclose => exact absurd rfl hc

theorem isolated_unregistered (hcalls : ∀ i, (calls i).service.registry = fun p => ((buildRegistry config).get p).toOption)
    (hr : Run deployedWorld ⟨Breakers.new config now, fun i => (calls i).serve sha256 rpm⟩ h p)
    (hkey : Settings.isSet (config.apiKey provider) = false) (hs : s ∈ h) : dealt provider s.event = none := by
  have hV : deployedWorld.Meets (onAdapters ((Monitor.only fun _ : adapterI.Cmd => False).single provider)) :=
    deployed_meets (fun _ _ => trivial) fun _ _ => trivial
  have hnone : ¬ Settings.isSet (config.apiKey provider) = true := by
    rw [hkey]
    decide
  have ho : ∀ i, ((calls i).serve sha256 rpm).Obeys (onAdapters ((Monitor.only fun _ => False).single provider))
      (fun _ _ => True) () := serves_keeping hcalls (fun hset => absurd hset hnone) (fun hset => absurd hset hnone) ()
  obtain ⟨pre, post, he⟩ := List.append_of_mem hs
  cases hx : dealt provider s.event with
  | none => rfl
  | some x => exact (dealt_allowed hV ho hr he hx).elim

/-- **An outage of one provider stays its own**: however the requests of a process interleave, each of
them failing over between the providers, the breaker of a provider sees its own calls only and is
`Safe` for them, it refuses only in an outage of its own, and it lets through whatever its inner
adapter is asked. -/
theorem outages_isolated (hcalls : ∀ i, (calls i).service.registry = fun p => ((buildRegistry config).get p).toOption)
    (hr : Run deployedWorld ⟨Breakers.new config now, fun i => (calls i).serve sha256 rpm⟩ h p) (provider : ProviderEnum) :
    Isolated config provider h (p.world.of provider) where
  safe := by
    have hapart : Apart provider _ h p.world _ := apart_run hcalls hr
    exact safe_of_audited hapart.ledger hapart.steps
  refused _ _ _ _ he hx := isolated_refused hcalls hr he hx
  admitted _ _ _ _ _ he hx hc := isolated_admitted hcalls hr he hx hc
  unregistered hkey _ hs := isolated_unregistered hcalls hr hkey hs

end Runs

/-! ### On one request -/

section Trial

def trialSettings : Settings := ⟨some "sk-1", some "sk-2", "30", 1, 30⟩

/-- A request whose tier has two candidates of one provider, and one of the other. -/
def trialFailover : ChatCall deployedI where
  authorization := trialCall.authorization
  payload := trialCall.payload
  idempotencyKey := none
  service := ⟨fun p => ((buildRegistry trialSettings).get p).toOption,
    fun _ => .ok [⟨.openai, "gpt-4o"⟩, ⟨.openai, "gpt-4o-mini"⟩, ⟨.anthropic, "claude-haiku"⟩]⟩
  idempotency := trialCall.idempotency

/-- The request of its model. -/
def trialUpstream (model : String) : ChatRequest := GatewayService.upstream trialFailover.payload.toDomain ⟨.openai, model⟩

/-- Its first call fails and trips the breaker, its second is refused, and the other provider answers. -/
def trialOutage : Trace (appI deployedI) Exn :=
  [⟨.inl (.select (hashApiKey ApiKeyService.issuedHash (generateApiKey ApiKeyService.secondToken))), .ok (some trialRow)⟩,
    ⟨.inr (.inl (.inl .allow)), .ok (true, 0)⟩,
    ⟨.inr (.inl (.inr (.inl .time))), .ok 0⟩,
    ⟨.inr (.inl (.inr (.inl (.script (RedisRateLimiter.bucketName ⟨2⟩) (60 : Nat) ((60 : Nat) / 60) 0 120)))), .error rateLimiterUnavailable⟩,
    ⟨.inr (.inl (.inl (.report .failure 0))), .ok ()⟩,
    ⟨.inr (.inl (.inr (.inr (.check ⟨2⟩ 60)))), .ok ()⟩,
    dealing .openai (.inl .allow) (.ok (true, 0)),
    dealing .openai (.inr (.complete (trialUpstream "gpt-4o"))) (.error (.upstreamUnavailable "unreachable")),
    dealing .openai (.inl (.report .failure 0)) (.ok ()),
    dealing .openai (.inl .allow) (.ok (false, 1)),
    dealing .anthropic (.inl .allow) (.ok (true, 0)),
    dealing .anthropic (.inr (.complete (trialUpstream "claude-haiku"))) (.ok trialUsage),
    dealing .anthropic (.inl (.report .success 0)) (.ok ()),
    ⟨.inr (.inr (.inr (.inl (.inr (.record ⟨2⟩ trialUsage))))), .ok ()⟩]

theorem failover_trial : Ends (trialFailover.serve ApiKeyService.issuedHash 60) trialOutage (.ok ()) :=
  .step _ (.step _ (.step _ (.step _ (.step _ (.step _ (.step _ (.step _ (.step _ (.step _ (.step _ (.step _ (.step _
    (.step _ (.refl _))))))))))))))

/-- The breaker answers, and the run goes on with it. -/
theorem gives_dealing {provider : ProviderEnum} {w w' : Breakers} {c : BreakerCmd} {r : breakerI.Ans c} {t : Trace (appI deployedI) Exn}
    (hr : (w.exec provider c).1 = r) (h : deployedWorld.Gives (w.exec provider c).2 t w') :
    deployedWorld.Gives w (dealing provider (.inl c) (.ok r) :: t) w' := by
  have answered : deployedWorld.answers w (.inr (.inr (.inr (.inl (.inl (provider, .inl c)))))) (.ok r) (w.exec provider c).2 := by
    rw [← hr]
    exact ⟨rfl, rfl⟩
  exact .command answered h

/-- The request returns, with one circuit open and the other closed. -/
theorem outages_isolated_trial : ∃ (h : Deployment Unit) (w : Breakers), (w.of .openai).state = .opened ∧
    (w.of .anthropic).state = .closed ∧ ∀ provider, Isolated trialSettings provider h (w.of provider) := by
  let tripped := ((Breakers.new trialSettings 0).exec .openai .allow).2.exec .openai (.report .failure 0)
  let served := ((tripped.2.exec .openai .allow).2.exec .anthropic .allow).2.exec .anthropic (.report .success 0)
  have hrun : ∃ (h : Deployment Unit) (p : Pool (appI deployedI) Exn Unit Breakers),
      Run deployedWorld ⟨Breakers.new trialSettings 0, fun _ => trialFailover.serve ApiKeyService.issuedHash 60⟩ h p ∧
        p.world = served.2 ∧ p.threads () = .ret () := by
    refine Run.follows (i := ()) .start failover_trial ?_
    -- the lookup and the check of the limit, the calls, and the record
    refine .command rfl (.command rfl (.command rfl (.command rfl (.command rfl (.command rfl ?_)))))
    refine gives_dealing (by decide +kernel) (.command rfl (gives_dealing rfl (gives_dealing (by decide +kernel) ?_)))
    exact gives_dealing (by decide +kernel) (.command rfl (gives_dealing rfl (.command rfl (.done _))))
  obtain ⟨h, p, hr, hw, _⟩ := hrun
  refine ⟨h, p.world, ?_, ?_, outages_isolated ?_ hr⟩
  · rw [hw]
    decide +kernel
  · rw [hw]
    decide +kernel
  · exact fun _ => rfl

end Trial
end Relayix
