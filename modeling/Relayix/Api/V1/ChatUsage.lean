import Relayix.Api.V1.Requests
import Relayix.Infra.Database.Inserts
import Relayix.Repositories.UsageCosts

/-! The usage that concurrent chat requests leave behind.

A request has one database session, which its lookup reads and its recorder writes, and which
`get_session` ends when the response has been sent. Here the requests run with their recorders,
streamed or buffered and with or without an idempotency key, and their surroundings may answer
anything. The rows that a request inserts are of the key that its own lookup answered, and what is
committed of it is all of them or nothing. -/
namespace Relayix
open Library
open UsageRecorder (clockI ofSession usageTable)

/-- What a request asks, its recordings apart. -/
@[reducible] def outerI (A : Interface) : Interface :=
  lookupI.sum (limitersI.sum (redisI.sum (A.sum (handoff Frame))))

/-- The same with the clock and the session of its recorder. -/
@[reducible] def postedI (A : Interface) : Interface := ((outerI A).sum clockI).sum (sessionI UsageRow)

section Recording
variable {A : Interface}

def passing (c : (outerI A).Cmd) : Prog (postedI A) Exn ((outerI A).Ans c) := (@Prog.perform (outerI A) Exn c).inl.inl

/-- The recorder's command is `record`, whose record the gateway drops; the others stay as they are. -/
def posting (pricing : PricingTable) : (c : (appI A).Cmd) → Prog (postedI A) Exn ((appI A).Ans c)
  | .inl c => passing (.inl c)
  | .inr (.inl c) => passing (.inr (.inl c))
  | .inr (.inr (.inl c)) => passing (.inr (.inr (.inl c)))
  | .inr (.inr (.inr (.inl (.inl c)))) => passing (.inr (.inr (.inr (.inl c))))
  | .inr (.inr (.inr (.inl (.inr (.record apiKeyId response))))) =>
      ((ofSession pricing).record apiKeyId response).bind fun _ => .ret ()
  | .inr (.inr (.inr (.inr c))) => passing (.inr (.inr (.inr (.inr c))))

/-- A chat request, down to its session. -/
def ChatCall.posted (call : ChatCall A) (sha256 : ByteArray → String) (defaultRateLimitRpm : Nat) (pricing : PricingTable) :
    Prog (postedI A) Exn Unit :=
  (call.serve sha256 defaultRateLimitRpm).via (posting pricing)

end Recording

/-! ### Whose rows they are -/

section Owner
variable {A : Interface} {sha256 : ByteArray → String} {defaultRateLimitRpm : Nat} {call : ChatCall A} {pricing : PricingTable}

/-- A request looks its caller up once, and acts for this key. -/
def acting (idempotencyKey : Option String) : Monitor (appI A) Exn (Option UUID) where
  next
    | _, .inl (.select _), .ok (some row) => some row.id
    | s, _, _ => s
  allowed
    | s, .inl _ => s = none
    | _, .inr (.inl _) => True
    | s, .inr (.inr c) => ∃ apiKeyId, s = some apiKeyId ∧ Acts apiKeyId idempotencyKey c
  expects _ _ := True

theorem currentApiKey_acting {authorization : Option String} {idempotencyKey : Option String} :
    (currentApiKey sha256 authorization).Obeys (acting (A := A) idempotencyKey).onLeft
      (fun o s => ∀ row, o = .ok row → s = some row.id) none := by
  unfold currentApiKey
  cases bearerToken authorization with
  | error e => exact fun row h => by cases h
  | ok token =>
    refine ⟨rfl, fun a _ => ?_⟩
    match a with
    | .error e => exact fun row h => by cases h
    | .ok none => exact fun row h => by cases h
    | .ok (some row) => exact fun row' h => by cases h; rfl

theorem serve_acting : (call.serve sha256 defaultRateLimitRpm).Obeys (acting call.idempotencyKey) (fun _ _ => True) none := by
  refine Prog.Obeys.bind (Prog.Obeys.inl currentApiKey_acting) (fun row s hs => ?_) fun _ _ _ => trivial
  obtain rfl := hs row rfl
  have checked : ((enforceRateLimit defaultRateLimitRpm row).inl.inr : Prog (appI A) Exn Unit).Obeys (acting call.idempotencyKey)
      (fun _ s => s = some row.id) (some row.id) := by
    refine (check_asks (A := A) _).steady fun c hc => ?_
    match c with
    | .inr (.inl _) => exact ⟨trivial, fun _ => rfl⟩
    | .inl _ | .inr (.inr _) => cases hc
  refine checked.bind (fun _ s hs => ?_) fun _ _ _ => trivial
  obtain rfl : s = some row.id := hs
  have answered : (call.answer row.id).Obeys (acting (A := A) call.idempotencyKey).onRight.onRight
      (fun _ s => s = some row.id) (some row.id) :=
    answer_asks.steady fun c hc => ⟨⟨row.id, rfl, hc⟩, fun _ => rfl⟩
  exact (Prog.Obeys.inr (Prog.Obeys.inr answered)).mono fun _ _ _ => trivial

/-- What a recorder asks: the clock, and to insert rows of its key. -/
def OwnRow {I : Interface} (apiKeyId : UUID) : ((I.sum clockI).sum (sessionI UsageRow)).Cmd → Prop
  | .inl (.inl _) => False
  | .inl (.inr _) => True
  | .inr (.flush row) => row.apiKeyId = apiKeyId
  | .inr _ => False

theorem record_own {I : Interface} {apiKeyId : UUID} {r : ChatResponse} :
    ((ofSession (I := I) pricing).record apiKeyId r).Asks (OwnRow apiKeyId) := by
  have now : (ofSession (I := I) pricing).now.Asks (OwnRow apiKeyId) := Prog.Asks.inl (Prog.Asks.inr (Prog.Asks.perform trivial))
  refine now.bind fun asOf => ?_
  cases hcost : (ofSession (I := I) pricing).pricing.costFor r.provider r.model r.tokensIn r.tokensOut asOf with
  | error e => trivial
  | ok cost =>
    dsimp only [Prog.ofExcept_ok, Prog.bind_eq, Prog.ret_bind]
    by_cases hr : UsageRecorder.Recordable r
    · obtain ⟨stamped, hbills, hcreate⟩ := UsageRecorder.create_accepts (ofSession (I := I) pricing).now apiKeyId hr
        (UsageRecorder.costFor_nonneg hcost)
      rw [hcreate]
      have stamping : ((ofSession (I := I) pricing).now.bind fun createdAt => .ret (stamped createdAt)).Asks (OwnRow apiKeyId) :=
        now.bind fun _ => trivial
      refine stamping.bind_of_ends fun t record hrecord => ?_
      rcases ends_bind.mp hrecord with ⟨createdAt, _, _, _, _, hret⟩ | ⟨e, he, _⟩
      · obtain ⟨_, hsame⟩ := ends_ret.mp hret
        cases hsame
        exact Prog.Asks.bind (Prog.Asks.perform (hbills createdAt).key) fun _ => trivial
      · cases he
    · obtain ⟨e, hraise⟩ := UsageRecorder.create_raises (ofSession (I := I) pricing).now apiKeyId cost hr
      rw [hraise]
      trivial

/-- A request looks its caller up once, and inserts rows of this key. -/
def owning (A : Interface) : Monitor (postedI A) Exn (Option UUID) where
  next
    | _, .inl (.inl (.inl (.select _))), .ok (some row) => some row.id
    | s, _, _ => s
  allowed
    | s, .inl (.inl (.inl _)) => s = none
    | _, .inl _ => True
    | s, .inr (.flush row) => s = some row.apiKeyId
    | _, .inr _ => True
  expects _ _ := True

theorem posting_owning {idempotencyKey : Option String} (c : (appI A).Cmd) (s : Option UUID)
    (hc : (acting idempotencyKey).allowed s c) :
    (posting pricing c).Obeys (owning A) (fun a s' => s' = (acting idempotencyKey).next s c a) s := by
  match c with
  | .inl (.select keyHash) =>
    refine ⟨hc, fun a _ => ?_⟩
    match a with
    | .error e => exact rfl
    | .ok none => exact rfl
    | .ok (some row) => exact rfl
  | .inr (.inl c) => exact ⟨trivial, fun a _ => by cases a <;> rfl⟩
  | .inr (.inr (.inl c)) => exact ⟨trivial, fun a _ => by cases a <;> rfl⟩
  | .inr (.inr (.inr (.inl (.inl c)))) => exact ⟨trivial, fun a _ => by cases a <;> rfl⟩
  | .inr (.inr (.inr (.inr c))) => exact ⟨trivial, fun a _ => by cases a <;> rfl⟩
  | .inr (.inr (.inr (.inl (.inr (.record id r))))) =>
    obtain ⟨apiKeyId, rfl, hacts⟩ := hc
    obtain rfl : id = apiKeyId := hacts
    have steady : ∀ c, OwnRow id c → (owning A).allowed (some id) c ∧ ∀ a, (owning A).next (some id) c a = some id := by
      intro c hc
      match c with
      | .inl (.inr _) => exact ⟨trivial, fun _ => rfl⟩
      | .inr (.flush row) => exact ⟨congrArg some (Eq.symm hc), fun _ => rfl⟩
    exact Prog.Obeys.bind (record_own.steady steady) (fun _ _ hs => hs) fun _ _ hs => hs

/-- **One request.** -/
theorem posted_owning : (call.posted sha256 defaultRateLimitRpm pricing).Obeys (owning A) (fun _ _ => True) none :=
  Prog.Obeys.handled serve_acting (fun _ _ => trivial) posting_owning

theorem posted_inserts : (call.posted sha256 defaultRateLimitRpm pricing).Asks Inserts := by
  refine Prog.Obeys.via (fun c s => ?_) _ _
  have passed : ∀ c, (passing (A := A) c).Asks Inserts := fun c => Prog.Asks.inl (Prog.Asks.inl (Prog.Asks.perform trivial))
  match c with
  | .inl c => exact passed _
  | .inr (.inl c) => exact passed _
  | .inr (.inr (.inl c)) => exact passed _
  | .inr (.inr (.inr (.inl (.inl c)))) => exact passed _
  | .inr (.inr (.inr (.inr c))) => exact passed _
  | .inr (.inr (.inr (.inl (.inr (.record apiKeyId r))))) =>
    refine Prog.Asks.bind (record_own.imp fun c hc => ?_) fun _ => trivial
    match c with
    | .inl (.inr _) | .inr (.flush _) => trivial

theorem inSession_owning : (inSession (call.posted sha256 defaultRateLimitRpm pricing)).Obeys (owning A) (fun _ _ => True) none := by
  apply inSession_keeps _ posted_owning
  intro s c hc
  cases c with
  | flush row => exact absurd rfl (hc row)
  | commit | rollback | close => trivial

end Owner

/-! ### Summaries -/

/-- The totals of two summaries together. -/
def UsageSummary.add (s t : UsageSummary) : UsageSummary where
  totalRequests := s.totalRequests + t.totalRequests
  totalTokensIn := s.totalTokensIn + t.totalTokensIn
  totalTokensOut := s.totalTokensOut + t.totalTokensOut
  totalCost := s.totalCost + t.totalCost
  since := s.since
  until' := s.until'

namespace UsageRepo
variable {rows more : List UsageRow} {apiKeyId : UUID} {since until' : Option DateTime}

theorem ofKey_append : ofKey (rows ++ more) apiKeyId since until' = ofKey rows apiKeyId since until' ++ ofKey more apiKeyId since until' := by
  cases since <;> cases until' <;> simp [ofKey, applyWindow]

theorem summary_append : summaryByApiKey (rows ++ more) apiKeyId since until' =
    (summaryByApiKey rows apiKeyId since until').add (summaryByApiKey more apiKeyId since until') := by
  simp only [summaryByApiKey, UsageSummary.add, ofKey_append, Query.coalesce_sum?, List.map_append, List.sum_append, List.length_append]

/-- Rows of other keys add nothing. -/
theorem summary_other (total : UsageSummary) (h : ∀ row ∈ rows, row.apiKeyId ≠ apiKeyId) :
    total.add (summaryByApiKey rows apiKeyId since until') = total := by
  have hnone : ofKey rows apiKeyId since until' = [] :=
    List.eq_nil_iff_forall_not_mem.mpr fun row hrow => h row (mem_ofKey.mp hrow).1 (mem_ofKey.mp hrow).2.1
  simp [summaryByApiKey, UsageSummary.add, hnone, Query.coalesce_sum?]

/-- What several have inserted, one after the other. -/
theorem summary_flatMap {ι : Type} (f : ι → List UsageRow) (order : List ι) (rows : List UsageRow) :
    summaryByApiKey (rows ++ order.flatMap f) apiKeyId since until' =
      order.foldl (fun total i => total.add (summaryByApiKey (f i) apiKeyId since until')) (summaryByApiKey rows apiKeyId since until') := by
  induction order generalizing rows with
  | nil => rw [List.flatMap_nil, List.append_nil, List.foldl_nil]
  | cons i order ih => rw [List.flatMap_cons, ← List.append_assoc, ih, List.foldl_cons, summary_append]

end UsageRepo

/-! ### Any number of requests -/

section Runs
variable {A : Interface} {ι : Type} [DecidableEq ι]

def calledBy : Event ((postedI A).tagged ι) Exn → Option UUID
  | ⟨(_, .inl (.inl (.inl (.select _)))), .ok (some row)⟩ => some row.id
  | _ => none

/-- The key that a request's lookup has answered. -/
def callerOf (t : Trace ((postedI A).tagged ι) Exn) : Option UUID := t.findSome? calledBy

omit [DecidableEq ι] in
theorem callerOf_append (t u : Trace ((postedI A).tagged ι) Exn) : callerOf (t ++ u) = (callerOf t).or (callerOf u) := by
  rw [callerOf, List.findSome?_append]
  rfl

omit [DecidableEq ι] in
theorem callerOf_snoc (t : Trace ((postedI A).tagged ι) Exn) (e : Event ((postedI A).tagged ι) Exn) :
    callerOf (t ++ [e]) = (callerOf t).or (calledBy e) := by
  rw [callerOf_append]
  cases hcalled : calledBy e <;> simp [callerOf, hcalled]

/-- Its key, as the monitor has it, and rows of this key alone. -/
def Owns (t : Trace ((postedI A).tagged ι) Exn) (x : ι × Option UUID) : Prop :=
  x.2 = callerOf t ∧ ∀ row ∈ flushed t, callerOf t = some row.apiKeyId

omit [DecidableEq ι] in
theorem owns_step {t : Trace ((postedI A).tagged ι) Exn} {x : ι × Option UUID} {c : ((postedI A).tagged ι).Cmd}
    {a : Except Exn (((postedI A).tagged ι).Ans c)} (h : Owns t x) (hc : ((owning A).tagged ι).allowed x c) :
    Owns (t ++ [⟨c, a⟩]) (((owning A).tagged ι).next x c a) := by
  obtain ⟨hx, hrows⟩ := h
  obtain ⟨i, c⟩ := c
  have hcaller := callerOf_snoc t ⟨(i, c), a⟩
  have hflushed := flushed_snoc t ⟨(i, c), a⟩
  have steady : calledBy (A := A) ⟨(i, c), a⟩ = none → flushedRow (⟨(i, c), a⟩ : Event ((postedI A).tagged ι) Exn) = none →
      ((owning A).tagged ι).next x (i, c) a = x → Owns (t ++ [⟨(i, c), a⟩]) (((owning A).tagged ι).next x (i, c) a) := by
    intro hcalled hrow hnext
    rw [hnext, Owns, hcaller, hflushed, hcalled, hrow, Option.or_none]
    exact ⟨hx, fun row hmem => hrows row ((List.append_nil (flushed t)) ▸ hmem)⟩
  rcases c with ((⟨keyHash⟩ | c) | c) | c
  · have hnone : x.2 = none := hc.2
    rw [hnone] at hx
    have hempty : flushed t = [] := List.eq_nil_iff_forall_not_mem.mpr fun row hrow => by
      have hkey := hrows row hrow
      rw [← hx] at hkey
      cases hkey
    rw [Owns, hcaller, hflushed, ← hx, hempty]
    rcases a with e | _ | row
    · exact ⟨hnone, fun row hmem => by cases hmem⟩
    · exact ⟨hnone, fun row hmem => by cases hmem⟩
    · exact ⟨rfl, fun row hmem => by cases hmem⟩
  · exact steady rfl rfl rfl
  · exact steady rfl rfl rfl
  · cases c with
    | commit | rollback | close => exact steady rfl rfl rfl
    | flush row =>
      cases a with
      | error e => exact steady rfl rfl rfl
      | ok a =>
        have hkey : x.2 = some row.apiKeyId := hc.2
        rw [Owns, hcaller, hflushed, ← hx, hkey]
        refine ⟨hkey, fun row' hmem => ?_⟩
        rcases List.mem_append.mp hmem with hmem | hmem
        · rw [← hrows row' hmem, ← hx, hkey]
          rfl
        · rw [List.mem_singleton.mp hmem]
          rfl

variable {sha256 : ByteArray → String} {defaultRateLimitRpm : Nat} {calls : ι → ChatCall A} {pricing : PricingTable}
  {W : Type} {U : World (((outerI A).sum clockI).tagged ι) Exn W} {outage : Exn → Prop} {w : W} {start : List UsageRow}
  {h : Postings ((outerI A).sum clockI) ι W UsageRow} {p : Pool ((postedI A).tagged ι) Exn ι (W × Books ι UsageRow)}

/-- The rows that a request has inserted at any moment are of the key that its lookup answered. -/
theorem rows_own (hr : Run (booksWorld U outage) (beginning (fun i => (calls i).posted sha256 defaultRateLimitRpm pricing) w start) h p)
    (i : ι) : ∀ row ∈ flushed (log i h), callerOf (log i h) = some row.apiKeyId := by
  have hobeys : ∀ i, ((beginning (fun i => (calls i).posted sha256 defaultRateLimitRpm pricing) w start).threads i).Obeys
      ((owning A).tagged ι) (fun o x => x.1 = i ∧ True) (i, none) := fun i => inSession_owning.tagged i
  have hmeets : (booksWorld U outage).Meets ((owning A).tagged ι) := fun _ _ _ _ _ => trivial
  have howns := Run.each (F := Owns) hmeets hobeys (fun i => ⟨rfl, fun row hrow => absurd hrow List.not_mem_nil⟩)
    (fun t x w c a w' hx hc _ => owns_step hx hc) hr i
  exact howns.2

/-- **Usage is conserved**: at any moment of any run the committed rows are those that were there and
those of the requests that have committed, in the order of their commits and each with all that it has
inserted, which is of the key that its own lookup answered. So a key's totals are what they were and
what its own committed requests have added. -/
theorem usage_conserved
    (hr : Run (booksWorld U outage) (beginning (fun i => (calls i).posted sha256 defaultRateLimitRpm pricing) w start) h p) :
    ∃ order : List ι, order.Nodup ∧ order.Sublist (commitOrder h) ∧
      (∀ i, p.threads i = .ret () ∨ CommitAnswered h i → i ∈ order) ∧
      (∀ i e, p.threads i = .raise e → ¬ outage e → i ∉ order) ∧
      p.world.2.rows = start ++ order.flatMap (fun i => flushed (log i h)) ∧
      (∀ i, ∀ row ∈ flushed (log i h), callerOf (log i h) = some row.apiKeyId) ∧
      ∀ apiKeyId since until', UsageRepo.summaryByApiKey (usageTable p.world.2.rows) apiKeyId since until' =
        (order.filter fun i => callerOf (log i h) = some apiKeyId).foldl
          (fun total i => total.add (UsageRepo.summaryByApiKey (usageTable (flushed (log i h))) apiKeyId since until'))
          (UsageRepo.summaryByApiKey (usageTable start) apiKeyId since until') := by
  obtain ⟨order, honce, hin, hcommitted, hraised, hrows⟩ := rows_committed (fun i => posted_inserts) hr
  refine ⟨order, honce, hin, hcommitted, hraised, hrows, rows_own hr, fun apiKeyId since until' => ?_⟩
  have htable : usageTable p.world.2.rows = usageTable start ++ order.flatMap fun i => usageTable (flushed (log i h)) := by
    rw [hrows, usageTable, List.map_append, List.map_flatMap]
    rfl
  rw [htable, UsageRepo.summary_flatMap, List.foldl_filter]
  refine List.foldl_ext _ _ _ fun total i _ => ?_
  by_cases hkey : callerOf (log i h) = some apiKeyId
  · rw [if_pos (decide_eq_true hkey)]
  · rw [if_neg (by simpa using hkey)]
    refine UsageRepo.summary_other total fun row hrow hown => hkey ?_
    obtain ⟨row', hrow', rfl⟩ := List.mem_map.mp hrow
    rw [rows_own hr i row' hrow']
    exact congrArg some hown

end Runs

/-! ### One session -/

section Sessions
variable {A : Interface} {sha256 : ByteArray → String} {defaultRateLimitRpm : Nat} {call : ChatCall A} {pricing : PricingTable}
  {s : Trace (appI A) Exn} {t : Trace (postedI A) Exn}

theorem passing_ends {c : (outerI A).Cmd} (a : Except Exn ((outerI A).Ans c)) :
    Ends (passing c) [⟨.inl (.inl c), a⟩] a := by
  cases a <;> exact .step _ (.refl _)

/-- A request that returns commits. -/
theorem posted_returned (hserve : Ends (call.serve sha256 defaultRateLimitRpm) s (.ok ())) (hplayed : Played (posting pricing) s t) :
    Ends (inSession (call.posted sha256 defaultRateLimitRpm pricing)) (t ++ committing) (.ok ()) := by
  have hreturned := getSession_returned (ends_via.mpr ⟨s, hplayed, hserve⟩)
  exact ends_bind.mpr (.inl ⟨(), _, [], (List.append_nil _).symm, hreturned, .refl _⟩)

/-- One that raises is rolled back. -/
theorem posted_raised {e : Exn} (hserve : Ends (call.serve sha256 defaultRateLimitRpm) s (.error e)) (he : e.isException = true)
    (hplayed : Played (posting pricing) s t) :
    Ends (inSession (call.posted sha256 defaultRateLimitRpm pricing)) (t ++ abandoning) (.error e) :=
  ends_bind.mpr (.inr ⟨e, rfl, getSession_raised (ends_via.mpr ⟨s, hplayed, hserve⟩) he⟩)

end Sessions

/-! ### On two requests -/

section Trial
open ApiKeyService (issuedHash firstToken secondToken)

section Requests
variable {A : Interface} {pricing : PricingTable} {s : Trace (appI A) Exn} {t : Trace (postedI A) Exn}

/-- A lookup that finds the row, and the check of its limit with Redis down. -/
def admission (J : Interface) (token : UrlSafe) (row : ApiKeyRow) : Trace (lookupI.sum (limitersI.sum J)) Exn :=
  [⟨.inl (.select (hashApiKey issuedHash (generateApiKey token))), .ok (some row)⟩,
    ⟨.inr (.inl (.inl .allow)), .ok (true, 0)⟩,
    ⟨.inr (.inl (.inr (.inl .time))), .ok 0⟩,
    ⟨.inr (.inl (.inr (.inl (.script (RedisRateLimiter.bucketName row.id) (60 : Nat) ((60 : Nat) / 60) 0 120)))),
      .error rateLimiterUnavailable⟩,
    ⟨.inr (.inl (.inl (.report .failure 0))), .ok ()⟩,
    ⟨.inr (.inl (.inr (.inr (.check row.id 60)))), .ok ()⟩]

theorem admission_played {token : UrlSafe} {row : ApiKeyRow} (h : Played (posting pricing) s t) :
    Played (posting pricing) (admission (endpointI A) token row ++ s)
      ((admission (redisI.sum (A.sum (handoff Frame))) token row).map (fun e => e.inl.inl) ++ t) :=
  .step (passing_ends _) (.step (passing_ends _) (.step (passing_ends _) (.step (passing_ends _) (.step (passing_ends _)
    (.step (passing_ends _) h rfl) rfl) rfl) rfl) rfl) rfl

def trialUsage : ChatResponse := ⟨.openai, "gpt-4o", "h", 1, 0, "length", "req-1"⟩

def trialPricing : PricingTable := .build (fun _ _ _ => "") [UsageRecorder.quarterCent]

/-- The clock, as the recorder reads it. -/
def stamping : Trace ((outerI A).sum clockI) Exn := [⟨.inr (), .ok 4⟩, ⟨.inr (), .ok 4⟩]

theorem recording_trial (A : Interface) (apiKeyId : UUID) : ∃ row : UsageRow, row.apiKeyId = apiKeyId ∧
    Ends (posting (A := A) trialPricing (.inr (.inr (.inr (.inl (.inr (.record apiKeyId trialUsage)))))))
      (stamping.map Event.inl ++ inserting row) (.ok ()) := by
  have hget : trialPricing.get trialUsage.provider trialUsage.model 4 = .ok UsageRecorder.quarterCent := rfl
  obtain ⟨record, hrecord, _, hrow⟩ := UsageRecorder.run_returned (I := outerI A) (r := trialUsage) apiKeyId hget
    ⟨by decide, by decide⟩ 4
  exact ⟨.ofRecord record, congrArg UsageRow.apiKeyId hrow, ends_bind.mpr (.inl ⟨record, _, [], rfl, hrecord, .refl _⟩)⟩

end Requests

/-- A request without an idempotency key, that its adapter answers. -/
def trialAsk : ChatCall Interface.silent where
  authorization := trialCall.authorization
  payload := trialCall.payload
  idempotencyKey := none
  service := ⟨fun _ => some ⟨fun _ => .ret trialUsage, fun _ => .ret ()⟩, fun _ => .ok [⟨.openai, "gpt-4o"⟩]⟩
  idempotency := trialCall.idempotency

/-- The same of another key, and with an idempotency key. -/
def trialKeyed : ChatCall Interface.silent :=
  { trialAsk with authorization := some ("Bearer " ++ generateApiKey firstToken), idempotencyKey := some "k1" }

def firstRow : ApiKeyRow := ⟨⟨1⟩, issuedHash (generateApiKey firstToken).toUTF8, "first", none, none, true, 10⟩

def trialFingerprint : String := trialCall.idempotency.fingerprint trialCall.payload.toDomain

def trialClaim (slot : Slot) : RedisCmd := .set slot.name (.claimed trialFingerprint) true 120

def trialStored (slot : Slot) : RedisCmd :=
  .set slot.name (.completed trialFingerprint (IdempotencyService.serialize trialUsage)) false 86400

theorem ask_trial : Ends (trialAsk.serve issuedHash 60)
    (admission _ secondToken trialRow ++ [⟨.inr (.inr (.inr (.inl (.inr (.record ⟨2⟩ trialUsage))))), .ok ()⟩]) (.ok ()) :=
  .step _ (.step _ (.step _ (.step _ (.step _ (.step _ (.step _ (.refl _)))))))

/-- Redis is lost before the response is stored. -/
theorem keyed_trial : Ends (trialKeyed.serve issuedHash 60)
    (admission _ firstToken firstRow ++ [⟨.inr (.inr (.inl (trialClaim (⟨1⟩, "k1")))), .ok true⟩,
      ⟨.inr (.inr (.inr (.inl (.inr (.record ⟨1⟩ trialUsage))))), .ok ()⟩,
      ⟨.inr (.inr (.inl (trialStored (⟨1⟩, "k1")))), .error (.redisError "connection lost")⟩])
    (.error idempotencyStoreUnavailable) :=
  .step _ (.step _ (.step _ (.step _ (.step _ (.step _ (.step _ (.step _ (.step _ (.refl _)))))))))

/-- The one that will commit, and the one that will be rolled back. -/
def trialPair : Bool → ChatCall Interface.silent
  | true => trialAsk
  | false => trialKeyed

/-- What each has asked when it inserts its row. -/
def trialBefore : Bool → Trace ((outerI Interface.silent).sum clockI) Exn
  | true => (admission _ secondToken trialRow).map Event.inl ++ stamping
  | false => (admission _ firstToken firstRow).map Event.inl ++
      (⟨.inl (.inr (.inr (.inl (trialClaim (⟨1⟩, "k1"))))), .ok true⟩ :: stamping)

def trialLost : Trace ((outerI Interface.silent).sum clockI) Exn :=
  [⟨.inl (.inr (.inr (.inl (trialStored (⟨1⟩, "k1"))))), .error (.redisError "connection lost")⟩]

/-- What each asks then. -/
def trialAfter : Bool → Trace (postedI Interface.silent) Exn
  | true => committing
  | false => trialLost.map Event.inl ++ abandoning

def trialOutcome : Bool → Except Exn Unit
  | true => .ok ()
  | false => .error idempotencyStoreUnavailable

/-- Both rows are inserted before either request ends. -/
def trialTurns (rows : Bool → UsageRow) : List (Bool × Event ((postedI Interface.silent).tagged Bool) Exn) :=
  turn true ((trialBefore true).map Event.inl ++ inserting (rows true)) ++
    (turn false ((trialBefore false).map Event.inl ++ inserting (rows false)) ++ (turn true (trialAfter true) ++ turn false (trialAfter false)))

theorem part_trial (rows : Bool → UsageRow) (i : Bool) :
    part i (trialTurns rows) = ((trialBefore i).map Event.inl ++ inserting (rows i) ++ trialAfter i).map (Event.tag i) := by
  cases i <;> simp [trialTurns, part_append, part_turn_self, part_turn_of_ne]

theorem posted_trial : ∃ rows : Bool → UsageRow, (rows true).apiKeyId = ⟨2⟩ ∧ (rows false).apiKeyId = ⟨1⟩ ∧
    ∀ i, Ends (inSession ((trialPair i).posted issuedHash 60 trialPricing))
      ((trialBefore i).map Event.inl ++ inserting (rows i) ++ trialAfter i) (trialOutcome i) := by
  obtain ⟨row, hrow, hrecord⟩ := recording_trial Interface.silent ⟨2⟩
  obtain ⟨row', hrow', hrecord'⟩ := recording_trial Interface.silent ⟨1⟩
  refine ⟨fun i => if i then row else row', hrow, hrow', fun i => ?_⟩
  cases i with
  | true => exact posted_returned ask_trial (admission_played (.step hrecord .nil rfl))
  | false =>
    have hrest : Played (posting trialPricing)
        [⟨.inr (.inr (.inl (trialClaim (⟨1⟩, "k1")))), .ok true⟩, ⟨.inr (.inr (.inr (.inl (.inr (.record ⟨1⟩ trialUsage))))), .ok ()⟩,
          ⟨.inr (.inr (.inl (trialStored (⟨1⟩, "k1")))), .error (.redisError "connection lost")⟩] _ :=
      .cons (passing_ends _) (.cons hrecord' (.cons (passing_ends _) .nil))
    exact posted_raised keyed_trial rfl (admission_played hrest)

/-- Surroundings that may answer anything. -/
def anything (I : Interface) : World I Exn Unit := ⟨fun _ _ _ _ => True, fun _ _ => False⟩

/-- The books when both have ended. -/
def trialBooks (rows : Bool → UsageRow) : Books Bool UsageRow :=
  ((((((⟨[], fun _ => some []⟩ : Books Bool UsageRow).put true (some [rows true])).put false (some [rows false])).publish true
    [rows true]).drop true).drop false).drop false

/-- The database that they share. -/
abbrev trialBooksWorld : World ((postedI Interface.silent).tagged Bool) Exn (Unit × Books Bool UsageRow) :=
  booksWorld (anything _) fun _ => False

theorem trial_booksAt : BooksAt (anything (((outerI Interface.silent).sum clockI).tagged Bool)) (fun _ => False) trialBooksWorld () :=
  fun _ _ _ _ h => h

theorem gives_before {db : Books Bool UsageRow} {i : Bool} (hopen : db.open? i = some []) (row : UsageRow) :
    trialBooksWorld.Gives ((), db) ((turn i ((trialBefore i).map Event.inl ++ inserting row)).map Prod.snd) ((), db.put i (some [row])) := by
  rw [turn_append, List.map_append]
  exact .append (turn_outer trial_booksAt fun _ _ => trivial) (turn_flush trial_booksAt hopen row)

theorem gives_trial (rows : Bool → UsageRow) :
    trialBooksWorld.Gives ((), ⟨[], fun _ => some []⟩) ((trialTurns rows).map Prod.snd) ((), trialBooks rows) := by
  rw [trialTurns, List.map_append, List.map_append, List.map_append]
  refine .append (gives_before rfl _) (.append (gives_before rfl _) (.append (turn_returned trial_booksAt rfl) ?_))
  rw [trialAfter, turn_append, List.map_append]
  exact .append (turn_outer trial_booksAt fun _ _ => trivial) (turn_raised trial_booksAt)

/-- The rows of the one that was rolled back are not there, and its key's totals are what they were. -/
theorem usage_conserved_trial : ∃ (h : Postings ((outerI Interface.silent).sum clockI) Bool Unit UsageRow)
    (p : Pool ((postedI Interface.silent).tagged Bool) Exn Bool (Unit × Books Bool UsageRow)) (order : List Bool) (rows : Bool → UsageRow),
    h.map Step.thread = List.replicate 9 true ++ List.replicate 10 false ++ List.replicate 2 true ++ List.replicate 3 false ∧
      (∀ i, flushed (log i h) = [rows i] ∧ callerOf (log i h) = some (rows i).apiKeyId) ∧
      (rows true).apiKeyId = ⟨2⟩ ∧ (rows false).apiKeyId = ⟨1⟩ ∧
      p.threads true = .ret () ∧ p.threads false = .raise idempotencyStoreUnavailable ∧ true ∈ order ∧ false ∉ order ∧
      p.world.2.rows = order.flatMap (fun i => flushed (log i h)) ∧ p.world.2.rows = [rows true] ∧
      ∀ since until', UsageRepo.summaryByApiKey (usageTable p.world.2.rows) ⟨1⟩ since until' =
        UsageRepo.summaryByApiKey (usageTable []) ⟨1⟩ since until' := by
  obtain ⟨rows, hsecond, hfirst, hends⟩ := posted_trial
  obtain ⟨h, hr, hturns⟩ := Run.turns hends (part_trial rows) (gives_trial rows)
  obtain ⟨order, _, _, hcommitted, hraised, hrows, hown, hsummary⟩ := usage_conserved hr
  have hthreads : h.map Step.thread = (h.map fun x => (x.thread, x.event)).map Prod.fst := by
    rw [List.map_map]
    rfl
  have hflushed : ∀ i, flushed (log i h) = [rows i] := by
    intro i
    rw [← part_history, hturns, part_trial]
    cases i <;> rfl
  have hcaller : ∀ i, callerOf (log i h) = some (rows i).apiKeyId := by
    intro i
    apply hown
    rw [hflushed]
    exact List.mem_cons_self
  have hin : true ∈ order := hcommitted true (.inl rfl)
  have hout : false ∉ order := hraised false _ rfl id
  refine ⟨h, _, order, rows, ?_, fun i => ⟨hflushed i, hcaller i⟩, hsecond, hfirst, rfl, rfl, hin, hout, hrows, rfl, fun since until' => ?_⟩
  · rw [hthreads, hturns]
    rfl
  · have hnone : (order.filter fun i => callerOf (log i h) = some ⟨1⟩) = [] := by
      refine List.filter_eq_nil_iff.mpr fun i hi => ?_
      cases i with
      | false => exact absurd hi hout
      | true =>
        rw [hcaller, hsecond]
        decide
    rw [hsummary, hnone]
    rfl

end Trial
end Relayix
