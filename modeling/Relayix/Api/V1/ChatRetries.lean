import Relayix.Api.V1.ChatCharges
import Relayix.Infra.SharedRedis

/-! Retries with one idempotency key are charged once.

The requests of any number of processes share one Redis and one database. While the record of a slot
does not expire, at most one request holds it, and one that has inserted its row holds it for good. So
of all the requests of one caller with one key at most one ever has a row, and once it has, no other
asks a provider anything. -/
namespace Relayix
open Library
open UsageRecorder (clockI)

variable {A : Interface} {ι : Type}

/-- Any number of processes with one Redis. Each has a breaker and a memory of its own, and may be told
anything by its database, its clock, its providers and its clients. A command of the store runs, or it
fails, and then Redis ran it at once or never will; only a script of the limiter may also run late. -/
def fleetWorld (A : Interface) (ι : Type) : World (((outerI A).sum clockI).tagged ι) Exn SharedRedis where
  answers
    | w, (_, .inl (.inr (.inl (.inr (.inl (.script name capacity rate now ttl)))))), a, w' =>
        (a = (w.run (.script name capacity rate now ttl)).1 ∧ w' = (w.run (.script name capacity rate now ttl)).2) ∨
          ∃ e, a = .error e ∧ (w' = w ∨ w' = (w.run (.script name capacity rate now ttl)).2)
    | w, (_, .inl (.inr (.inr (.inl c)))), a, w' => (a = (w.exec c).1 ∧ w' = (w.exec c).2) ∨
        ∃ e, a = .error e ∧ (w' = w ∨ w' = (w.exec c).2)
    | w, _, _, w' => w' = w
  elapses w w' := Expiring.Waits w w' ∨ ∃ c, OfBucket c ∧ w' = (w.run c).2

/-! ### The holder of a record -/

namespace Claimant

/-- It has acquired the record of the slot, and has not released it. -/
def Holds (self : Claimant) (slot : Slot) : Prop := self.slot = some slot ∧ self.claim.held = true

end Claimant

/-- At most one request holds the record of the slot, and while one does there is a record. -/
structure Held (slot : Slot) (w : SharedRedis) (g : ι → ι × Claimant) : Prop where
  typed : w.Typed
  one : ∀ i j, (g i).2.Holds slot → (g j).2.Holds slot → i = j
  entry : ∀ i, (g i).2.Holds slot → ∃ e, w.records.entries slot.name = some e

/-- The record of the slot has not expired. -/
def Live {R : Type} (slot : Slot) (x : SharedRedis × R) : Prop :=
  ∀ e, x.1.records.entries slot.name = some e → x.1.now < e.deadline

/-- No step of the run finds it expired. -/
def Lasting (slot : Slot) (h : Postings ((outerI A).sum clockI) ι SharedRedis UsageRow) : Prop :=
  ∀ s ∈ h, Live slot s.before

section Commands
variable {w : Redis} {name : String} {c : redisI.Cmd}

/-- Only a deletion takes a record away. -/
theorem exec_keeps (h : ∃ e, w.entries name = some e) (hc : c ≠ .delete name) : ∃ e, (w.exec c).2.entries name = some e := by
  by_cases hname : name = c.name
  · cases c with
    | set name' value nx ex =>
      obtain rfl : name = name' := hname
      rcases w.exec_set name value nx ex with hexec | hexec | ⟨_, hexec⟩ <;> rw [hexec]
      · exact h
      · exact h
      · exact ⟨_, Expiring.write_entries_self⟩
    | get name' => exact h
    | delete name' =>
      obtain rfl : name = name' := hname
      exact absurd rfl hc
  · rw [exec_entries_ne hname]
    exact h

/-- What acquires a record has found none, and leaves one. -/
theorem exec_acquires {record : Record} {ttl : Int} (h : (w.exec (.set name record true ttl)).1 = .ok true) :
    w.find name = none ∧ ∃ e, (w.exec (.set name record true ttl)).2.entries name = some e := by
  rcases w.exec_set name record true ttl with hexec | hexec | ⟨hfree, hexec⟩ <;> rw [hexec] at h ⊢
  · cases h
  · cases h
  · exact ⟨hfree rfl, _, Expiring.write_entries_self⟩

end Commands

namespace Held
variable [DecidableEq ι] {slot : Slot} {w w' : SharedRedis} {g : ι → ι × Claimant} {i : ι} {x : ι × Claimant}

theorem of_update {j : ι} (h : (Function.update g i x j).2.Holds slot) : (j = i ∧ x.2.Holds slot) ∨ (j ≠ i ∧ (g j).2.Holds slot) := by
  by_cases hj : j = i
  · subst hj
    rw [Function.update_self] at h
    exact .inl ⟨rfl, h⟩
  · rw [Function.update_of_ne hj] at h
    exact .inr ⟨hj, h⟩

/-- A step that acquires nothing and leaves the record there. -/
theorem keep (h : Held slot w g) (ht : w'.Typed) (hback : x.2.Holds slot → (g i).2.Holds slot)
    (hentry : (∃ e, w.records.entries slot.name = some e) → ∃ e, w'.records.entries slot.name = some e) :
    Held slot w' (Function.update g i x) := by
  have before : ∀ j, (Function.update g i x j).2.Holds slot → (g j).2.Holds slot := by
    intro j hj
    rcases of_update hj with ⟨rfl, hx⟩ | ⟨_, hj⟩
    · exact hback hx
    · exact hj
  constructor
  · exact ht
  · exact fun j k hj hk => h.one j k (before j hj) (before k hk)
  · exact fun j hj => hentry (h.entry j (before j hj))

/-- A step that acquires it, where nobody holds it. -/
theorem acquire (ht : w'.Typed) (hnone : ∀ j, ¬ (g j).2.Holds slot) (hentry : ∃ e, w'.records.entries slot.name = some e) :
    Held slot w' (Function.update g i x) := by
  have self : ∀ j, (Function.update g i x j).2.Holds slot → j = i := by
    intro j hj
    rcases of_update hj with ⟨rfl, _⟩ | ⟨_, hj⟩
    · rfl
    · exact absurd hj (hnone j)
  constructor
  · exact ht
  · exact fun j k hj hk => (self j hj).trans (self k hk).symm
  · exact fun _ _ => hentry

/-- The step of a holder that gives it up. -/
theorem release (h : Held slot w g) (ht : w'.Typed) (hi : (g i).2.Holds slot) (hx : ¬ x.2.Holds slot) :
    Held slot w' (Function.update g i x) := by
  have nobody : ∀ j, ¬ (Function.update g i x j).2.Holds slot := by
    intro j hj
    rcases of_update hj with ⟨_, hj⟩ | ⟨hne, hj⟩
    · exact hx hj
    · exact hne (h.one j i hj hi)
  constructor
  · exact ht
  · exact fun j k hj => absurd hj (nobody j)
  · exact fun j hj => absurd hj (nobody j)

/-- A command of the store. -/
theorem store {slot' : Slot} {c : redisI.Cmd} {a : Except Exn (redisI.Ans c)} (h : Held slot w g)
    (hlive : ∀ e, w.records.entries slot.name = some e → w.now < e.deadline) (hslot : (g i).2.slot = some slot')
    (hc : (g i).2.claim.MayAsk slot'.name c)
    (ha : (a = (w.exec c).1 ∧ w' = (w.exec c).2) ∨ ∃ e, a = .error e ∧ (w' = w ∨ w' = (w.exec c).2)) :
    Held slot w' (Function.update g i ((g i).1, { (g i).2 with claim := (g i).2.claim.next c a })) := by
  have hname := Claim.name_of_mayAsk hc
  obtain ⟨hanswer, hrecords, _⟩ := SharedRedis.exec_apart h.typed hname
  have hran : w' = w ∨ w' = (w.exec c).2 := by
    rcases ha with ⟨_, hw⟩ | ⟨_, _, hw⟩
    · exact .inr hw
    · exact hw
  have ht : w'.Typed := by
    rcases hran with rfl | rfl
    · exact h.typed
    · exact SharedRedis.typed_exec h.typed hname
  have hentry : c ≠ .delete slot.name → (∃ e, w.records.entries slot.name = some e) →
      ∃ e, w'.records.entries slot.name = some e := by
    intro hdelete he
    rcases hran with rfl | rfl
    · exact he
    · rw [hrecords]
      exact exec_keeps he hdelete
  by_cases hsame : slot' = slot
  · subst hsame
    cases hclaim : (g i).2.claim with
    | outside =>
      rw [hclaim] at hc
      have refused : (Claim.outside.next c a).held = false → Held slot' w' (Function.update g i ((g i).1,
          { (g i).2 with claim := Claim.outside.next c a })) := by
        intro hnot
        apply h.keep ht
        · rintro ⟨_, hheld⟩
          rw [hnot] at hheld
          cases hheld
        · apply hentry
          rcases hc with ⟨_, _, rfl⟩ | rfl <;> exact fun hd => by cases hd
      rcases hc with ⟨record, ttl, rfl⟩ | rfl
      · rcases a with e | _ | _
        · exact refused rfl
        · exact refused rfl
        · -- nobody can have held a record that was not there
          have hexec : (w.records.exec (.set slot'.name record true ttl)).1 = .ok true := by
            rcases ha with ⟨ha, _⟩ | ⟨_, ha, _⟩
            · rw [← hanswer, ← ha]
            · cases ha
          have hw : w' = (w.exec (.set slot'.name record true ttl)).2 := by
            rcases ha with ⟨_, hw⟩ | ⟨_, ha, _⟩
            · exact hw
            · cases ha
          obtain ⟨hfree, hleft⟩ := exec_acquires hexec
          apply acquire ht
          · intro j hj
            obtain ⟨e, he⟩ := h.entry j hj
            have hfound : w.records.find slot'.name = some e := Expiring.find_eq_some.mpr ⟨he, hlive e he⟩
            rw [hfree] at hfound
            cases hfound
          · rw [hw, hrecords]
            exact hleft
      · exact refused (by cases a <;> rfl)
    | holding =>
      rw [hclaim] at hc
      have hi : (g i).2.Holds slot' := ⟨hslot, by rw [hclaim]; rfl⟩
      rcases hc with hfinal | rfl
      · apply h.keep ht (fun _ => hi)
        apply hentry
        obtain ⟨_, _, rfl⟩ := hfinal
        exact fun hd => by cases hd
      · apply h.release ht hi
        rintro ⟨_, hheld⟩
        cases hheld
    | charged =>
      rw [hclaim] at hc
      have hi : (g i).2.Holds slot' := ⟨hslot, by rw [hclaim]; rfl⟩
      apply h.keep ht (fun _ => hi)
      apply hentry
      obtain ⟨_, _, rfl⟩ := hc
      exact fun hd => by cases hd
    | released =>
      rw [hclaim] at hc
      exact hc.elim
  · -- the record of another slot
    apply h.keep ht
    · rintro ⟨hx, _⟩
      have hx : (g i).2.slot = some slot := hx
      rw [hslot] at hx
      exact absurd (Option.some.inj hx) hsame
    · apply hentry
      rintro rfl
      exact hsame (Slot.name_injective hname.symm)

omit [DecidableEq ι] in
/-- A script of the limiter. -/
theorem script {c : BucketCmd} (h : Held slot w g) (hc : OfBucket c) : Held slot (w.run c).2 g := by
  obtain ⟨_, _, hrecords⟩ := SharedRedis.run_apart h.typed hc
  constructor
  · exact SharedRedis.typed_run h.typed hc
  · exact h.one
  · intro i hi
    rw [hrecords]
    exact h.entry i hi

omit [DecidableEq ι] in
/-- Time passes. -/
theorem waits (h : Held slot w g) (hw : Expiring.Waits w w') : Held slot w' g := by
  constructor
  · exact SharedRedis.typed_waits h.typed hw
  · exact h.one
  · intro i hi
    rw [SharedRedis.records, hw.narrow.entries]
    exact h.entry i hi

variable {outage : Exn → Prop} {db db' : Books ι UsageRow} {j : ι} {c : (postedI A).Cmd}
  {a : Except Exn ((postedI A).Ans c)}

/-- **One step** of any request. -/
theorem command (h : Held slot w g) (hlive : Live slot (w, db)) (hc : (retrying A).allowed (g i).2 c) (ha : (booksWorld (fleetWorld A ι) outage).answers (w, db) (j, c) a (w', db')) :
    Held slot w' (Function.update g i ((g i).1, (retrying A).next (g i).2 c a)) := by
  have steady : (retrying A).next (g i).2 c a = (g i).2 → w' = w →
      Held slot w' (Function.update g i ((g i).1, (retrying A).next (g i).2 c a)) := by
    rintro hsame rfl
    rw [hsame]
    exact h.keep h.typed id id
  rcases c with ((⟨keyHash⟩ | (c | (c | ⟨key, rpm⟩)) | c | c | c) | c) | c
  · obtain ⟨rfl, _⟩ := ha
    rcases a with e | _ | row
    · exact steady rfl rfl
    · exact steady rfl rfl
    · apply h.keep h.typed _ id
      rintro ⟨_, hheld⟩
      have hheld : (g i).2.claim.held = true := hheld
      rw [hc.2] at hheld
      cases hheld
  · exact steady rfl ha.1
  · cases c with
    | time => exact steady rfl ha.1
    | script name capacity rate now ttl =>
      have hran : Held slot w' g := by
        rcases ha.1 with ⟨_, rfl⟩ | ⟨_, _, rfl | rfl⟩
        · exact h.script hc
        · exact h
        · exact h.script hc
      exact hran.keep hran.typed id id
  · exact steady rfl ha.1
  · obtain ⟨slot', hslot, hask⟩ := hc
    exact h.store hlive hslot hask ha.1
  · exact steady rfl ha.1
  · exact steady rfl ha.1
  · exact steady rfl ha.1
  · cases c with
    | flush row =>
      obtain ⟨rfl, _⟩ := ha
      cases a with
      | error e => exact steady rfl rfl
      | ok _ =>
        apply h.keep h.typed _ id
        rintro ⟨hslot, hheld⟩
        exact ⟨hslot, Claim.held_charge ▸ hheld⟩
    | commit | rollback | close => exact steady rfl ha.1

end Held

/-! ### Any number of requests -/

section Runs
variable [DecidableEq ι] {sha256 : ByteArray → String} {defaultRateLimitRpm : Nat} {calls : ι → ChatCall A} {pricing : PricingTable}
  {outage : Exn → Prop} {w : SharedRedis} {start : List UsageRow} {slot : Slot}
  {h : Postings ((outerI A).sum clockI) ι SharedRedis UsageRow} {p : Pool ((postedI A).tagged ι) Exn ι (SharedRedis × Books ι UsageRow)}

/-- Where each request is, after a history. -/
abbrev claimants (calls : ι → ChatCall A) (h : Postings ((outerI A).sum clockI) ι SharedRedis UsageRow) : ι → ι × Claimant :=
  watched ((retrying A).tagged ι) (fun i => (i, { idempotencyKey := (calls i).idempotencyKey })) h

omit [DecidableEq ι] in
theorem beginning_retrying (i : ι) :
    ((beginning (fun i => (calls i).posted sha256 defaultRateLimitRpm pricing) w start).threads i).Obeys ((retrying A).tagged ι)
      (fun _ x => x.1 = i ∧ True) (i, { idempotencyKey := (calls i).idempotencyKey }) :=
  inSession_retrying.tagged i

theorem fleet_meets : World.Meets (W := SharedRedis × Books ι UsageRow) (booksWorld (fleetWorld A ι) outage) ((retrying A).tagged ι) :=
  fun _ _ _ _ _ => trivial

/-- The same, after a history. -/
def HeldAfter (slot : Slot) (_ : Postings ((outerI A).sum clockI) ι SharedRedis UsageRow) (x : SharedRedis × Books ι UsageRow)
    (g : ι → ι × Claimant) : Prop := Held slot x.1 g

/-- While the record does not expire, at most one request holds it. -/
theorem held_run (hw : w.Typed)
    (hr : Run (booksWorld (fleetWorld A ι) outage) (beginning (fun i => (calls i).posted sha256 defaultRateLimitRpm pricing) w start) h p)
    (hlasting : Lasting slot h) : HeldAfter slot h p.world (claimants calls h) := by
  have hstart : Held slot w fun i : ι => (i, ({ idempotencyKey := (calls i).idempotencyKey } : Claimant)) := by
    constructor
    · exact hw
    · rintro i _ ⟨_, hheld⟩
      cases hheld
    · rintro i ⟨_, hheld⟩
      cases hheld
  have hlives : ∀ pre s post, h = pre ++ s :: post → Live slot s.before := by
    rintro pre s post rfl
    exact hlasting s (by simp)
  refine Run.invariant fleet_meets beginning_retrying hstart ?_ ?_ hr hlives
  · rintro h ⟨w, db⟩ g i ⟨j, c⟩ a ⟨w', db'⟩ hheld ⟨_, hc⟩ ha hlive
    exact hheld.command hlive hc ha
  · rintro h ⟨w, db⟩ g ⟨w', db'⟩ hheld ⟨hw | ⟨c, hc, rfl⟩, _⟩
    · exact hheld.waits hw
    · exact hheld.script hc

/-- What a request has asked, as its claim tells it. -/
structure Tells (calls : ι → ChatCall A) (t : Trace ((postedI A).tagged ι) Exn) (x : ι × Claimant) : Prop where
  key : x.2.idempotencyKey = (calls x.1).idempotencyKey
  caller : x.2.caller = callerOf t
  rows : x.2.idempotencyKey ≠ none → (flushed t).length = if x.2.claim = .charged then 1 else 0

omit [DecidableEq ι] in
theorem tells_step {t : Trace ((postedI A).tagged ι) Exn} {x : ι × Claimant} {c : ((postedI A).tagged ι).Cmd}
    {a : Except Exn (((postedI A).tagged ι).Ans c)} (ht : Tells calls t x) (hc : ((retrying A).tagged ι).allowed x c) :
    Tells calls (t ++ [⟨c, a⟩]) (((retrying A).tagged ι).next x c a) := by
  obtain ⟨hkey, hcaller, hrows⟩ := ht
  obtain ⟨i, c⟩ := c
  obtain ⟨j, s⟩ := x
  have moved : ∀ claim, calledBy (⟨(i, c), a⟩ : Event ((postedI A).tagged ι) Exn) = none →
      (s.idempotencyKey ≠ none → (flushed t ++ (flushedRow (⟨(i, c), a⟩ : Event ((postedI A).tagged ι) Exn)).toList).length =
        if claim = .charged then 1 else 0) → Tells calls (t ++ [⟨(i, c), a⟩]) (j, { s with claim }) := by
    intro claim hcalled hcount
    constructor
    · exact hkey
    · rw [callerOf_snoc, hcalled, Option.or_none]
      exact hcaller
    · rw [flushed_snoc]
      exact hcount
  have steady : calledBy (⟨(i, c), a⟩ : Event ((postedI A).tagged ι) Exn) = none →
      flushedRow (⟨(i, c), a⟩ : Event ((postedI A).tagged ι) Exn) = none → Tells calls (t ++ [⟨(i, c), a⟩]) (j, s) := by
    intro hcalled hrow
    apply moved s.claim hcalled
    rw [hrow, Option.toList_none, List.append_nil]
    exact hrows
  rcases c with ((⟨keyHash⟩ | c | c | c | c) | c) | c
  · rcases a with e | _ | row
    · exact steady rfl rfl
    · exact steady rfl rfl
    · constructor
      · exact hkey
      · have hnone : callerOf t = none := hcaller.symm.trans hc.2.1
        rw [callerOf_snoc, hnone]
        rfl
      · rw [flushed_snoc]
        exact fun hk => (congrArg List.length (List.append_nil _)).trans (hrows hk)
  · exact steady rfl rfl
  · apply moved _ rfl
    intro hk
    have hcount := hrows hk
    simp only [Claim.next_eq_charged]
    exact (congrArg List.length (List.append_nil _)).trans hcount
  · exact steady rfl rfl
  · exact steady rfl rfl
  · exact steady rfl rfl
  · cases c with
    | flush row =>
      cases a with
      | error e => exact steady rfl rfl
      | ok _ =>
        apply moved _ rfl
        intro hk
        have hholding : s.claim = .holding := hc.2 hk
        have hcount : (flushed t).length = if s.claim = .charged then 1 else 0 := hrows hk
        rw [hholding] at hcount ⊢
        rw [List.length_append, hcount]
        rfl
    | commit | rollback | close => exact steady rfl rfl

theorem tells_run
    (hr : Run (booksWorld (fleetWorld A ι) outage) (beginning (fun i => (calls i).posted sha256 defaultRateLimitRpm pricing) w start) h p)
    (i : ι) : Tells calls (log i h) (claimants calls h i) := by
  apply Run.each (F := Tells calls) fleet_meets beginning_retrying _ _ hr
  · exact fun i => ⟨rfl, rfl, fun _ => rfl⟩
  · exact fun t x w c a w' ht hc _ => tells_step ht hc

/-- The requests of one caller with one key. -/
abbrev Retries (calls : ι → ChatCall A) (slot : Slot) (h : Postings ((outerI A).sum clockI) ι SharedRedis UsageRow) (i : ι) : Prop :=
  (calls i).idempotencyKey = some slot.2 ∧ callerOf (log i h) = some slot.1

/-- A command that an adapter gives. -/
def AsksProvider : ((postedI A).tagged ι).Cmd → Prop
  | (_, .inl (.inl (.inr (.inr (.inr (.inl _)))))) => True
  | _ => False

theorem claimants_thread (i : ι) : (claimants calls h i).1 = i := Monitor.tagged_run _ _ _

/-- One of them, as the others see it. -/
theorem slot_of_retries
    (hr : Run (booksWorld (fleetWorld A ι) outage) (beginning (fun i => (calls i).posted sha256 defaultRateLimitRpm pricing) w start) h p)
    {i : ι} (hi : Retries calls slot h i) :
    (claimants calls h i).2.slot = some slot ∧
      (flushed (log i h)).length = if (claimants calls h i).2.claim = .charged then 1 else 0 := by
  obtain ⟨hkey, hcaller, hrows⟩ := tells_run hr i
  rw [claimants_thread, hi.1] at hkey
  refine ⟨Claimant.slot_eq_some.mpr ⟨hcaller.trans hi.2, hkey⟩, hrows ?_⟩
  rw [hkey]
  exact Option.some_ne_none _

/-- What has inserted its row holds the record. -/
theorem holds_of_flushed
    (hr : Run (booksWorld (fleetWorld A ι) outage) (beginning (fun i => (calls i).posted sha256 defaultRateLimitRpm pricing) w start) h p)
    {i : ι} (hi : Retries calls slot h i) (hrow : flushed (log i h) ≠ []) : (claimants calls h i).2.Holds slot := by
  obtain ⟨hslot, hcount⟩ := slot_of_retries hr hi
  refine ⟨hslot, ?_⟩
  by_cases hcharged : (claimants calls h i).2.claim = .charged
  · rw [hcharged]
    rfl
  · rw [if_neg hcharged] at hcount
    exact absurd (List.length_eq_zero_iff.mp hcount) hrow

/-- Two that have inserted a row are one. -/
theorem charged_alone (hw : w.Typed)
    (hr : Run (booksWorld (fleetWorld A ι) outage) (beginning (fun i => (calls i).posted sha256 defaultRateLimitRpm pricing) w start) h p)
    (hlasting : Lasting slot h) {i j : ι} (hi : Retries calls slot h i) (hj : Retries calls slot h j)
    (hrow : flushed (log i h) ≠ []) (hrow' : flushed (log j h) ≠ []) : i = j :=
  (held_run hw hr hlasting).one i j (holds_of_flushed hr hi hrow) (holds_of_flushed hr hj hrow')

/-- A provider is asked by a request that is looked up, and holds its record. -/
theorem holds_of_asking
    (hr : Run (booksWorld (fleetWorld A ι) outage) (beginning (fun i => (calls i).posted sha256 defaultRateLimitRpm pricing) w start) h p)
    (slot : Slot) {i : ι} {c : ((postedI A).tagged ι).Cmd}
    {k : Except Exn (((postedI A).tagged ι).Ans c) → Prog ((postedI A).tagged ι) Exn Unit} (hi : p.threads i = .await c k) (hc : AsksProvider c) :
    callerOf (log i h) ≠ none ∧ ((calls i).idempotencyKey = some slot.2 → callerOf (log i h) = some slot.1 →
      (claimants calls h i).2.Holds slot) := by
  have hobeys := hr.obeys fleet_meets beginning_retrying i
  rw [hi] at hobeys
  obtain ⟨⟨_, hallowed⟩, _⟩ := hobeys
  obtain ⟨tag, ((c | c | c | c | c) | c) | c⟩ := c
  case inl.inl.inr.inr.inr.inl =>
    obtain ⟨hcaller, hheld⟩ := hallowed
    rw [← (tells_run hr i).caller]
    refine ⟨hcaller, fun hkey hslot => ⟨(slot_of_retries hr ⟨hkey, ?_⟩).1, hheld ?_⟩⟩
    · rw [← (tells_run hr i).caller]
      exact hslot
    · rw [(tells_run hr i).key, claimants_thread, hkey]
      exact Option.some_ne_none _
  all_goals exact hc.elim

omit [DecidableEq ι] in
/-- Lists of which one at most is not empty, and has one element at most. -/
theorem length_flatMap_le_one {β : Type} {f : ι → List β} {order : List ι} (honce : order.Nodup)
    (hone : ∀ i ∈ order, (f i).length ≤ 1) (halone : ∀ i ∈ order, ∀ j ∈ order, f i ≠ [] → f j ≠ [] → i = j) :
    (order.flatMap f).length ≤ 1 := by
  induction order with
  | nil => simp
  | cons i order ih =>
    obtain ⟨hnew, honce⟩ := List.nodup_cons.mp honce
    rw [List.flatMap_cons, List.length_append]
    by_cases hempty : f i = []
    · have hrest := ih honce (fun j hj => hone j (List.mem_cons_of_mem _ hj)) fun j hj k hk =>
        halone j (List.mem_cons_of_mem _ hj) k (List.mem_cons_of_mem _ hk)
      rw [hempty]
      simpa using hrest
    · have hothers : order.flatMap f = [] := by
        apply List.flatMap_eq_nil_iff.mpr
        intro j hj
        by_contra hne
        exact hnew (halone i List.mem_cons_self j (List.mem_cons_of_mem _ hj) hempty hne ▸ hj)
      have hfirst := hone i List.mem_cons_self
      rw [hothers, List.length_nil]
      omega

/-- **Charged once**: while the record of a slot does not expire, the committed rows of all the requests
of its caller with its key are at most one; and from the moment that one of them has inserted a row, no
other asks a provider anything. -/
theorem charged_once (hw : w.Typed)
    (hr : Run (booksWorld (fleetWorld A ι) outage) (beginning (fun i => (calls i).posted sha256 defaultRateLimitRpm pricing) w start) h p)
    (hlasting : Lasting slot h) :
    (∃ order : List ι, order.Nodup ∧ order.Sublist (commitOrder h) ∧
      (∀ i, p.threads i = .ret () ∨ CommitAnswered h i → i ∈ order) ∧
      (∀ i e, p.threads i = .raise e → ¬ outage e → i ∉ order) ∧
      p.world.2.rows = start ++ order.flatMap (fun i => flushed (log i h)) ∧
      ((order.filter fun i => Retries calls slot h i).flatMap fun i => flushed (log i h)).length ≤ 1) ∧
    ∀ pre s post row, h = pre ++ s :: post → Retries calls slot h s.thread → flushedRow s.event = some row →
      ∀ s' ∈ post, Retries calls slot h s'.thread → AsksProvider s'.event.cmd → s'.thread = s.thread := by
  constructor
  · obtain ⟨order, honce, hin, hcommitted, hraised, hrows⟩ := rows_committed (fun i => posted_inserts) hr
    refine ⟨order, honce, hin, hcommitted, hraised, hrows, ?_⟩
    have hretries : ∀ i ∈ order.filter fun i => Retries calls slot h i, Retries calls slot h i :=
      fun i hi => of_decide_eq_true (List.mem_filter.mp hi).2
    apply length_flatMap_le_one (honce.filter _)
    · intro i hi
      rw [(slot_of_retries hr (hretries i hi)).2]
      split <;> simp
    · exact fun i hi j hj => charged_alone hw hr hlasting (hretries i hi) (hretries j hj)
  · rintro pre s post row rfl hs hrow s' hs' hretries hasks
    obtain ⟨mid, rest, rfl⟩ := List.append_of_mem hs'
    have hsplit : pre ++ s :: (mid ++ s' :: rest) = (pre ++ s :: mid) ++ s' :: rest := by simp
    obtain ⟨p', hr', _, ⟨k, hk⟩, _⟩ := hr.at hsplit
    have hearlier : Lasting slot (pre ++ s :: mid) := fun x hx => hlasting x (by
      rw [hsplit]
      exact List.mem_append_left _ hx)
    -- the caller of either was known by then
    have known : ∀ i, Retries calls slot (pre ++ s :: (mid ++ s' :: rest)) i → callerOf (log i (pre ++ s :: mid)) ≠ none →
        callerOf (log i (pre ++ s :: mid)) = some slot.1 := by
      intro i hi hne
      obtain ⟨apiKeyId, hcaller⟩ := Option.ne_none_iff_exists'.mp hne
      have hlater := hi.2
      rw [hsplit, log_append, callerOf_append, hcaller] at hlater
      rw [hcaller]
      exact hlater
    have hflushed : row ∈ flushed (log s.thread (pre ++ s :: mid)) := by
      have hevent : s.event ∈ log s.thread (pre ++ s :: mid) := mem_log.mpr ⟨s, by simp, rfl, rfl⟩
      exact List.mem_filterMap.mpr ⟨s.event, hevent, hrow⟩
    have hcaller : callerOf (log s.thread (pre ++ s :: mid)) ≠ none := by
      rw [rows_own hr' s.thread row hflushed]
      exact Option.some_ne_none _
    obtain ⟨hcaller', hholds'⟩ := holds_of_asking hr' slot hk hasks
    have hheld := held_run hw hr' hearlier
    apply hheld.one
    · exact hholds' hretries.1 (known _ hretries hcaller')
    · exact holds_of_flushed hr' ⟨hs.1, known _ hs hcaller⟩ (List.ne_nil_of_mem hflushed)

end Runs

/-! ### On two requests -/

section Trial
open ApiKeyService (issuedHash secondToken)

theorem live_set {R : Type} {x : R} {slot : Slot} {w : SharedRedis} {record : Record} {nx : Bool} {ttl : Int} (hw : w.Typed)
    (hlive : Live slot (w, x)) (httl : 0 < ttl) : Live slot ((w.exec (.set slot.name record nx ttl)).2, x) := by
  intro e he
  have he : (w.exec (.set slot.name record nx ttl)).2.records.entries slot.name = some e := he
  have hnow : (w.exec (.set slot.name record nx ttl)).2.now = (w.exec (.set slot.name record nx ttl)).2.records.now := rfl
  have hname : (RedisCmd.set slot.name record nx ttl).name = slot.name := rfl
  obtain ⟨_, hrecords, _⟩ := SharedRedis.exec_apart hw hname
  show (w.exec (.set slot.name record nx ttl)).2.now < e.deadline
  rw [hnow, hrecords]
  rw [hrecords] at he
  rcases w.records.exec_set slot.name record nx ttl with hexec | hexec | ⟨_, hexec⟩ <;> rw [hexec] at he ⊢
  · exact hlive e he
  · exact hlive e he
  · exact Expiring.write_fresh (by exact_mod_cast httl) he

def trialSlot : Slot := (⟨2⟩, "k1")

/-- A request with a key, whose adapter asks its provider. -/
def trialRetry : ChatCall completionI where
  authorization := trialCall.authorization
  payload := trialCall.payload
  idempotencyKey := some trialSlot.2
  service := .buffering (fun p => p = .openai) (fun _ _ => .ret ()) fun _ => .ok [⟨.openai, "gpt-4o"⟩]
  idempotency := trialCall.idempotency

/-- The call of its adapter. -/
def trialCompletion : completionI.Cmd := (.openai, GatewayService.upstream trialCall.payload.toDomain ⟨.openai, "gpt-4o"⟩)

def trialCompleted : Record := .completed trialFingerprint (IdempotencyService.serialize trialUsage)

/-- What the first one asks under its claim. -/
theorem charged_trial : Ends (trialRetry.serve issuedHash 60)
    (admission _ secondToken trialRow ++ [⟨.inr (.inr (.inl (trialClaim trialSlot))), .ok true⟩,
      ⟨.inr (.inr (.inr (.inl (.inl trialCompletion)))), .ok trialUsage⟩,
      ⟨.inr (.inr (.inr (.inl (.inr (.record ⟨2⟩ trialUsage))))), .ok ()⟩,
      ⟨.inr (.inr (.inl (trialStored trialSlot))), .ok true⟩]) (.ok ()) :=
  .step _ (.step _ (.step _ (.step _ (.step _ (.step _ (.step _ (.step _ (.step _ (.step _ (.refl _))))))))))

/-- The other finds its record. -/
theorem replayed_trial : Ends (trialRetry.serve issuedHash 60)
    (admission _ secondToken trialRow ++ [⟨.inr (.inr (.inl (trialClaim trialSlot))), .ok false⟩,
      ⟨.inr (.inr (.inl (.get trialSlot.name))), .ok (some trialCompleted)⟩]) (.ok ()) :=
  .step _ (.step _ (.step _ (.step _ (.step _ (.step _ (.step _ (.step _ (.refl _))))))))

abbrev trialAdmission : Trace ((outerI completionI).sum clockI) Exn := (admission _ secondToken trialRow).map Event.inl

def trialClaiming (acquired : Bool) : Trace ((outerI completionI).sum clockI) Exn :=
  [⟨.inl (.inr (.inr (.inl (trialClaim trialSlot)))), .ok acquired⟩]

def trialCalling : Trace ((outerI completionI).sum clockI) Exn :=
  ⟨.inl (.inr (.inr (.inr (.inl trialCompletion)))), .ok trialUsage⟩ :: stamping

def trialKeeping : Trace ((outerI completionI).sum clockI) Exn := [⟨.inl (.inr (.inr (.inl (trialStored trialSlot)))), .ok true⟩]

def trialReading : Trace ((outerI completionI).sum clockI) Exn :=
  trialClaiming false ++ [⟨.inl (.inr (.inr (.inl (.get trialSlot.name)))), .ok (some trialCompleted)⟩]

/-- What each asks, the second one replayed. -/
def retryTrace (row : UsageRow) : Bool → Trace (postedI completionI) Exn
  | true => trialAdmission.map Event.inl ++ (trialClaiming true).map Event.inl ++ trialCalling.map Event.inl ++ inserting row ++
      trialKeeping.map Event.inl ++ committing
  | false => trialAdmission.map Event.inl ++ trialReading.map Event.inl ++ committing

/-- The second one is let in before the first has stored its response, and claims the record after. -/
def retryRest : List (Bool × Event ((postedI completionI).tagged Bool) Exn) :=
  turn false (trialAdmission.map Event.inl) ++ (turn true (trialKeeping.map Event.inl) ++
    (turn true committing ++ (turn false (trialReading.map Event.inl) ++ turn false committing)))

def retryTurns (row : UsageRow) : List (Bool × Event ((postedI completionI).tagged Bool) Exn) :=
  turn true (trialAdmission.map Event.inl) ++ (turn true ((trialClaiming true).map Event.inl) ++ (turn true (trialCalling.map Event.inl) ++
    (turn true (inserting row) ++ retryRest)))

theorem part_retry (row : UsageRow) (i : Bool) : part i (retryTurns row) = (retryTrace row i).map (Event.tag i) := by
  cases i <;> simp [retryTurns, retryRest, retryTrace, part_append, part_turn_self, part_turn_of_ne]

theorem posted_retry : ∃ row : UsageRow,
    ∀ i, Ends (inSession (trialRetry.posted issuedHash 60 trialPricing)) (retryTrace row i) (.ok ()) := by
  obtain ⟨row, _, hrecord⟩ := recording_trial completionI ⟨2⟩
  have hcharged : Played (posting trialPricing) [⟨.inr (.inr (.inl (trialClaim trialSlot))), .ok true⟩,
      ⟨.inr (.inr (.inr (.inl (.inl trialCompletion)))), .ok trialUsage⟩,
      ⟨.inr (.inr (.inr (.inl (.inr (.record ⟨2⟩ trialUsage))))), .ok ()⟩,
      ⟨.inr (.inr (.inl (trialStored trialSlot))), .ok true⟩] _ :=
    .cons (passing_ends _) (.cons (passing_ends _) (.cons hrecord (.cons (passing_ends _) .nil)))
  have hreplayed : Played (posting (A := completionI) trialPricing) [⟨.inr (.inr (.inl (trialClaim trialSlot))), .ok false⟩,
      ⟨.inr (.inr (.inl (.get trialSlot.name))), .ok (some trialCompleted)⟩] _ :=
    .cons (passing_ends _) (.cons (passing_ends _) .nil)
  refine ⟨row, fun i => ?_⟩
  cases i with
  | true => exact posted_returned charged_trial (admission_played hcharged)
  | false => exact posted_returned replayed_trial (admission_played hreplayed)

def trialEmpty : SharedRedis := ⟨0, fun _ => none⟩

def trialClaimed : SharedRedis := (trialEmpty.exec (trialClaim trialSlot)).2

def trialKept : SharedRedis := (trialClaimed.exec (trialStored trialSlot)).2

theorem live_empty (books : Books Bool UsageRow) : Live trialSlot (trialEmpty, books) := fun e he => by cases he

theorem typed_claimed : trialClaimed.Typed := by
  have hname : (trialClaim trialSlot).name = trialSlot.name := rfl
  exact SharedRedis.typed_exec (SharedRedis.typed_empty 0) hname

theorem live_claimed (books : Books Bool UsageRow) : Live trialSlot (trialClaimed, books) :=
  live_set (SharedRedis.typed_empty 0) (live_empty books) (by decide)

theorem live_kept (books : Books Bool UsageRow) : Live trialSlot (trialKept, books) :=
  live_set typed_claimed (live_claimed books) (by decide)

theorem read_kept : trialKept.read trialSlot.name = some (.string trialCompleted) := by
  have hkept : trialKept = trialClaimed.write trialSlot.name (.string trialCompleted) 86400 := rfl
  rw [hkept]
  exact (Expiring.Waits.refl _).kept (lt_add_of_pos_right _ (by norm_num))

/-- The fleet, while the record lasts. -/
abbrev trialFleet : World ((postedI completionI).tagged Bool) Exn (SharedRedis × Books Bool UsageRow) :=
  (booksWorld (fleetWorld completionI Bool) fun _ => False).within (Live trialSlot)

theorem fleet_booksAt {w : SharedRedis} (hlive : ∀ books : Books Bool UsageRow, Live trialSlot (w, books)) :
    BooksAt (fleetWorld completionI Bool) (fun _ => False) trialFleet w :=
  fun _ _ _ db' h => ⟨h, hlive db'⟩

/-- A request is let in while Redis stays as it is. -/
theorem admitted_aside (w : SharedRedis) (i : Bool) :
    ∀ e ∈ trialAdmission, (fleetWorld completionI Bool).answers w (i, e.cmd) e.answer w := by
  intro e he
  simp only [trialAdmission, admission, List.map_cons, List.map_nil, List.mem_cons, List.not_mem_nil, or_false] at he
  rcases he with rfl | rfl | rfl | rfl | rfl | rfl
  · rfl
  · rfl
  · rfl
  · exact .inr ⟨_, rfl, .inl rfl⟩
  · rfl
  · rfl

theorem called_aside (w : SharedRedis) (i : Bool) :
    ∀ e ∈ trialCalling, (fleetWorld completionI Bool).answers w (i, e.cmd) e.answer w := by
  intro e he
  simp only [trialCalling, stamping, List.mem_cons, List.not_mem_nil, or_false] at he
  rcases he with rfl | rfl | rfl <;> rfl

/-- The record is there: it is not claimed again, and read. -/
theorem read_aside (i : Bool) : ∀ e ∈ trialReading, (fleetWorld completionI Bool).answers trialKept (i, e.cmd) e.answer trialKept := by
  intro e he
  simp only [trialReading, trialClaiming, List.cons_append, List.nil_append, List.mem_cons, List.not_mem_nil, or_false] at he
  rcases he with rfl | rfl
  · have hexec : trialKept.exec (trialClaim trialSlot) = (.ok false, trialKept) := SharedRedis.exec_refused read_kept (by decide)
    exact .inl ⟨(congrArg Prod.fst hexec).symm, (congrArg Prod.snd hexec).symm⟩
  · have hexec : trialKept.exec (.get trialSlot.name) = (.ok (some trialCompleted), trialKept) := SharedRedis.exec_read read_kept
    exact .inl ⟨(congrArg Prod.fst hexec).symm, (congrArg Prod.snd hexec).symm⟩

/-- The books when both have ended. -/
def retryBooks (row : UsageRow) : Books Bool UsageRow :=
  (((((⟨[], fun _ => some []⟩ : Books Bool UsageRow).put true (some [row])).publish true [row]).drop true).publish false []).drop false

theorem gives_retry (row : UsageRow) :
    trialFleet.Gives (trialEmpty, ⟨[], fun _ => some []⟩) ((retryTurns row).map Prod.snd) (trialKept, retryBooks row) := by
  have claimed : trialFleet.Gives (trialEmpty, ⟨[], fun _ => some []⟩) ((turn true ((trialClaiming true).map Event.inl)).map Prod.snd)
      (trialClaimed, ⟨[], fun _ => some []⟩) := .command ⟨⟨.inl ⟨rfl, rfl⟩, rfl⟩, live_claimed _⟩ (.done _)
  have kept : ∀ books, trialFleet.Gives (trialClaimed, books) ((turn true (trialKeeping.map Event.inl)).map Prod.snd) (trialKept, books) :=
    fun books => .command ⟨⟨.inl ⟨rfl, rfl⟩, rfl⟩, live_kept _⟩ (.done _)
  simp only [retryTurns, retryRest, List.map_append]
  refine .append (turn_outer (fleet_booksAt live_empty) (admitted_aside _ _)) (.append claimed ?_)
  refine .append (turn_outer (fleet_booksAt live_claimed) (called_aside _ _)) (.append (turn_flush (fleet_booksAt live_claimed) rfl _) ?_)
  refine .append (turn_outer (fleet_booksAt live_claimed) (admitted_aside _ _)) (.append (kept _) ?_)
  refine .append (turn_returned (fleet_booksAt live_kept) rfl) ?_
  exact .append (turn_outer (fleet_booksAt live_kept) (read_aside _)) (turn_returned (fleet_booksAt live_kept) rfl)

/-- The row is inserted before the second one asks anything. -/
theorem retryTurns_split (row : UsageRow) : retryTurns row =
    turn true (trialAdmission.map Event.inl ++ (trialClaiming true).map Event.inl ++ trialCalling.map Event.inl) ++
      (true, ⟨(true, .inr (.flush row)), .ok ()⟩) :: retryRest := by
  rw [retryTurns, turn_append, turn_append, List.append_assoc, List.append_assoc]
  rfl

/-- The provider is asked by the first one alone: the row is there before the other is let in, and both return. -/
theorem charged_once_trial : ∃ (h : Postings ((outerI completionI).sum clockI) Bool SharedRedis UsageRow)
    (p : Pool ((postedI completionI).tagged Bool) Exn Bool (SharedRedis × Books Bool UsageRow)) (order : List Bool),
    (∀ i, Retries (fun _ => trialRetry) trialSlot h i ∧ p.threads i = .ret () ∧ i ∈ order) ∧ order.Sublist (commitOrder h) ∧
      p.world.2.rows.length = 1 ∧ p.world.2.rows = order.flatMap (fun i => flushed (log i h)) ∧
      ((order.filter fun i => Retries (fun _ => trialRetry) trialSlot h i).flatMap fun i => flushed (log i h)).length ≤ 1 ∧
      (∃ s ∈ h, s.thread = true ∧ AsksProvider s.event.cmd) ∧
      ∃ pre s post, h = pre ++ s :: post ∧ s.thread = true ∧ (∀ s' ∈ pre, s'.thread = true) ∧
        ∀ s' ∈ post, s'.thread = false → ¬ AsksProvider s'.event.cmd := by
  obtain ⟨row, hends⟩ := posted_retry
  obtain ⟨h, hrun, hturns⟩ := Run.turns hends (part_retry row) (gives_retry row)
  obtain ⟨hr, _, hlive⟩ := hrun.within (live_empty _)
  have hlasting : Lasting trialSlot h := hlive
  obtain ⟨⟨order, _, hin, hcommitted, _, hrows, hone⟩, hquiet⟩ := charged_once (SharedRedis.typed_empty 0) hr hlasting
  have hretries : ∀ i, Retries (fun _ => trialRetry) trialSlot h i := by
    intro i
    refine ⟨rfl, ?_⟩
    rw [← part_history, hturns, part_retry]
    cases i <;> rfl
  have hasked : ∃ s ∈ h, s.thread = true ∧ AsksProvider s.event.cmd := by
    have hmem : (true, ⟨(true, .inl (.inl (.inr (.inr (.inr (.inl trialCompletion)))))), .ok trialUsage⟩) ∈ retryTurns row := by
      simp [retryTurns, trialCalling, turn, Event.inl, Event.tag]
    rw [← hturns] at hmem
    obtain ⟨s, hs, heq⟩ := List.mem_map.mp hmem
    have hevent : s.event = _ := congrArg Prod.snd heq
    refine ⟨s, hs, congrArg Prod.fst heq, ?_⟩
    rw [hevent]
    trivial
  refine ⟨h, _, order, fun i => ⟨hretries i, rfl, hcommitted i (.inl rfl)⟩, hin, rfl, hrows, hone, hasked, ?_⟩
  rw [retryTurns_split] at hturns
  obtain ⟨pre, later, rfl, hpre, hlater⟩ := List.map_eq_append_iff.mp hturns
  obtain ⟨s, post, rfl, hs, _⟩ := List.map_eq_cons_iff.mp hlater
  have hthread : s.thread = true := congrArg Prod.fst hs
  have hflushed : flushedRow s.event = some row := by
    have hevent : s.event = ⟨(true, .inr (.flush row)), .ok ()⟩ := congrArg Prod.snd hs
    rw [hevent]
    rfl
  refine ⟨pre, s, post, rfl, hthread, fun s' hs' => ?_, fun s' hs' hother hasks => ?_⟩
  · exact mem_turn (hpre ▸ List.mem_map_of_mem hs')
  · have hsame := hquiet pre s post row rfl (hretries _) hflushed s' hs' (hretries _) hasks
    rw [hother, hthread] at hsame
    cases hsame

end Trial
end Relayix
