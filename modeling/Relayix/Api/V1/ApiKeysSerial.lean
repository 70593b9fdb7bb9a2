import Relayix.Api.Authentication
import Relayix.Api.V1.ApiKeyRequests

/-! Admin requests are operations one at a time.

Whatever the interleaving, the table is what the committed requests make of it one after the other, in
the order of their commits, and what each of them was told is what `ApiKeyService.step` answers at its
place. -/
namespace Relayix
open Library
namespace ApiKeyService
open ApiKeyRepo (ofDomain toDomain)

section Serial
variable {ι : Type} [DecidableEq ι]

/-- The steps of requests that each have a session, their own. -/
abbrev Steps (ι : Type) := List (Step (adminI.tagged ι) Exn ι (Keys ι))

def committing : Step (adminI.tagged ι) Exn ι (Keys ι) → Option ι
  | ⟨_, i, ⟨(_, .inr .commit), _⟩⟩ => some i
  | _ => none

/-- The requests that asked for their commit, in that order. -/
def commits (h : Steps ι) : List ι := h.filterMap committing

/-- What a client was told. -/
def Told (h : Steps ι) (i : ι) (outcome : Outcome) : Prop := ⟨(i, .inl (.reply outcome)), .ok ()⟩ ∈ log i h

/-- Its commit was answered. -/
def Confirmed (h : Steps ι) (i : ι) : Prop := ⟨(i, .inr .commit), .ok ()⟩ ∈ log i h

variable (sha256 : ByteArray → String) (columns : ApiKeyRow → Except Exn Unit) (outage : Exn → Prop) (ops : ι → Operation)

/-- What operations make of a table, one after the other. -/
def serial (table : ApiKeyTable) (order : List ι) : ApiKeyTable :=
  order.foldl (fun table i => (step sha256 columns table (ops i)).2) table

/-- The operation raises: on any table, or on the one that a step of its request found. -/
def Refused (h : Steps ι) (i : ι) (e : Exn) : Prop :=
  (∀ table, step sha256 columns table (ops i) = (.raised e, table)) ∨
    ∃ s ∈ h, s.thread = i ∧ step sha256 columns s.before.table (ops i) = (.raised e, s.before.table)

/-- It has written nothing. -/
def Opening (s : Phase) : Prop := s = .begun ∨ ∃ row, s = .found row

/-- It is over, its commit having taken place. -/
def Over (s : Phase) : Prop := s = .committed ∨ ∃ e, s = .failed e ∧ outage e

/-- **The invariant**: the table is what the requests of `order` make of it, each told what its
operation answers at its place, and no open write conflicts with another. -/
structure Serial (start : ApiKeyTable) (h : Steps ι) (order : List ι) (db : Keys ι) (g : ι → ι × Operation × Phase) : Prop where
  own : ∀ i, (g i).1 = i ∧ (g i).2.1 = ops i
  committed : order.Sublist (commits h)
  once : order.Nodup
  confirmed : ∀ i, Confirmed h i → i ∈ order
  counted : ∀ i, (g i).2.2 = .committed → i ∈ order
  finished : ∀ i ∈ order, Over outage (g i).2.2
  table : db.table = serial sha256 columns ops start order
  found : ∀ s ∈ h, ∃ before, before <+: order ∧ s.before.table = serial sha256 columns ops start before
  told : ∀ before i after, order = before ++ i :: after →
    ∀ outcome, Told h i outcome ↔ outcome = (step sha256 columns (serial sha256 columns ops start before) (ops i)).1
  failed : ∀ i e, (g i).2.2 = .failed e → outage e ∨ Refused sha256 columns ops h i e
  ready : ∀ i, Ready sha256 columns db.table (db.open? i) (ops i) (g i).2.2
  replied : ∀ i outcome, (g i).2.2 = .replied outcome → Told h i outcome
  last : ∀ i outcome, Told h i outcome → (g i).2.2 = .replied outcome ∨ (g i).2.2 = .committed ∨ ∃ e, (g i).2.2 = .failed e
  apart : ∀ i j, i ≠ j → ∀ w, db.open? i = some w → ∀ w', db.open? j = some w' → ¬ Conflict w w'

variable {sha256 columns outage ops} {start : ApiKeyTable} {h : Steps ι} {order : List ι} {db db' : Keys ι}
  {g : ι → ι × Operation × Phase} {i j : ι} {e : Event adminI Exn} {outcome : Outcome} {s' : Phase}

/-! What one step adds to a history. -/

theorem mem_log_snoc {x : Event (adminI.tagged ι) Exn} :
    x ∈ log j (h ++ [⟨db, i, e.tag i⟩]) ↔ x ∈ log j h ∨ (i = j ∧ e.tag i = x) := by
  simp only [mem_log, List.mem_append, List.mem_singleton, or_and_right, exists_or, exists_eq_left]

omit [DecidableEq ι] in
theorem tag_eq {c : adminI.Cmd} {a : Except Exn (adminI.Ans c)} : i = j ∧ e.tag i = ⟨(j, c), a⟩ ↔ i = j ∧ e = ⟨c, a⟩ := by
  constructor
  · rintro ⟨rfl, he⟩
    cases e
    cases he
    exact ⟨rfl, rfl⟩
  · rintro ⟨rfl, rfl⟩
    exact ⟨rfl, rfl⟩

theorem told_snoc : Told (h ++ [⟨db, i, e.tag i⟩]) j outcome ↔ Told h j outcome ∨ (i = j ∧ e = ⟨.inl (.reply outcome), .ok ()⟩) :=
  mem_log_snoc.trans (or_congr_right tag_eq)

theorem confirmed_snoc : Confirmed (h ++ [⟨db, i, e.tag i⟩]) j ↔ Confirmed h j ∨ (i = j ∧ e = ⟨.inr .commit, .ok ()⟩) :=
  mem_log_snoc.trans (or_congr_right tag_eq)

omit [DecidableEq ι] in
theorem Refused.snoc {x : Exn} (hr : Refused sha256 columns ops h j x) :
    Refused sha256 columns ops (h ++ [⟨db, i, e.tag i⟩]) j x := by
  refine Or.imp_right ?_ hr
  rintro ⟨s, hs, hstep⟩
  exact ⟨s, List.mem_append_left _ hs, hstep⟩

omit [DecidableEq ι] in
/-- The operation raises on the table that its step found. -/
theorem Refused.now {x : Exn} (hstep : step sha256 columns db.table (ops i) = (.raised x, db.table)) :
    Refused sha256 columns ops (h ++ [⟨db, i, e.tag i⟩]) i x :=
  .inr ⟨_, List.mem_append_right _ List.mem_cons_self, rfl, hstep⟩

omit [DecidableEq ι] in
theorem serial_append (order : List ι) (i : ι) : serial sha256 columns ops start (order ++ [i]) =
    (step sha256 columns (serial sha256 columns ops start order) (ops i)).2 := List.foldl_append ..

namespace Serial
variable (hS : Serial sha256 columns outage ops start h order db g)
include hS

theorem phase (i : ι) : g i = (i, ops i, (g i).2.2) := by
  obtain ⟨hi, hop⟩ := hS.own i
  exact Prod.ext hi (Prod.ext hop rfl)

theorem own_update (i : ι) (s' : Phase) (j : ι) :
    (Function.update g i (i, ops i, s') j).1 = j ∧ (Function.update g i (i, ops i, s') j).2.1 = ops j := by
  by_cases hj : j = i
  · rw [hj, Function.update_self]
    exact ⟨rfl, rfl⟩
  · rw [Function.update_of_ne hj]
    exact hS.own j

theorem found_snoc : ∀ s ∈ h ++ [⟨db, i, e.tag i⟩], ∃ before, before <+: order ∧
    s.before.table = serial sha256 columns ops start before := by
  intro s hs
  rcases List.mem_append.mp hs with hs | hs
  · exact hS.found s hs
  · rw [List.mem_singleton.mp hs]
    exact ⟨order, List.prefix_rfl, hS.table⟩

/-- A step that is not a reply, and commits nothing. -/
theorem quiet (hreply : ∀ outcome, e ≠ ⟨.inl (.reply outcome), .ok ()⟩) (hcommit : e ≠ ⟨.inr .commit, .ok ()⟩)
    (htable : db'.table = db.table) (hopen : ∀ j, j ≠ i → db'.open? j = db.open? j)
    (hready : Ready sha256 columns db.table (db'.open? i) (ops i) s')
    (hover : Over outage (g i).2.2 → Over outage s')
    (hlast : ∀ outcome, (g i).2.2 = .replied outcome ∨ (g i).2.2 = .committed ∨ (∃ e, (g i).2.2 = .failed e) →
      s' = .committed ∨ ∃ e, s' = .failed e)
    (hnot : ∀ outcome, s' ≠ .replied outcome) (hcounted : s' = .committed → (g i).2.2 = .committed)
    (hfailed : ∀ x, s' = .failed x → outage x ∨ Refused sha256 columns ops (h ++ [⟨db, i, e.tag i⟩]) i x)
    (hapart : ∀ w, db'.open? i = some w → ∀ j, j ≠ i → ∀ w', db.open? j = some w' → ¬ Conflict w w' ∧ ¬ Conflict w' w) :
    Serial sha256 columns outage ops start (h ++ [⟨db, i, e.tag i⟩]) order db' (Function.update g i (i, ops i, s')) where
  own := hS.own_update i s'
  committed := by
    unfold commits
    rw [List.filterMap_append]
    exact hS.committed.trans (List.sublist_append_left _ _)
  once := hS.once
  confirmed j hj := (confirmed_snoc.mp hj).elim (hS.confirmed j) fun hc => absurd hc.2 hcommit
  counted j hj := by
    by_cases hji : j = i
    · rw [hji, Function.update_self] at hj
      rw [hji]
      exact hS.counted i (hcounted hj)
    · rw [Function.update_of_ne hji] at hj
      exact hS.counted j hj
  finished j hj := by
    by_cases hji : j = i
    · subst hji
      rw [Function.update_self]
      exact hover (hS.finished j hj)
    · rw [Function.update_of_ne hji]
      exact hS.finished j hj
  table := htable.trans hS.table
  found := hS.found_snoc
  told before j after horder outcome := by
    rw [← hS.told before j after horder outcome, told_snoc]
    exact or_iff_left fun hc => hreply outcome hc.2
  failed j x hx := by
    by_cases hji : j = i
    · subst hji
      rw [Function.update_self] at hx
      exact hfailed x hx
    · rw [Function.update_of_ne hji] at hx
      exact (hS.failed j x hx).imp_right Refused.snoc
  ready j := by
    rw [htable]
    by_cases hji : j = i
    · subst hji
      rw [Function.update_self]
      exact hready
    · rw [Function.update_of_ne hji, hopen j hji]
      exact hS.ready j
  replied j outcome hj := by
    by_cases hji : j = i
    · subst hji
      rw [Function.update_self] at hj
      exact absurd hj (hnot outcome)
    · rw [Function.update_of_ne hji] at hj
      exact told_snoc.mpr (.inl (hS.replied j outcome hj))
  last j outcome hj := by
    have htold : Told h j outcome := (told_snoc.mp hj).resolve_right fun hc => hreply outcome hc.2
    by_cases hji : j = i
    · rw [hji] at htold ⊢
      rw [Function.update_self]
      exact .inr (hlast outcome (hS.last i outcome htold))
    · rw [Function.update_of_ne hji]
      exact hS.last j outcome htold
  apart j k hjk w hw w' hw' := by
    by_cases hj : j = i
    · subst hj
      rw [hopen k hjk.symm] at hw'
      exact (hapart w hw k hjk.symm w' hw').1
    · rw [hopen j hj] at hw
      by_cases hk : k = i
      · subst hk
        exact (hapart w' hw' j hj w hw).2
      · rw [hopen k hk] at hw'
        exact hS.apart j k hjk w hw w' hw'

/-- The client is told the outcome. -/
theorem reply (hs : (g i).2.2 = .written outcome) :
    Serial sha256 columns outage ops start (h ++ [⟨db, i, Event.tag i ⟨.inl (.reply outcome), .ok ()⟩⟩]) order db
      (Function.update g i (i, ops i, .replied outcome)) where
  own := hS.own_update i _
  committed := by
    unfold commits
    rw [List.filterMap_append]
    exact hS.committed.trans (List.sublist_append_left _ _)
  once := hS.once
  confirmed j hj := by
    rcases confirmed_snoc.mp hj with hj | ⟨_, hc⟩
    · exact hS.confirmed j hj
    · cases hc
  counted j hj := by
    by_cases hji : j = i
    · rw [hji, Function.update_self] at hj
      cases hj
    · rw [Function.update_of_ne hji] at hj
      exact hS.counted j hj
  finished j hj := by
    by_cases hji : j = i
    · have hover := hS.finished j hj
      rw [hji, hs] at hover
      rcases hover with hover | ⟨x, hover, _⟩ <;> cases hover
    · rw [Function.update_of_ne hji]
      exact hS.finished j hj
  table := hS.table
  found := hS.found_snoc
  told before j after horder outcome' := by
    rw [← hS.told before j after horder outcome', told_snoc]
    refine or_iff_left fun hc => ?_
    have hover := hS.finished j (horder ▸ List.mem_append_right _ List.mem_cons_self)
    rw [← hc.1, hs] at hover
    rcases hover with hover | ⟨x, hover, _⟩ <;> cases hover
  failed j x hx := by
    by_cases hji : j = i
    · rw [hji, Function.update_self] at hx
      cases hx
    · rw [Function.update_of_ne hji] at hx
      exact (hS.failed j x hx).imp_right Refused.snoc
  ready j := by
    have hready := hS.ready j
    by_cases hji : j = i
    · rw [hji, hs] at hready
      rw [hji, Function.update_self]
      exact hready
    · rw [Function.update_of_ne hji]
      exact hready
  replied j outcome' hj := by
    by_cases hji : j = i
    · rw [hji, Function.update_self] at hj
      cases hj
      exact told_snoc.mpr (.inr ⟨hji.symm, rfl⟩)
    · rw [Function.update_of_ne hji] at hj
      exact told_snoc.mpr (.inl (hS.replied j outcome' hj))
  last j outcome' hj := by
    rcases told_snoc.mp hj with htold | ⟨hij, hc⟩
    · have hlast := hS.last j outcome' htold
      by_cases hji : j = i
      · rw [hji, hs] at hlast
        rcases hlast with hlast | hlast | ⟨x, hlast⟩ <;> cases hlast
      · rw [Function.update_of_ne hji]
        exact hlast
    · cases hc
      rw [← hij, Function.update_self]
      exact .inl rfl
  apart := hS.apart

/-- What the request has written is committed. -/
theorem publish (hs : (g i).2.2 = .replied outcome) (hcmd : e.cmd = .inr .commit) (hover : Over outage s') :
    Serial sha256 columns outage ops start (h ++ [⟨db, i, e.tag i⟩]) (order ++ [i]) (db.publish columns i)
      (Function.update g i (i, ops i, s')) := by
  have hfresh : i ∉ order := by
    intro hi
    have hover := hS.finished i hi
    rw [hs] at hover
    rcases hover with hover | ⟨x, hover, _⟩ <;> cases hover
  have hprepared : Prepared sha256 columns db.table (db.open? i) (ops i) outcome := by
    have hready := hS.ready i
    rw [hs] at hready
    exact hready
  have hstep : step sha256 columns (serial sha256 columns ops start order) (ops i) =
      (outcome, published columns db.table (db.open? i)) := by
    rw [← hS.table]
    exact hprepared.step_eq
  have htable : (db.publish columns i).table = published columns db.table (db.open? i) := by
    unfold Keys.publish published
    cases db.open? i <;> rfl
  have hother : ∀ outcome', (e : Event adminI Exn) ≠ ⟨.inl (.reply outcome'), .ok ()⟩ := by
    intro outcome' he
    rw [he] at hcmd
    cases hcmd
  have hopen : ∀ j, j ≠ i → (db.publish columns i).open? j = db.open? j := fun j hj => Function.update_of_ne hj _ _
  have hclosed : (db.publish columns i).open? i = none := Function.update_self ..
  refine
    { own := hS.own_update i s'
      committed := ?_
      once := hS.once.append (List.nodup_singleton i) (List.disjoint_singleton.mpr hfresh)
      confirmed := ?_
      counted := ?_
      finished := ?_
      table := ?_
      found := ?_
      told := ?_
      failed := ?_
      ready := ?_
      replied := ?_
      last := ?_
      apart := ?_ }
  · have hcommits : commits (h ++ [⟨db, i, e.tag i⟩]) = commits h ++ [i] := by
      unfold commits
      obtain ⟨c, a⟩ := e
      cases hcmd
      rw [List.filterMap_append]
      rfl
    rw [hcommits]
    exact hS.committed.append_right _
  · intro j hj
    rcases confirmed_snoc.mp hj with hj | ⟨rfl, _⟩
    · exact List.mem_append_left _ (hS.confirmed j hj)
    · exact List.mem_append_right _ List.mem_cons_self
  · intro j hj
    by_cases hji : j = i
    · rw [hji]
      exact List.mem_append_right _ List.mem_cons_self
    · rw [Function.update_of_ne hji] at hj
      exact List.mem_append_left _ (hS.counted j hj)
  · intro j hj
    by_cases hji : j = i
    · rw [hji, Function.update_self]
      exact hover
    · rw [Function.update_of_ne hji]
      exact hS.finished j ((List.mem_append.mp hj).resolve_right fun hi => hji (List.mem_singleton.mp hi))
  · rw [htable, serial_append, hstep]
  · intro s hmem
    obtain ⟨before, hprefix, hbefore⟩ := hS.found_snoc s hmem
    exact ⟨before, hprefix.trans (List.prefix_append _ _), hbefore⟩
  · intro before j after horder outcome'
    rw [told_snoc, or_iff_left fun hc => hother outcome' hc.2]
    rcases snoc_eq_split horder with ⟨_, rfl, rfl⟩ | ⟨front, _, horder⟩
    · rw [hstep]
      constructor
      · intro htold
        have hlast := hS.last j outcome' htold
        rw [hs] at hlast
        rcases hlast with hlast | hlast | ⟨x, hlast⟩ <;> cases hlast
        rfl
      · rintro rfl
        exact hS.replied j _ hs
    · exact hS.told before j front horder outcome'
  · intro j x hx
    by_cases hji : j = i
    · rw [hji, Function.update_self] at hx
      rcases hover with hover | ⟨y, hover, hy⟩ <;> rw [hover] at hx <;> cases hx
      exact .inl hy
    · rw [Function.update_of_ne hji] at hx
      exact (hS.failed j x hx).imp_right Refused.snoc
  · intro j
    by_cases hji : j = i
    · rw [hji, Function.update_self, hclosed]
      rcases hover with rfl | ⟨y, rfl, _⟩ <;> rfl
    · rw [Function.update_of_ne hji, hopen j hji, htable]
      exact (hS.ready j).published fun w hw v hv => hS.apart j i hji w hw v hv
  · intro j outcome' hj
    by_cases hji : j = i
    · rw [hji, Function.update_self] at hj
      rcases hover with hover | ⟨y, hover, _⟩ <;> rw [hover] at hj <;> cases hj
    · rw [Function.update_of_ne hji] at hj
      exact told_snoc.mpr (.inl (hS.replied j outcome' hj))
  · intro j outcome' hj
    have htold : Told h j outcome' := (told_snoc.mp hj).resolve_right fun hc => hother outcome' hc.2
    by_cases hji : j = i
    · rw [hji, Function.update_self]
      exact .inr (hover.imp_right fun ⟨y, hy, _⟩ => ⟨y, hy⟩)
    · rw [Function.update_of_ne hji]
      exact hS.last j outcome' htold
  · intro j k hjk w hw w' hw'
    by_cases hj : j = i
    · rw [hj, hclosed] at hw
      cases hw
    · by_cases hk : k = i
      · rw [hk, hclosed] at hw'
        cases hw'
      · rw [hopen j hj] at hw
        rw [hopen k hk] at hw'
        exact hS.apart j k hjk w hw w' hw'

/-- A request that has failed, or is refused, and ends its transaction. -/
theorem drop {c : SessionCmd Empty} {a : Except Exn Unit} (hc : c = .rollback ∨ c = .close)
    (hs : (g i).2.2 = .committed ∨ ∃ x, (g i).2.2 = .failed x) (ha : ∀ x, a = .error x → outage x) :
    Serial sha256 columns outage ops start (h ++ [⟨db, i, Event.tag i ⟨.inr c, a⟩⟩]) order (db.drop i)
      (Function.update g i (i, (client sha256).next (ops i, (g i).2.2) (.inr c) a)) := by
  have hkept : advance sha256 (ops i) (g i).2.2 (.inr c) () = (g i).2.2 := by
    rcases hs with hs | ⟨x, hs⟩ <;> rw [hs] <;> rcases hc with rfl | rfl <;> rfl
  obtain ⟨s', hs', hnext, hfailed⟩ : ∃ s', (s' = (g i).2.2 ∨ ∃ x, s' = .failed x ∧ outage x) ∧
      (client sha256).next (ops i, (g i).2.2) (.inr c) a = (ops i, s') ∧ (s' = .committed ∨ ∃ x, s' = .failed x) := by
    cases a with
    | ok _ => exact ⟨_, .inl rfl, congrArg (Prod.mk (ops i)) hkept, hs⟩
    | error x => exact ⟨.failed x, .inr ⟨x, rfl, ha x rfl⟩, rfl, .inr ⟨x, rfl⟩⟩
  rw [hnext]
  have hclosed : (db.drop i).open? i = none := Function.update_self ..
  refine hS.quiet ?_ ?_ rfl (fun j hj => Function.update_of_ne hj _ _) ?_ ?_ (fun _ _ => hfailed) ?_ ?_ ?_ ?_
  · intro outcome he
    cases he
  · intro he
    rcases hc with rfl | rfl <;> cases he
  · rw [hclosed]
    rcases hfailed with rfl | ⟨x, rfl⟩ <;> rfl
  · intro hover
    rcases hs' with rfl | ⟨x, rfl, hx⟩
    · exact hover
    · exact .inr ⟨x, rfl, hx⟩
  · intro outcome hreplied
    rcases hfailed with rfl | ⟨x, rfl⟩ <;> cases hreplied
  · intro hcounted
    rcases hs' with rfl | ⟨x, rfl, _⟩
    · exact hcounted
    · cases hcounted
  · intro x hx
    rcases hs' with rfl | ⟨y, rfl, hy⟩
    · exact (hS.failed i x hx).imp_right Refused.snoc
    · cases hx
      exact .inl hy
  · intro w hw
    rw [hclosed] at hw
    cases hw

/-- A step of a request that has written nothing. -/
theorem early (hs : Opening (g i).2.2) (hreply : ∀ outcome, e ≠ ⟨.inl (.reply outcome), .ok ()⟩)
    (hcommit : e ≠ ⟨.inr .commit, .ok ()⟩) (htable : db'.table = db.table) (hopen : ∀ j, j ≠ i → db'.open? j = db.open? j)
    (hready : Ready sha256 columns db.table (db'.open? i) (ops i) s') (hnot : ∀ outcome, s' ≠ .replied outcome)
    (hcounted : s' ≠ .committed)
    (hfailed : ∀ x, s' = .failed x → outage x ∨ Refused sha256 columns ops (h ++ [⟨db, i, e.tag i⟩]) i x)
    (hapart : ∀ w, db'.open? i = some w → ∀ j, j ≠ i → ∀ w', db.open? j = some w' → ¬ Conflict w w') :
    Serial sha256 columns outage ops start (h ++ [⟨db, i, e.tag i⟩]) order db' (Function.update g i (i, ops i, s')) := by
  refine hS.quiet hreply hcommit htable hopen hready ?_ ?_ hnot (fun hc => absurd hc hcounted) hfailed fun w hw j hj w' hw' => ?_
  · intro hover
    rcases hs with hs | ⟨row, hs⟩ <;> rw [hs] at hover <;> rcases hover with hover | ⟨x, hover, _⟩ <;> cases hover
  · intro outcome hlast
    rcases hs with hs | ⟨row, hs⟩ <;> rw [hs] at hlast <;> rcases hlast with hlast | hlast | ⟨x, hlast⟩ <;> cases hlast
  · have happart := hapart w hw j hj w' hw'
    exact ⟨happart, fun hc => happart hc.symm⟩

theorem opening_none (hs : Opening (g i).2.2) : db.open? i = none := by
  have hready := hS.ready i
  rcases hs with hs | ⟨row, hs⟩
  · rw [hs] at hready
    exact hready
  · rw [hs] at hready
    exact hready.1

/-- It fails, by an outage or because its operation raises. -/
theorem fail {x : Exn} (hs : Opening (g i).2.2) (hreply : ∀ outcome, e ≠ ⟨.inl (.reply outcome), .ok ()⟩)
    (hcommit : e ≠ ⟨.inr .commit, .ok ()⟩) (hdb : db' = db ∨ db' = db.drop i)
    (hx : outage x ∨ Refused sha256 columns ops (h ++ [⟨db, i, e.tag i⟩]) i x) :
    Serial sha256 columns outage ops start (h ++ [⟨db, i, e.tag i⟩]) order db' (Function.update g i (i, ops i, .failed x)) := by
  have hclosed : db'.open? i = none := by
    rcases hdb with rfl | rfl
    · exact hS.opening_none hs
    · exact Function.update_self ..
  refine hS.early hs hreply hcommit ?_ ?_ ?_ ?_ (fun hcounted => by cases hcounted) ?_ ?_
  · rcases hdb with rfl | rfl <;> rfl
  · intro j hj
    rcases hdb with rfl | rfl
    · rfl
    · exact Function.update_of_ne hj _ _
  · exact hclosed
  · intro outcome hreplied
    cases hreplied
  · intro y hy
    cases hy
    exact hx
  · intro w hw
    rw [hclosed] at hw
    cases hw

theorem get {apiKeyId : UUID} {a : Except Exn (Option ApiKeyRow)} (hs : (g i).2.2 = .begun) (hop : ops i = .revoke apiKeyId)
    (ha : (keyWorld columns outage).answers db (i, .inl (.get apiKeyId)) a db') :
    Serial sha256 columns outage ops start (h ++ [⟨db, i, Event.tag i ⟨.inl (.get apiKeyId), a⟩⟩]) order db'
      (Function.update g i (i, (client sha256).next (ops i, .begun) (.inl (.get apiKeyId)) a)) := by
  obtain ⟨rfl, ha⟩ := ha
  have hreply : ∀ outcome, (⟨.inl (.get apiKeyId), a⟩ : Event adminI Exn) ≠ ⟨.inl (.reply outcome), .ok ()⟩ := by
    intro outcome he
    cases he
  have hcommit : (⟨.inl (.get apiKeyId), a⟩ : Event adminI Exn) ≠ ⟨.inr .commit, .ok ()⟩ := by
    intro he
    cases he
  rcases ha with rfl | ⟨x, rfl, hx⟩
  · cases hfind : db'.table.rows.find? fun row => row.id = apiKeyId with
    | none =>
      rw [hfind] at hreply hcommit
      refine hS.fail (.inl hs) hreply hcommit (.inl rfl) (.inr (Refused.now ?_))
      rw [hop]
      rcases step_revoke db'.table apiKeyId with ⟨row, hrow, hid, _⟩ | ⟨_, hstep⟩
      · exact absurd (decide_eq_true hid) (List.find?_eq_none.mp hfind row hrow)
      · exact hstep
    | some row =>
      rw [hfind] at hreply hcommit
      have hrow : row ∈ db'.table.rows := List.mem_of_find?_eq_some hfind
      have hid : row.id = apiKeyId := by simpa using List.find?_some hfind
      have hnone := hS.opening_none (.inl hs)
      have hnext : (client sha256).next (ops i, .begun) (.inl (.get apiKeyId)) (.ok (some row)) =
          (ops i, if row.isActive then .found row else .written (.revoked (toDomain row.deactivate))) := rfl
      rw [hnext]
      have hready : Ready sha256 columns db'.table (db'.open? i) (ops i)
          (if row.isActive then .found row else .written (.revoked (toDomain row.deactivate))) := by
        rw [hnone, hop, ← hid]
        cases hactive : row.isActive with
        | true => exact ⟨rfl, rfl, row, hrow, rfl, rfl⟩
        | false => exact .unchanged hrow rfl rfl hactive
      refine hS.early (.inl hs) hreply hcommit rfl (fun _ _ => rfl) hready ?_ ?_ ?_ ?_
      · intro outcome hreplied
        split at hreplied <;> cases hreplied
      · intro hcounted
        split at hcounted <;> cases hcounted
      · intro x hx
        split at hx <;> cases hx
      · intro w hw
        rw [hnone] at hw
        cases hw
  · exact hS.fail (.inl hs) hreply hcommit (.inl rfl) (.inl hx)

/-- A write of its own is open. -/
theorem hold {w : Write} (hs : Opening (g i).2.2) (hreply : ∀ outcome, e ≠ ⟨.inl (.reply outcome), .ok ()⟩)
    (hcommit : e ≠ ⟨.inr .commit, .ok ()⟩) (hfree : db.Free i w)
    (hready : Prepared sha256 columns db.table (some w) (ops i) outcome) :
    Serial sha256 columns outage ops start (h ++ [⟨db, i, e.tag i⟩]) order (db.hold i w)
      (Function.update g i (i, ops i, .written outcome)) := by
  have hopen : (db.hold i w).open? i = some w := Function.update_self ..
  refine hS.early hs hreply hcommit rfl (fun j hj => Function.update_of_ne hj _ _) ?_ ?_ (fun hcounted => by cases hcounted) ?_ ?_
  · rw [hopen]
    exact hready
  · intro outcome' hreplied
    cases hreplied
  · intro x hx
    cases hx
  · intro v hv j hj w' hw'
    rw [hopen] at hv
    cases hv
    exact hfree j hj w' hw'

theorem insert {apiKey : ApiKey} {a : Except Exn Unit} (hs : (g i).2.2 = .begun) (hdrawn : Drawn sha256 (ops i) apiKey)
    (ha : (keyWorld columns outage).answers db (i, .inl (.insert (ofDomain apiKey))) a db') :
    Serial sha256 columns outage ops start (h ++ [⟨db, i, Event.tag i ⟨.inl (.insert (ofDomain apiKey)), a⟩⟩]) order db'
      (Function.update g i (i, (client sha256).next (ops i, .begun) (.inl (.insert (ofDomain apiKey))) a)) := by
  have hreply : ∀ outcome, (⟨.inl (.insert (ofDomain apiKey)), a⟩ : Event adminI Exn) ≠ ⟨.inl (.reply outcome), .ok ()⟩ := by
    intro outcome he
    cases he
  have hcommit : (⟨.inl (.insert (ofDomain apiKey)), a⟩ : Event adminI Exn) ≠ ⟨.inr .commit, .ok ()⟩ := by
    intro he
    cases he
  rcases ha with ⟨hfree, ha⟩ | ⟨x, rfl, hx, rfl⟩
  · cases hinsert : db.table.insert columns (ofDomain apiKey) with
    | ok table' =>
      rw [hinsert] at ha
      obtain ⟨rfl, rfl⟩ := ha
      refine hS.hold (.inl hs) hreply hcommit hfree ?_
      obtain ⟨draws, name, rateLimitRpm, monthlyTokenQuota, hop, hkey⟩ := hdrawn
      rw [hop]
      exact .created hkey hinsert
    | error x =>
      rw [hinsert] at ha
      obtain ⟨rfl, rfl⟩ := ha
      exact hS.fail (.inl hs) hreply hcommit (.inl rfl) (.inr (Refused.now (step_drawn hdrawn hinsert)))
  · exact hS.fail (.inl hs) hreply hcommit (.inl rfl) (.inl hx)

theorem deactivate {row : ApiKeyRow} {a : Except Exn Unit} (hs : (g i).2.2 = .found row)
    (ha : (keyWorld columns outage).answers db (i, .inl (.deactivate row.id)) a db') :
    Serial sha256 columns outage ops start (h ++ [⟨db, i, Event.tag i ⟨.inl (.deactivate row.id), a⟩⟩]) order db'
      (Function.update g i (i, (client sha256).next (ops i, .found row) (.inl (.deactivate row.id)) a)) := by
  have hreply : ∀ outcome, (⟨.inl (.deactivate row.id), a⟩ : Event adminI Exn) ≠ ⟨.inl (.reply outcome), .ok ()⟩ := by
    intro outcome he
    cases he
  have hcommit : (⟨.inl (.deactivate row.id), a⟩ : Event adminI Exn) ≠ ⟨.inr .commit, .ok ()⟩ := by
    intro he
    cases he
  have hready := hS.ready i
  rw [hs] at hready
  obtain ⟨_, hop, row', hmem, hid, hdeactivate⟩ := hready
  rcases ha with ⟨hfree, rfl, rfl⟩ | ⟨x, rfl, hx, rfl⟩
  · refine hS.hold (.inr ⟨row, hs⟩) hreply hcommit hfree ?_
    rw [hop]
    exact .revoked hmem hid hdeactivate
  · exact hS.fail (.inr ⟨row, hs⟩) hreply hcommit (.inl rfl) (.inl hx)

theorem commit {a : Except Exn Unit} (hs : (g i).2.2 = .replied outcome)
    (ha : (keyWorld columns outage).answers db (i, .inr .commit) a db') :
    ∃ order', Serial sha256 columns outage ops start (h ++ [⟨db, i, Event.tag i ⟨.inr .commit, a⟩⟩]) order' db'
      (Function.update g i (i, (client sha256).next (ops i, .replied outcome) (.inr .commit) a)) := by
  rcases ha with ⟨rfl, rfl⟩ | ⟨x, rfl, hx, rfl | rfl⟩
  · exact ⟨order ++ [i], hS.publish hs rfl (.inl rfl)⟩
  · exact ⟨order ++ [i], hS.publish hs rfl (.inr ⟨x, rfl, hx⟩)⟩
  · have hclosed : (db.drop i).open? i = none := Function.update_self ..
    refine ⟨order, hS.quiet ?_ ?_ rfl (fun j hj => Function.update_of_ne hj _ _) hclosed ?_ ?_ ?_ (fun hc => by cases hc) ?_ ?_⟩
    · intro outcome' he
      cases he
    · intro he
      cases he
    · exact fun _ => .inr ⟨x, rfl, hx⟩
    · exact fun _ _ => .inr ⟨x, rfl⟩
    · intro outcome' hreplied
      cases hreplied
    · intro y hy
      cases hy
      exact .inl hx
    · intro w hw
      rw [hclosed] at hw
      cases hw

/-- A refused request ends its transaction. -/
theorem refuse {c : SessionCmd Empty} {a : Except Exn Unit} (hc : c = .rollback ∨ c = .close) (hs : (g i).2.2 = .begun)
    (hrefusal : refusal sha256 (ops i) ≠ none) (ha : ∀ x, a = .error x → outage x) :
    Serial sha256 columns outage ops start (h ++ [⟨db, i, Event.tag i ⟨.inr c, a⟩⟩]) order (db.drop i)
      (Function.update g i (i, (client sha256).next (ops i, .begun) (.inr c) a)) := by
  have hreply : ∀ outcome, (⟨.inr c, a⟩ : Event adminI Exn) ≠ ⟨.inl (.reply outcome), .ok ()⟩ := by
    intro outcome he
    cases he
  have hcommit : (⟨.inr c, a⟩ : Event adminI Exn) ≠ ⟨.inr .commit, .ok ()⟩ := by
    intro he
    rcases hc with rfl | rfl <;> cases he
  cases a with
  | error x => exact hS.fail (.inl hs) hreply hcommit (.inr rfl) (.inl (ha x rfl))
  | ok _ =>
    obtain ⟨x, hx⟩ := Option.ne_none_iff_exists'.mp hrefusal
    have hadvance : advance sha256 (ops i) .begun (.inr c) () = .failed x := by
      unfold advance
      rw [hx]
    have hnext : (client sha256).next (ops i, .begun) (.inr c) (.ok ()) = (ops i, .failed x) := congrArg (Prod.mk (ops i)) hadvance
    rw [hnext]
    exact hS.fail (.inl hs) hreply hcommit (.inr rfl) (.inr (.inl fun table => step_refusal hx))

/-- **One step.** -/
theorem command {c : adminI.Cmd} {a : Except Exn (adminI.Ans c)} (hc : (client sha256).allowed (g i).2 c)
    (ha : (keyWorld columns outage).answers db (i, c) a db') :
    ∃ order', Serial sha256 columns outage ops start (h ++ [⟨db, i, Event.tag i ⟨c, a⟩⟩]) order' db'
      (Function.update g i (i, (client sha256).next (g i).2 c a)) := by
  have hphase : (g i).2 = (ops i, (g i).2.2) := Prod.ext (hS.own i).2 rfl
  rw [hphase] at hc ⊢
  cases hs : (g i).2.2 with
  | begun =>
    rw [hs] at hc
    match c with
    | .inl (.get apiKeyId) => exact ⟨order, hS.get hs hc ha⟩
    | .inl (.insert row) =>
      obtain ⟨apiKey, hdrawn, rfl⟩ := hc
      exact ⟨order, hS.insert hs hdrawn ha⟩
    | .inr .rollback =>
      obtain ⟨ha, rfl⟩ := ha
      exact ⟨order, hS.refuse (.inl rfl) hs hc ha⟩
    | .inr .close =>
      obtain ⟨ha, rfl⟩ := ha
      exact ⟨order, hS.refuse (.inr rfl) hs hc ha⟩
    | .inl (.deactivate _) | .inl (.reply _) | .inr .commit => exact hc.elim
  | found row =>
    rw [hs] at hc
    match c with
    | .inl (.deactivate apiKeyId) =>
      obtain rfl : apiKeyId = row.id := hc
      exact ⟨order, hS.deactivate hs ha⟩
    | .inl (.get _) | .inl (.insert _) | .inl (.reply _) | .inr .commit | .inr .rollback | .inr .close => exact hc.elim
  | written outcome =>
    rw [hs] at hc
    match c with
    | .inl (.reply outcome') =>
      obtain rfl : outcome' = outcome := hc
      obtain ⟨rfl, rfl⟩ := ha
      exact ⟨order, hS.reply hs⟩
    | .inl (.get _) | .inl (.insert _) | .inl (.deactivate _) | .inr .commit | .inr .rollback | .inr .close => exact hc.elim
  | replied outcome =>
    rw [hs] at hc
    match c with
    | .inr .commit => exact hS.commit hs ha
    | .inl (.get _) | .inl (.insert _) | .inl (.deactivate _) | .inl (.reply _) | .inr .rollback | .inr .close => exact hc.elim
  | committed =>
    rw [hs] at hc
    match c with
    | .inr .close =>
      obtain ⟨ha, rfl⟩ := ha
      have hdrop := hS.drop (.inr rfl) (.inl hs) ha
      rw [hs] at hdrop
      exact ⟨order, hdrop⟩
    | .inl (.get _) | .inl (.insert _) | .inl (.deactivate _) | .inl (.reply _) | .inr .commit | .inr .rollback => exact hc.elim
  | failed x =>
    rw [hs] at hc
    match c with
    | .inr .rollback =>
      obtain ⟨ha, rfl⟩ := ha
      have hdrop := hS.drop (.inl rfl) (.inr ⟨x, hs⟩) ha
      rw [hs] at hdrop
      exact ⟨order, hdrop⟩
    | .inr .close =>
      obtain ⟨ha, rfl⟩ := ha
      have hdrop := hS.drop (.inr rfl) (.inr ⟨x, hs⟩) ha
      rw [hs] at hdrop
      exact ⟨order, hdrop⟩
    | .inl (.get _) | .inl (.insert _) | .inl (.deactivate _) | .inl (.reply _) | .inr .commit => exact hc.elim

end Serial

/-- There is an order that makes the invariant hold. -/
def Serialized (sha256 : ByteArray → String) (columns : ApiKeyRow → Except Exn Unit) (outage : Exn → Prop) (ops : ι → Operation)
    (start : ApiKeyTable) (h : Steps ι) (db : Keys ι) (g : ι → ι × Operation × Phase) : Prop :=
  ∃ order, Serial sha256 columns outage ops start h order db g

/-- The requests, with nothing open. -/
def arriving (sha256 : ByteArray → String) (ops : ι → Operation) (table : ApiKeyTable) :
    Pool (adminI.tagged ι) Exn ι (Keys ι) where
  world := ⟨table, fun _ => none⟩
  threads i := (request sha256 (ops i)).tagged i

section Run
variable {p : Pool (adminI.tagged ι) Exn ι (Keys ι)}

theorem serialized_start : Serialized sha256 columns outage ops start [] ⟨start, fun _ => none⟩ fun i => (i, ops i, .begun) := by
  refine ⟨[], ?_⟩
  constructor
  case own => exact fun _ => ⟨rfl, rfl⟩
  case committed => exact List.Sublist.slnil
  case once => exact List.nodup_nil
  case confirmed => exact fun i hi => absurd hi List.not_mem_nil
  case counted =>
    intro i hi
    cases hi
  case finished => exact fun i hi => absurd hi List.not_mem_nil
  case table => rfl
  case found => exact fun s hs => absurd hs List.not_mem_nil
  case told => exact fun before i after horder => absurd horder.symm (List.append_ne_nil_of_right_ne_nil _ (List.cons_ne_nil _ _))
  case failed =>
    intro i x hx
    cases hx
  case ready => exact fun _ => rfl
  case replied =>
    intro i outcome hreplied
    cases hreplied
  case last => exact fun i outcome htold => absurd htold List.not_mem_nil
  case apart =>
    intro i j _ w hw
    cases hw

theorem keyWorld_meets : (keyWorld (σ := ι) columns outage).Meets ((client sha256).tagged ι) := by
  rintro w ⟨i, c⟩ a w' ha
  match c with
  | .inl (.reply outcome) => exact ha.1
  | .inl (.get _) | .inl (.insert _) | .inl (.deactivate _) | .inr _ => trivial

omit [DecidableEq ι] in
theorem arriving_obeys (sha256 : ByteArray → String) (ops : ι → Operation) (start : ApiKeyTable) (i : ι) :
    ((arriving sha256 ops start).threads i).Obeys ((client sha256).tagged ι) (fun o x => x.1 = i ∧ Ended (ops i) o x.2)
      (i, ops i, .begun) :=
  (request_obeys (ops i)).tagged i

/-- Where a run has come. -/
theorem serialized_run (hr : Run (keyWorld columns outage) (arriving sha256 ops start) h p) :
    Serialized sha256 columns outage ops start h p.world (watched ((client sha256).tagged ι) (fun i => (i, ops i, .begun)) h) := by
  refine Run.always keyWorld_meets (arriving_obeys sha256 ops start) serialized_start ?_ (fun _ _ _ _ _ he => he.elim) hr
  rintro h w g i ⟨j, c⟩ a w' ⟨order, hS⟩ ⟨hj, hc⟩ ha
  obtain rfl : j = i := hj.trans (hS.own i).1
  have hnext : ((client sha256).tagged ι).next (g j) (j, c) a = (j, (client sha256).next (g j).2 c a) := Prod.ext (hS.own j).1 rfl
  rw [hnext]
  exact hS.command hc ha

/-- How a request that is over has left its phase. -/
theorem ended_run {o : Except Exn Unit} (hr : Run (keyWorld columns outage) (arriving sha256 ops start) h p)
    (ho : p.threads i = .ofExcept o) :
    Ended (ops i) o (watched ((client sha256).tagged ι) (fun i => (i, ops i, .begun)) h i).2 :=
  ((arriving_obeys sha256 ops start i).ends (hr.ends ho) (hr.expected keyWorld_meets i)).2

/-- A request that returned is in the order, and one whose commit was answered. -/
theorem Serial.holds (hS : Serial sha256 columns outage ops start h order p.world
      (watched ((client sha256).tagged ι) (fun i => (i, ops i, .begun)) h))
    (hr : Run (keyWorld columns outage) (arriving sha256 ops start) h p) (i : ι)
    (hi : p.threads i = .ret () ∨ Confirmed h i) : i ∈ order := by
  rcases hi with hret | hconfirmed
  · have hended := ended_run (o := .ok ()) hr hret
    exact hS.counted i (congrArg Prod.snd hended)
  · exact hS.confirmed i hconfirmed

/-- **Admin requests are serializable**: whatever the interleaving and the outages, the table is what
the operations of an `order` make of it one after the other. It is the order of the commits, holds
every request that returned or whose commit was answered, and each of its requests was told what its
operation answers at its place. Every step of the run found the table after a prefix of the order, and
a request that raised, other than by an outage, has changed nothing and raised what its operation
raises, on the table that one of its own steps found or on every table. -/
theorem requests_serializable (hr : Run (keyWorld columns outage) (arriving sha256 ops start) h p) :
    ∃ order : List ι, order.Nodup ∧ order.Sublist (commits h) ∧
      (∀ i, p.threads i = .ret () ∨ Confirmed h i → i ∈ order) ∧
      p.world.table = serial sha256 columns ops start order ∧
      (∀ before i after, order = before ++ i :: after →
        ∀ outcome, Told h i outcome ↔ outcome = (step sha256 columns (serial sha256 columns ops start before) (ops i)).1) ∧
      (∀ s ∈ h, ∃ before, before <+: order ∧ s.before.table = serial sha256 columns ops start before) ∧
      ∀ i x, p.threads i = .raise x → outage x ∨ (i ∉ order ∧ Refused sha256 columns ops h i x) := by
  obtain ⟨order, hS⟩ := serialized_run hr
  refine ⟨order, hS.once, hS.committed, hS.holds hr, hS.table, hS.told, hS.found, fun i x hx => ?_⟩
  · have hended := ended_run (o := .error x) hr hx
    have hfailed := congrArg Prod.snd hended
    by_cases hout : outage x
    · exact .inl hout
    refine .inr ⟨fun hi => ?_, (hS.failed i x hfailed).resolve_left hout⟩
    rcases hS.finished i hi with hover | ⟨y, hover, hy⟩
    · rw [hfailed] at hover
      cases hover
    · rw [hfailed] at hover
      cases hover
      exact hout hy

end Run
end Serial

/-! ### On one run -/

/-- A key is created while another request revokes it. -/
def trialRequests : Bool → Operation
  | true => .create ⟨secondToken, ⟨1⟩, 10⟩ "first" none none
  | false => .revoke ⟨1⟩

def trialKey : ApiKey := ⟨⟨1⟩, issuedHash (generateApiKey secondToken).toUTF8, "first", none, none, true, 10⟩

theorem trialKey_drawn : drawnKey issuedHash ⟨secondToken, ⟨1⟩, 10⟩ "first" none none = .ok trialKey := by
  decide +kernel

/-- The revoke does not see the row that is not committed. -/
theorem trial_serial : ∃ (h : Steps Bool) (p : Pool (adminI.tagged Bool) Exn Bool (Keys Bool)),
    Run (keyWorld trialColumns fun _ => False) (arriving issuedHash trialRequests .empty) h p ∧
      p.threads true = .ret () ∧ p.threads false = .raise apiKeyNotFound := by
  have hcreates : (arriving issuedHash trialRequests .empty).threads true =
      (getSession (((ApiKeyRepo.add trialKey).bind fun _ => .ret (trialKey, generateApiKey secondToken)).bind fun created =>
        @Prog.perform keyI Exn (.reply (.created created.1 created.2))).inl).tagged true := by
    show (request issuedHash (trialRequests true)).tagged true = _
    unfold request
    rw [show endpoint issuedHash (trialRequests true) = _ from endpoint_create trialKey_drawn]
  have hr₀ : Run (keyWorld trialColumns fun _ => False) (arriving issuedHash trialRequests .empty) [] _ := Run.start
  have hr₁ := hr₀.answer true hcreates (.ok ()) _ (.inl ⟨fun _ _ _ hw => (by cases hw), rfl, rfl⟩)
  have hr₂ := hr₁.answer false rfl (.ok none) _ ⟨rfl, .inl rfl⟩
  have hr₃ := hr₂.answer true rfl (.ok ()) _ ⟨rfl, rfl⟩
  have hr₄ := hr₃.answer true rfl (.ok ()) _ (.inl ⟨rfl, rfl⟩)
  have hr₅ := hr₄.answer false rfl (.ok ()) _ ⟨fun e he => (by cases he), rfl⟩
  have hr₆ := hr₅.answer false rfl (.ok ()) _ ⟨fun e he => (by cases he), rfl⟩
  have hr₇ := hr₆.answer true rfl (.ok ()) _ ⟨fun e he => (by cases he), rfl⟩
  exact ⟨_, _, hr₇, rfl, rfl⟩

/-- The key is there, and the revoke has found none. -/
theorem requests_serializable_trial : ∃ (h : Steps Bool) (p : Pool (adminI.tagged Bool) Exn Bool (Keys Bool)) (order : List Bool),
    Run (keyWorld trialColumns fun _ => False) (arriving issuedHash trialRequests .empty) h p ∧ true ∈ order ∧ false ∉ order ∧
      p.world.table = serial issuedHash trialColumns trialRequests .empty order ∧
      Refused issuedHash trialColumns trialRequests h false apiKeyNotFound := by
  obtain ⟨h, p, hr, htrue, hfalse⟩ := trial_serial
  obtain ⟨order, _, _, hin, htable, _, _, hraised⟩ := requests_serializable hr
  obtain ⟨hout, hrefused⟩ := (hraised false _ hfalse).resolve_left id
  exact ⟨h, p, order, hr, hin true (.inl htrue), hout, htable, hrefused⟩

end ApiKeyService
end Relayix
