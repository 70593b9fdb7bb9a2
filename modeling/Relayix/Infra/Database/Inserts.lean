import Mathlib.Data.List.Nodup
import Relayix.Infra.Database.Session
import Relayix.Library.Sessions

/-! Any number of sessions that insert rows (`infra/database/session.py`).

Each request is in a session of its own, and only adds rows. What it inserts is its own until it
commits; an insert that fails leaves the transaction rolled back, and nothing goes through any more
before the session itself is rolled back. Whatever else the requests ask, and whatever interleaving
they run in, the committed rows are those of the committed requests, in the order of their commits,
and all that each of them has inserted. -/
namespace Relayix
open Library

/-- The committed rows, and those that each session has inserted, or `none` where its transaction is
rolled back and the session is not. -/
structure Books (σ Row : Type) where
  rows : List Row
  open? : σ → Option (List Row)

namespace Books
variable {σ Row : Type} [DecidableEq σ] (db : Books σ Row) (s : σ)

def put (rows : Option (List Row)) : Books σ Row := { db with open? := Function.update db.open? s rows }

/-- The session starts anew. -/
def drop : Books σ Row := db.put s (some [])

def publish (rows : List Row) : Books σ Row := { db.drop s with rows := db.rows ++ rows }

end Books

variable {I : Interface} {σ W Row : Type}

/-- The database, among surroundings of any kind. Any command may fail, and a commit that fails by an
`outage` may have taken place. -/
def booksWorld [DecidableEq σ] (U : World (I.tagged σ) Exn W) (outage : Exn → Prop) :
    World ((I.sum (sessionI Row)).tagged σ) Exn (W × Books σ Row) where
  answers
    | (w, db), (s, .inl c), a, (w', db') => U.answers w (s, c) a w' ∧ db' = db
    | (w, db), (s, .inr (.flush row)), a, (w', db') => w' = w ∧
        ((∃ rows, db.open? s = some rows ∧ a = .ok () ∧ db' = db.put s (some (rows ++ [row]))) ∨
          ∃ e, a = .error e ∧ db' = db.put s none)
    | (w, db), (s, .inr .commit), a, (w', db') => w' = w ∧
        ((∃ rows, db.open? s = some rows ∧ a = .ok () ∧ db' = db.publish s rows) ∨
          ∃ e, a = .error e ∧ outage e ∧ (db' = db ∨ db' = db.put s none ∨ ∃ rows, db.open? s = some rows ∧ db' = db.publish s rows))
    | (w, db), (s, .inr .rollback), a, (w', db') | (w, db), (s, .inr .close), a, (w', db') =>
        w' = w ∧ (∀ e, a = .error e → outage e) ∧ db' = db.drop s
  elapses
    | (w, db), (w', db') => U.elapses w w' ∧ db' = db

/-! ### One request -/

/-- Whether the transaction of a request has ended, and how. -/
inductive Txn where
  | opened
  | committed
  /-- its commit has failed -/
  | uncertain
  | dropped
  deriving DecidableEq

/-- The session of one request: inserts, and then one commit or none. -/
def transaction (I : Interface) (Row : Type) (outage : Exn → Prop) : Monitor (I.sum (sessionI Row)) Exn Txn where
  next
    | .opened, .inr .commit, .ok _ => .committed
    | .opened, .inr .commit, .error _ => .uncertain
    | .opened, .inr .rollback, _ | .opened, .inr .close, _ => .dropped
    | s, _, _ => s
  allowed
    | .opened, _ => True
    | .uncertain, .inr .rollback | .dropped, .inr .rollback => True
    | _, .inr .close => True
    | _, _ => False
  expects
    | .inl _, _ | .inr (.flush _), _ => True
    | .inr _, a => ∀ e, a = .error e → outage e

/-- An endpoint that adds rows, and leaves the transaction to `getSession`. -/
def Inserts : (I.sum (sessionI Row)).Cmd → Prop
  | .inl _ | .inr (.flush _) => True
  | .inr _ => False

/-- How a request ends. -/
def Closes (outage : Exn → Prop) {α : Type} (o : Except Exn α) (s : Txn) : Prop :=
  match o with
  | .ok _ => s = .committed
  | .error e => s = .dropped ∨ outage e

section Request
variable {α : Type} {outage : Exn → Prop} {endpoint : Prog (I.sum (sessionI Row)) Exn α}

theorem inserts_obeys {p : Prog (I.sum (sessionI Row)) Exn α} (h : p.Asks Inserts) :
    p.Obeys (transaction I Row outage) (fun _ s => s = .opened) .opened := by
  induction p with
  | ret a => rfl
  | raise e => rfl
  | await c k ih =>
    cases c with
    | inl c => exact ⟨trivial, fun a _ => ih a (h.2 a trivial)⟩
    | inr c =>
      cases c with
      | flush row => exact ⟨trivial, fun a _ => ih a (h.2 a trivial)⟩
      | commit => exact h.1.elim
      | rollback => exact h.1.elim
      | close => exact h.1.elim

/-- When the endpoint, and the commit after it, have ended. -/
def Ran (outage : Exn → Prop) (o : Except Exn α) (s : Txn) : Prop :=
  match o with
  | .ok _ => s = .committed
  | .error e => s = .opened ∨ (s = .uncertain ∧ outage e)

/-- Before the session is closed. -/
def Decided (outage : Exn → Prop) (o : Except Exn α) (s : Txn) : Prop :=
  match o with
  | .ok _ => s = .committed
  | .error e => s = .opened ∨ s = .dropped ∨ (s = .uncertain ∧ outage e)

theorem rollback_obeys {e : Exn} {s : Txn} (h : s = .opened ∨ (s = .uncertain ∧ outage e)) :
    (do
      (if e.isException then session .rollback else pure ())
      .raise e : Prog (I.sum (sessionI Row)) Exn α).Obeys (transaction I Row outage) (Decided outage) s := by
  have left : Decided (α := α) outage (.error e) s := by
    rcases h with rfl | ⟨rfl, he⟩
    · exact .inl rfl
    · exact .inr (.inr ⟨rfl, he⟩)
  cases e.isException with
  | false => exact left
  | true =>
    refine ⟨?_, fun a ha => ?_⟩
    · rcases h with rfl | ⟨rfl, _⟩ <;> trivial
    · cases a with
      | ok _ =>
        rcases h with rfl | ⟨rfl, he⟩
        · exact Or.inr (.inl rfl)
        · exact Or.inr (.inr ⟨rfl, he⟩)
      | error e' =>
        rcases h with rfl | ⟨rfl, _⟩
        · exact Or.inr (.inl rfl)
        · exact Or.inr (.inr ⟨rfl, ha e' rfl⟩)

theorem close_obeys {o : Except Exn α} {s : Txn} (h : Decided outage o s) :
    (session .close : Prog (I.sum (sessionI Row)) Exn Unit).Obeys (transaction I Row outage)
      (fun r s => Closes outage (r.bind fun _ => o) s) s := by
  refine Prog.Obeys.perform ?_ fun a ha => ?_
  · cases s <;> trivial
  · cases a with
    | error e => exact Or.inr (ha e rfl)
    | ok _ =>
      cases o with
      | ok x =>
        obtain rfl : s = .committed := h
        rfl
      | error e =>
        rcases h with rfl | rfl | ⟨rfl, he⟩
        · exact Or.inl rfl
        · exact Or.inl rfl
        · exact Or.inr he

/-- **One request**: it commits where its endpoint returned, and nothing where it raised. -/
theorem getSession_obeys (h : endpoint.Asks Inserts) :
    (getSession endpoint).Obeys (transaction I Row outage) (Closes outage) .opened := by
  refine Prog.Obeys.tryFinally (Q := Decided outage) ?_ fun o s hs => close_obeys hs
  have body : (do
      let result ← endpoint
      session .commit
      pure result : Prog (I.sum (sessionI Row)) Exn α).Obeys (transaction I Row outage)
        (Ran outage) .opened := by
    refine Prog.Obeys.bind (inserts_obeys h) (fun x s hs => ?_) fun e s hs => Or.inl hs
    subst hs
    refine ⟨trivial, fun a ha => ?_⟩
    cases a with
    | ok _ => rfl
    | error e => exact Or.inr ⟨rfl, ha e rfl⟩
  exact Prog.Obeys.tryExcept body (fun _ _ hs => hs) fun e s hs => rollback_obeys hs

end Request

/-! ### Any number of requests -/

section Runs
variable {ι : Type} [DecidableEq ι]

/-- The steps of requests that each have a session, their own. -/
abbrev Postings (I : Interface) (ι W Row : Type) := List (Step ((I.sum (sessionI Row)).tagged ι) Exn ι (W × Books ι Row))

def askedCommit : Step ((I.sum (sessionI Row)).tagged ι) Exn ι (W × Books ι Row) → Option ι
  | ⟨_, i, ⟨(_, .inr .commit), _⟩⟩ => some i
  | _ => none

/-- The requests that asked for their commit, in that order. -/
def commitOrder (h : Postings I ι W Row) : List ι := h.filterMap askedCommit

def flushedRow : Event ((I.sum (sessionI Row)).tagged ι) Exn → Option Row
  | ⟨(_, .inr (.flush row)), .ok _⟩ => some row
  | _ => none

/-- The rows that a request has inserted. -/
def flushed (t : Trace ((I.sum (sessionI Row)).tagged ι) Exn) : List Row := t.filterMap flushedRow

omit [DecidableEq ι] in
theorem flushed_snoc (t : Trace ((I.sum (sessionI Row)).tagged ι) Exn) (e : Event ((I.sum (sessionI Row)).tagged ι) Exn) :
    flushed (t ++ [e]) = flushed t ++ (flushedRow e).toList := by
  rw [flushed, List.filterMap_append]
  cases hrow : flushedRow e <;> simp [flushed, hrow]

/-- Its commit was answered. -/
def CommitAnswered (h : Postings I ι W Row) (i : ι) : Prop := ⟨(i, .inr .commit), .ok ()⟩ ∈ log i h

/-- **The invariant**: the committed rows are those of `order`, and an open transaction holds what its
request has inserted. -/
structure Accounted (start : List Row) (h : Postings I ι W Row) (order : List ι) (db : Books ι Row) (g : ι → ι × Txn) : Prop where
  own : ∀ i, (g i).1 = i
  inOrder : order.Sublist (commitOrder h)
  once : order.Nodup
  counted : ∀ i, (g i).2 = .committed → i ∈ order
  answered : ∀ i, CommitAnswered h i → i ∈ order
  finished : ∀ i ∈ order, (g i).2 = .committed ∨ (g i).2 = .uncertain
  rows : db.rows = start ++ order.flatMap fun i => flushed (log i h)
  opened : ∀ i, (g i).2 = .opened → ∀ rows, db.open? i = some rows → rows = flushed (log i h)

variable {start : List Row} {h : Postings I ι W Row} {order : List ι} {w : W} {db db' : Books ι Row} {g : ι → ι × Txn} {i j : ι}
  {e : Event (I.sum (sessionI Row)) Exn} {s' : Txn}

theorem flushed_snoc_self :
    flushed (log i (h ++ [⟨(w, db), i, e.tag i⟩])) = flushed (log i h) ++ (flushedRow (e.tag i)).toList := by
  have hlog : log i (h ++ [⟨(w, db), i, e.tag i⟩]) = log i h ++ [e.tag i] := log_snoc_self h ⟨(w, db), i, e.tag i⟩
  rw [hlog, flushed_snoc]

theorem flushed_snoc_of_ne (hj : j ≠ i) : flushed (log j (h ++ [⟨(w, db), i, e.tag i⟩])) = flushed (log j h) := by
  rw [log_snoc_of_ne h (s := ⟨(w, db), i, e.tag i⟩) hj.symm]

theorem commitAnswered_snoc : CommitAnswered (h ++ [⟨(w, db), i, e.tag i⟩]) j ↔
    CommitAnswered h j ∨ (i = j ∧ e = ⟨.inr .commit, .ok ()⟩) := by
  simp only [CommitAnswered, mem_log, List.mem_append, List.mem_singleton, or_and_right, exists_or, exists_eq_left]
  refine or_congr_right ?_
  constructor
  · rintro ⟨rfl, he⟩
    cases e
    cases he
    exact ⟨rfl, rfl⟩
  · rintro ⟨rfl, rfl⟩
    exact ⟨rfl, rfl⟩

namespace Accounted
variable (hA : Accounted start h order db g)
include hA

theorem own_update (i : ι) (s' : Txn) (j : ι) : (Function.update g i (i, s') j).1 = j := by
  by_cases hj : j = i
  · rw [hj, Function.update_self]
  · rw [Function.update_of_ne hj]
    exact hA.own j

/-- A step that commits nothing. -/
theorem quiet (hcommit : e ≠ ⟨.inr .commit, .ok ()⟩) (hrows : db'.rows = db.rows) (hopen : ∀ j, j ≠ i → db'.open? j = db.open? j)
    (hflush : (g i).2 ≠ .opened → flushedRow (e.tag i) = none) (hcounted : s' = .committed → (g i).2 = .committed)
    (hfinished : (g i).2 = .committed ∨ (g i).2 = .uncertain → s' = (g i).2)
    (hopened : s' = .opened → ∀ rows, db'.open? i = some rows → rows = flushed (log i h) ++ (flushedRow (e.tag i)).toList) :
    Accounted start (h ++ [⟨(w, db), i, e.tag i⟩]) order db' (Function.update g i (i, s')) where
  own := hA.own_update i s'
  inOrder := by
    unfold commitOrder
    rw [List.filterMap_append]
    exact hA.inOrder.trans (List.sublist_append_left _ _)
  once := hA.once
  counted j hj := by
    by_cases hji : j = i
    · rw [hji, Function.update_self] at hj
      rw [hji]
      exact hA.counted i (hcounted hj)
    · rw [Function.update_of_ne hji] at hj
      exact hA.counted j hj
  answered j hj := (commitAnswered_snoc.mp hj).elim (hA.answered j) fun hc => absurd hc.2 hcommit
  finished j hj := by
    have hfinal := hA.finished j hj
    by_cases hji : j = i
    · rw [hji] at hfinal ⊢
      rw [Function.update_self, hfinished hfinal]
      exact hfinal
    · rw [Function.update_of_ne hji]
      exact hfinal
  rows := by
    rw [hrows, hA.rows]
    refine congrArg (start ++ ·) (List.flatMap_congr fun j hj => ?_)
    by_cases hji : j = i
    · have hfinal := hA.finished j hj
      rw [hji] at hfinal ⊢
      have hnone := hflush fun hopen => by rw [hopen] at hfinal; rcases hfinal with hfinal | hfinal <;> cases hfinal
      rw [flushed_snoc_self, hnone]
      exact (List.append_nil _).symm
    · exact (flushed_snoc_of_ne hji).symm
  opened j hj rows hrows := by
    by_cases hji : j = i
    · rw [hji, Function.update_self] at hj
      rw [hji] at hrows ⊢
      rw [flushed_snoc_self]
      exact hopened hj rows hrows
    · rw [Function.update_of_ne hji] at hj
      rw [hopen j hji] at hrows
      rw [flushed_snoc_of_ne hji]
      exact hA.opened j hj rows hrows

/-- A commit that takes place. -/
theorem publish {rows : List Row} (hs : (g i).2 = .opened) (hcmd : e.cmd = .inr .commit) (hrows : db.open? i = some rows)
    (hs' : s' = .committed ∨ s' = .uncertain) :
    Accounted start (h ++ [⟨(w, db), i, e.tag i⟩]) (order ++ [i]) (db.publish i rows) (Function.update g i (i, s')) := by
  have hfresh : i ∉ order := by
    intro hi
    have hfinal := hA.finished i hi
    rw [hs] at hfinal
    rcases hfinal with hfinal | hfinal <;> cases hfinal
  have hnone : flushedRow (e.tag i) = none := by
    obtain ⟨c, a⟩ := e
    cases hcmd
    rfl
  have hsame : ∀ j, flushed (log j (h ++ [⟨(w, db), i, e.tag i⟩])) = flushed (log j h) := by
    intro j
    by_cases hji : j = i
    · rw [hji, flushed_snoc_self, hnone]
      exact List.append_nil _
    · exact flushed_snoc_of_ne hji
  constructor
  case own => exact hA.own_update i s'
  case inOrder =>
    have horder : commitOrder (h ++ [⟨(w, db), i, e.tag i⟩]) = commitOrder h ++ [i] := by
      unfold commitOrder
      obtain ⟨c, a⟩ := e
      cases hcmd
      rw [List.filterMap_append]
      rfl
    rw [horder]
    exact hA.inOrder.append_right _
  case once => exact hA.once.append (List.nodup_singleton i) (List.disjoint_singleton.mpr hfresh)
  case counted =>
    intro j hj
    by_cases hji : j = i
    · rw [hji]
      exact List.mem_append_right _ List.mem_cons_self
    · rw [Function.update_of_ne hji] at hj
      exact List.mem_append_left _ (hA.counted j hj)
  case answered =>
    intro j hj
    rcases commitAnswered_snoc.mp hj with hj | ⟨rfl, _⟩
    · exact List.mem_append_left _ (hA.answered j hj)
    · exact List.mem_append_right _ List.mem_cons_self
  case finished =>
    intro j hj
    by_cases hji : j = i
    · rw [hji, Function.update_self]
      exact hs'
    · rw [Function.update_of_ne hji]
      exact hA.finished j ((List.mem_append.mp hj).resolve_right fun hi => hji (List.mem_singleton.mp hi))
  case rows =>
    have hown : rows = flushed (log i h) := hA.opened i hs rows hrows
    show db.rows ++ rows = _
    simp only [hsame, List.flatMap_append, List.flatMap_singleton]
    rw [hA.rows, hown, List.append_assoc]
  case opened =>
    intro j hj rows' hrows'
    by_cases hji : j = i
    · rw [hji, Function.update_self] at hj
      rcases hs' with rfl | rfl <;> cases hj
    · rw [Function.update_of_ne hji] at hj
      have hopen : (db.publish i rows).open? j = db.open? j := Function.update_of_ne hji _ _
      rw [hopen] at hrows'
      rw [hsame]
      exact hA.opened j hj rows' hrows'

/-- A step of a request whose transaction is open, and that commits nothing. -/
theorem early (hs : (g i).2 = .opened) (hcommit : e ≠ ⟨.inr .commit, .ok ()⟩) (hrows : db'.rows = db.rows)
    (hopen : ∀ j, j ≠ i → db'.open? j = db.open? j) (hs' : s' ≠ .committed)
    (hopened : s' = .opened → ∀ rows, db'.open? i = some rows → rows = flushed (log i h) ++ (flushedRow (e.tag i)).toList) :
    Accounted start (h ++ [⟨(w, db), i, e.tag i⟩]) order db' (Function.update g i (i, s')) := by
  refine hA.quiet hcommit hrows hopen (fun hn => absurd hs hn) (fun hc => absurd hc hs') (fun hfinal => ?_) hopened
  rw [hs] at hfinal
  rcases hfinal with hfinal | hfinal <;> cases hfinal

/-- The session is rolled back or closed. -/
theorem drop {c : SessionCmd Row} {a : Except Exn Unit} (outage : Exn → Prop) (hc : c = .rollback ∨ c = .close) :
    Accounted start (h ++ [⟨(w, db), i, Event.tag i ⟨.inr c, a⟩⟩]) order (db.drop i)
      (Function.update g i (i, (transaction I Row outage).next (g i).2 (.inr c) a)) := by
  have hnone : flushedRow (Event.tag i (⟨.inr c, a⟩ : Event (I.sum (sessionI Row)) Exn)) = none := by
    rcases hc with rfl | rfl <;> rfl
  have hcommit : (⟨.inr c, a⟩ : Event (I.sum (sessionI Row)) Exn) ≠ ⟨.inr .commit, .ok ()⟩ := by
    intro he
    rcases hc with rfl | rfl <;> cases he
  have hopen : ∀ j, j ≠ i → (db.drop i).open? j = db.open? j := fun j hj => Function.update_of_ne hj _ _
  cases hs : (g i).2 with
  | opened =>
    have hnext : (transaction I Row outage).next .opened (.inr c) a = .dropped := by
      rcases hc with rfl | rfl <;> rfl
    rw [hnext]
    exact hA.early hs hcommit rfl hopen (fun hn => by cases hn) fun hn => by cases hn
  | committed | uncertain | dropped =>
    have hnext : ∀ s, s ≠ .opened → (transaction I Row outage).next s (.inr c) a = s := by
      intro s hs
      cases s <;> first | exact absurd rfl hs | rfl
    rw [hnext _ (fun hn => by cases hn), ← hs]
    exact hA.quiet hcommit rfl hopen (fun _ => hnone) id (fun _ => rfl) fun hn => by rw [hs] at hn; cases hn

/-- **One step.** -/
theorem command {U : World (I.tagged ι) Exn W} {outage : Exn → Prop} {c : (I.sum (sessionI Row)).Cmd}
    {a : Except Exn ((I.sum (sessionI Row)).Ans c)} {w' : W} (hc : (transaction I Row outage).allowed (g i).2 c)
    (ha : (booksWorld U outage).answers (w, db) (i, c) a (w', db')) :
    ∃ order', Accounted start (h ++ [⟨(w, db), i, Event.tag i ⟨c, a⟩⟩]) order' db'
      (Function.update g i (i, (transaction I Row outage).next (g i).2 c a)) := by
  match c with
  | .inl c =>
    obtain ⟨_, rfl⟩ := ha
    have hnext : (transaction I Row outage).next (g i).2 (.inl c) a = (g i).2 := by cases (g i).2 <;> rfl
    rw [hnext]
    refine ⟨order, hA.quiet (fun he => by cases he) rfl (fun _ _ => rfl) (fun _ => rfl) id (fun _ => rfl) fun hs rows hrows => ?_⟩
    exact (hA.opened i hs rows hrows).trans (List.append_nil _).symm
  | .inr (.flush row) =>
    have hs : (g i).2 = .opened := by
      revert hc
      cases (g i).2 <;> first | exact fun _ => rfl | exact False.elim
    have hopen : ∀ rows j, j ≠ i → (db.put i rows).open? j = db.open? j := fun rows j hj => Function.update_of_ne hj _ _
    have hput : ∀ rows, (db.put i rows).open? i = rows := fun rows => Function.update_self ..
    rw [hs]
    obtain ⟨rfl, ⟨rows, hrows, rfl, rfl⟩ | ⟨x, rfl, rfl⟩⟩ := ha
    · refine ⟨order, hA.early hs (fun he => by cases he) rfl (hopen _) (fun hn => by cases hn) fun _ rows' hrows' => ?_⟩
      rw [hput] at hrows'
      rw [← Option.some.inj hrows', hA.opened i hs rows hrows]
      rfl
    · refine ⟨order, hA.early hs (fun he => by cases he) rfl (hopen _) (fun hn => by cases hn) fun _ rows' hrows' => ?_⟩
      rw [hput] at hrows'
      cases hrows'
  | .inr .commit =>
    have hs : (g i).2 = .opened := by
      revert hc
      cases (g i).2 <;> first | exact fun _ => rfl | exact False.elim
    rw [hs]
    obtain ⟨rfl, ⟨rows, hrows, rfl, rfl⟩ | ⟨x, rfl, _, hdb⟩⟩ := ha
    · exact ⟨_, hA.publish hs rfl hrows (.inl rfl)⟩
    · rcases hdb with rfl | rfl | ⟨rows, hrows, rfl⟩
      · exact ⟨order, hA.early hs (fun he => by cases he) rfl (fun _ _ => rfl) (fun hn => by cases hn) fun hn => by cases hn⟩
      · exact ⟨order, hA.early hs (fun he => by cases he) rfl (fun j hj => Function.update_of_ne hj _ _) (fun hn => by cases hn)
          fun hn => by cases hn⟩
      · exact ⟨_, hA.publish hs rfl hrows (.inr rfl)⟩
  | .inr .rollback =>
    obtain ⟨rfl, _, rfl⟩ := ha
    exact ⟨order, hA.drop outage (.inl rfl)⟩
  | .inr .close =>
    obtain ⟨rfl, _, rfl⟩ := ha
    exact ⟨order, hA.drop outage (.inr rfl)⟩

end Accounted

/-- The request in its session, its result dropped. -/
def inSession {α : Type} (endpoint : Prog (I.sum (sessionI Row)) Exn α) : Prog (I.sum (sessionI Row)) Exn Unit :=
  (getSession endpoint).bind fun _ => .ret ()

/-- A monitor that lets every session end is kept to in a session. -/
theorem inSession_keeps {α σ : Type} {M : Monitor (I.sum (sessionI Row)) Exn σ} {e : Prog (I.sum (sessionI Row)) Exn α} {s : σ}
    (hends : ∀ s c, (∀ row, c ≠ .flush row) → M.allowed s (.inr c)) (h : e.Obeys M (fun _ _ => True) s) :
    (inSession e).Obeys M (fun _ _ => True) s := by
  have ending : ∀ c s, (∀ row, c ≠ .flush row) → (session c).Obeys M (fun _ _ => True) s :=
    fun c s hc => Prog.Obeys.perform (hends s c hc) fun _ _ => trivial
  apply Prog.Obeys.bind (Q := fun _ _ => True)
  · apply Prog.Obeys.tryFinally (Q := fun _ _ => True)
    · apply Prog.Obeys.tryExcept (Q := fun _ _ => True)
      · apply Prog.Obeys.bind h
        · exact fun _ s _ => Prog.Obeys.bind (ending .commit s fun row h => by cases h) (fun _ _ _ => trivial) fun _ _ _ => trivial
        · exact fun _ _ _ => trivial
      · exact fun _ _ _ => trivial
      · intro e s _
        split
        · exact Prog.Obeys.bind (ending .rollback s fun row h => by cases h) (fun _ _ _ => trivial) fun _ _ _ => trivial
        · trivial
    · exact fun _ s _ => ending .close s fun row h => by cases h
  · exact fun _ _ _ => trivial
  · exact fun _ _ _ => trivial

/-- Requests that begin, with nothing inserted. -/
def beginning {α : Type} (endpoint : ι → Prog (I.sum (sessionI Row)) Exn α) (w : W) (rows : List Row) :
    Pool ((I.sum (sessionI Row)).tagged ι) Exn ι (W × Books ι Row) where
  world := (w, ⟨rows, fun _ => some []⟩)
  threads i := (inSession (endpoint i)).tagged i

section Ledgers
variable {α : Type} {endpoint : ι → Prog (I.sum (sessionI Row)) Exn α} {U : World (I.tagged ι) Exn W} {outage : Exn → Prop}
  {p : Pool ((I.sum (sessionI Row)).tagged ι) Exn ι (W × Books ι Row)}

theorem inSession_obeys {e : Prog (I.sum (sessionI Row)) Exn α} (h : e.Asks Inserts) :
    (inSession e).Obeys (transaction I Row outage) (Closes outage) .opened :=
  Prog.Obeys.bind (getSession_obeys h) (fun _ _ hs => hs) fun _ _ hs => hs

theorem booksWorld_meets : World.Meets (W := W × Books ι Row) (booksWorld U outage) ((transaction I Row outage).tagged ι) := by
  rintro ⟨w, db⟩ ⟨i, c⟩ a ⟨w', db'⟩ ha
  match c with
  | .inl _ | .inr (.flush _) => trivial
  | .inr .commit =>
    obtain ⟨_, ⟨_, _, rfl, _⟩ | ⟨x, rfl, hx, _⟩⟩ := ha
    · exact fun e he => by cases he
    · exact fun e he => by cases he; exact hx
  | .inr .rollback | .inr .close => exact ha.2.1

/-- There is an order that makes the invariant hold. -/
def Ordered (start : List Row) (h : Postings I ι W Row) (x : W × Books ι Row) (g : ι → ι × Txn) : Prop :=
  ∃ order, Accounted start h order x.2 g

/-- Where a run has come. -/
theorem accounted_run {w₀ : W} (hins : ∀ i, (endpoint i).Asks Inserts)
    (hr : Run (booksWorld U outage) (beginning endpoint w₀ start) h p) :
    Ordered start h p.world (watched ((transaction I Row outage).tagged ι) (fun i => (i, .opened)) h) := by
  have hobeys : ∀ i, ((beginning endpoint w₀ start).threads i).Obeys ((transaction I Row outage).tagged ι)
      (fun o x => x.1 = i ∧ Closes outage o x.2) (i, .opened) := fun i => (inSession_obeys (hins i)).tagged i
  have hstart : Ordered (W := W) (I := I) start [] (w₀, ⟨start, fun _ => some []⟩) fun i : ι => (i, .opened) := by
    refine ⟨[], ?_⟩
    constructor
    case own => exact fun _ => rfl
    case inOrder => exact List.Sublist.slnil
    case once => exact List.nodup_nil
    case counted =>
      intro i hi
      cases hi
    case answered => exact fun i hi => absurd hi List.not_mem_nil
    case finished => exact fun i hi => absurd hi List.not_mem_nil
    case rows => exact (List.append_nil start).symm
    case opened =>
      intro i _ rows hrows
      exact (Option.some.inj hrows).symm
  refine Run.always booksWorld_meets hobeys hstart ?_ ?_ hr
  · rintro h ⟨w, db⟩ g i ⟨j, c⟩ a ⟨w', db'⟩ ⟨order, hA⟩ ⟨hj, hc⟩ ha
    obtain rfl : j = i := hj.trans (hA.own i)
    have hnext : ((transaction I Row outage).tagged ι).next (g j) (j, c) a = (j, (transaction I Row outage).next (g j).2 c a) :=
      Prod.ext (hA.own j) rfl
    rw [hnext]
    exact hA.command hc ha
  · rintro h ⟨w, db⟩ g ⟨w', db'⟩ hA ⟨_, rfl⟩
    exact hA

/-- **The committed rows** at any moment of any run: those that were there, and those of the requests of
an `order`, each with all that it has inserted. It is the order of the commits, and holds every request
that returned or whose commit was answered, and none that raised, unless by an outage. -/
theorem rows_committed {w₀ : W} (hins : ∀ i, (endpoint i).Asks Inserts)
    (hr : Run (booksWorld U outage) (beginning endpoint w₀ start) h p) :
    ∃ order : List ι, order.Nodup ∧ order.Sublist (commitOrder h) ∧
      (∀ i, p.threads i = .ret () ∨ CommitAnswered h i → i ∈ order) ∧
      (∀ i e, p.threads i = .raise e → ¬ outage e → i ∉ order) ∧
      p.world.2.rows = start ++ order.flatMap fun i => flushed (log i h) := by
  obtain ⟨order, hA⟩ := accounted_run hins hr
  have hclosed : ∀ i o, p.threads i = .ofExcept o →
      Closes outage o (watched ((transaction I Row outage).tagged ι) (fun i => (i, .opened)) h i).2 := by
    intro i o ho
    have hobeys : ((beginning endpoint w₀ start).threads i).Obeys ((transaction I Row outage).tagged ι)
        (fun o x => x.1 = i ∧ Closes outage o x.2) (i, .opened) := (inSession_obeys (hins i)).tagged i
    exact (hobeys.ends (hr.ends ho) (hr.expected booksWorld_meets i)).2
  refine ⟨order, hA.once, hA.inOrder, fun i hi => ?_, fun i e hraised hout hi => ?_, hA.rows⟩
  · rcases hi with hret | hanswered
    · exact hA.counted i (hclosed i (.ok ()) hret)
    · exact hA.answered i hanswered
  · have hdropped := (hclosed i (.error e) hraised).resolve_right hout
    have hfinal := hA.finished i hi
    rw [hdropped] at hfinal
    rcases hfinal with hfinal | hfinal <;> cases hfinal

end Ledgers

/-! ### Turns of requests -/

section Turns
variable {U : World (I.tagged ι) Exn W} {outage : Exn → Prop} {V : World ((I.sum (sessionI Row)).tagged ι) Exn (W × Books ι Row)}
  {w : W} {db : Books ι Row} {i : ι} {rows : List Row}

/-- A row is inserted, and how a session ends. -/
abbrev inserting (row : Row) : Trace (I.sum (sessionI Row)) Exn := [⟨.inr (.flush row), .ok ()⟩]
abbrev committing : Trace (I.sum (sessionI Row)) Exn := [⟨.inr .commit, .ok ()⟩, ⟨.inr .close, .ok ()⟩]
abbrev abandoning : Trace (I.sum (sessionI Row)) Exn := [⟨.inr .rollback, .ok ()⟩, ⟨.inr .close, .ok ()⟩]

/-- `V` answers what the database does while its surroundings stay as they are. -/
def BooksAt (U : World (I.tagged ι) Exn W) (outage : Exn → Prop) (V : World ((I.sum (sessionI Row)).tagged ι) Exn (W × Books ι Row))
    (w : W) : Prop :=
  ∀ db c a db', (booksWorld U outage).answers (w, db) c a (w, db') → V.answers (w, db) c a (w, db')

theorem turn_outer (hV : BooksAt U outage V w) {t : Trace I Exn} (ht : ∀ e ∈ t, U.answers w (i, e.cmd) e.answer w) :
    V.Gives (w, db) ((turn i (t.map Event.inl)).map Prod.snd) (w, db) := by
  refine turn_steady fun e he => ?_
  obtain ⟨x, hx, rfl⟩ := List.mem_map.mp he
  exact hV db (i, .inl x.cmd) x.answer db ⟨ht x hx, rfl⟩

theorem turn_flush (hV : BooksAt U outage V w) (hopen : db.open? i = some rows) (row : Row) :
    V.Gives (w, db) ((turn i (inserting row)).map Prod.snd) (w, db.put i (some (rows ++ [row]))) :=
  .command (hV _ _ _ _ ⟨rfl, .inl ⟨rows, hopen, rfl, rfl⟩⟩) (.done _)

theorem turn_returned (hV : BooksAt U outage V w) (hopen : db.open? i = some rows) :
    V.Gives (w, db) ((turn i committing).map Prod.snd) (w, (db.publish i rows).drop i) := by
  have hcommit := hV db (i, .inr .commit) (.ok ()) (db.publish i rows) ⟨rfl, .inl ⟨rows, hopen, rfl, rfl⟩⟩
  have hclose := hV (db.publish i rows) (i, .inr .close) (.ok ()) _ ⟨rfl, fun e he => (by cases he), rfl⟩
  exact .command hcommit (.command hclose (.done _))

theorem turn_raised (hV : BooksAt U outage V w) :
    V.Gives (w, db) ((turn i abandoning).map Prod.snd) (w, (db.drop i).drop i) := by
  have hrollback := hV db (i, .inr .rollback) (.ok ()) _ ⟨rfl, fun e he => (by cases he), rfl⟩
  have hclose := hV (db.drop i) (i, .inr .close) (.ok ()) _ ⟨rfl, fun e he => (by cases he), rfl⟩
  exact .command hrollback (.command hclose (.done _))

end Turns
end Runs
end Relayix
