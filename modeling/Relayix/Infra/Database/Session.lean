import Relayix.Core.Exceptions

/-! The database session of a request (`infra/database/session.py`).

A request has one session, opened around its endpoint: FastAPI resumes `get_session` where the
endpoint returned, and raises the endpoint's exception in it. `Postgres` is the table that the
session's commands write to, for rows of any kind. -/
namespace Relayix
open Library

variable {Row α : Type}

inductive SessionCmd (Row : Type) where
  /-- the rows that were added are inserted -/
  | flush (row : Row)
  | commit
  | rollback
  | close

@[reducible] def sessionI (Row : Type) : Interface := ⟨SessionCmd Row, fun _ => Unit⟩

variable {I : Interface}

def session (c : SessionCmd Row) : Prog (I.sum (sessionI Row)) Exn Unit :=
  @Prog.perform (I.sum (sessionI Row)) Exn (.inr c)

/-- `get_session` around an endpoint. -/
def getSession (endpoint : Prog (I.sum (sessionI Row)) Exn α) : Prog (I.sum (sessionI Row)) Exn α :=
  Prog.tryFinally
    (Prog.tryExcept
      (do
        let result ← endpoint
        session .commit
        pure result)
      fun e => do
        (if e.isException then session .rollback else pure ())
        .raise e)
    (session .close)

/-- The rows that are committed, and those of the open transaction. -/
structure Postgres (Row : Type) where
  rows : List Row
  pending : List Row

namespace Postgres

def exec (db : Postgres Row) : SessionCmd Row → Postgres Row
  | .flush row => { db with pending := db.pending ++ [row] }
  | .commit => ⟨db.rows ++ db.pending, []⟩
  | .rollback => { db with pending := [] }
  | .close => { db with pending := [] }

/-- After commands that were all answered. -/
def after (db : Postgres Row) (t : Trace (sessionI Row) Exn) : Postgres Row :=
  t.foldl (fun db e => db.exec e.cmd) db

/-- The rows once an endpoint has ended so: what it had inserted is committed if it returned. -/
def ended (db : Postgres Row) : Except Exn α → List Row
  | .ok _ => db.rows ++ db.pending
  | .error _ => db.rows

@[simp] theorem after_nil (db : Postgres Row) : db.after [] = db := rfl

theorem after_append (db : Postgres Row) (s t : Trace (sessionI Row) Exn) :
    db.after (s ++ t) = (db.after s).after t :=
  List.foldl_append ..

end Postgres

theorem session_ends {c : SessionCmd Row} {t : Trace (I.sum (sessionI Row)) Exn} {o : Except Exn Unit} :
    Ends (session c) t o ↔ t = [⟨.inr c, o⟩] := ends_perform

/-- What a request commits, where its session's commands are answered: what its endpoint had
inserted, if it returned, and nothing if it raised. -/
theorem getSession_ends {endpoint : Prog (I.sum (sessionI Row)) Exn α} {t : Trace (I.sum (sessionI Row)) Exn}
    {o : Except Exn α} (h : Ends (getSession endpoint) t o) (hok : ∀ x ∈ rights t, x.answer = .ok ()) :
    ∃ s, Ends endpoint s o ∧ lefts t = lefts s ∧ (∀ x ∈ rights s, x.answer = .ok ()) ∧
      ∀ db : Postgres Row, (db.after (rights t)).rows = (db.after (rights s)).ended o := by
  obtain ⟨r, v₁, v₂, rfl, hbody, hclose⟩ := ends_tryFinally.mp h
  rw [rights_append] at hok
  have closed : v₂ = [⟨.inr .close, .ok ()⟩] ∧ o = r := by
    rcases hclose with ⟨hclose, rfl⟩ | ⟨e, hclose, _⟩
    · exact ⟨session_ends.mp hclose, rfl⟩
    · rw [session_ends.mp hclose] at hok
      cases hok _ (List.mem_append_right _ List.mem_cons_self)
  obtain ⟨rfl, rfl⟩ := closed
  have hok₁ : ∀ x ∈ rights v₁, x.answer = .ok () := fun x hx => hok x (List.mem_append_left _ hx)
  rcases ends_tryExcept.mp hbody with ⟨a, rfl, hreturned⟩ | ⟨e, w₁, w₂, rfl, hraised, hhandler⟩
  · rcases ends_bind.mp hreturned with ⟨_, s, c, rfl, hs, hcommit⟩ | ⟨e, he, _⟩
    · rcases ends_perform_bind.mp hcommit with ⟨_, rest, rfl, hret⟩ | ⟨e, _, he⟩
      · obtain ⟨rfl, hr⟩ := ends_ret.mp hret
        cases hr
        refine ⟨s, hs, ?_, fun x hx => hok₁ x ?_, fun db => ?_⟩
        · rw [lefts_append, lefts_append]
          exact (List.append_nil _).trans (List.append_nil _)
        · rw [rights_append]
          exact List.mem_append_left _ hx
        · rw [rights_append, rights_append, List.append_assoc, Postgres.after_append]
          rfl
      · cases he
    · cases he
  · rw [rights_append] at hok₁
    have raised : Ends endpoint w₁ (.error e) := by
      rcases ends_bind.mp hraised with ⟨_, s, c, rfl, _, hcommit⟩ | ⟨x, he, hs⟩
      · rcases ends_perform_bind.mp hcommit with ⟨_, rest, rfl, hret⟩ | ⟨x, rfl, _⟩
        · cases (ends_ret.mp hret).2
        · rw [rights_append] at hok₁
          cases hok₁ _ (List.mem_append_left _ (List.mem_append_right _ List.mem_cons_self))
      · cases he
        exact hs
    have handled : o = .error e ∧ lefts w₂ = [] ∧ ∀ db : Postgres Row, (db.after (rights w₂)).rows = db.rows := by
      obtain ⟨x, hx, rfl⟩ := ends_bind_raise.mp hhandler
      split at hx
      · obtain rfl := session_ends.mp hx
        have hx' : x = .ok () := hok₁ _ (List.mem_append_right _ List.mem_cons_self)
        rw [hx']
        exact ⟨rfl, rfl, fun _ => rfl⟩
      · obtain ⟨rfl, rfl⟩ := ends_ret.mp hx
        exact ⟨rfl, rfl, fun _ => rfl⟩
    obtain ⟨rfl, hlefts, hrows⟩ := handled
    refine ⟨w₁, raised, ?_, fun x hx => hok₁ x (List.mem_append_left _ hx), fun db => ?_⟩
    · rw [lefts_append, lefts_append, hlefts]
      exact (List.append_nil _).trans (List.append_nil _)
    · rw [rights_append, rights_append, List.append_assoc, Postgres.after_append, Postgres.after_append]
      exact hrows _

/-- The runs in which every command is answered. -/
theorem getSession_returned {endpoint : Prog (I.sum (sessionI Row)) Exn α} {t : Trace (I.sum (sessionI Row)) Exn} {a : α}
    (h : Ends endpoint t (.ok a)) :
    Ends (getSession endpoint) (t ++ [⟨.inr .commit, .ok ()⟩, ⟨.inr .close, .ok ()⟩]) (.ok a) := by
  refine ends_tryFinally.mpr ⟨.ok a, t ++ [⟨.inr .commit, .ok ()⟩], [⟨.inr .close, .ok ()⟩], by simp, ?_,
    .inl ⟨session_ends.mpr rfl, rfl⟩⟩
  refine ends_tryExcept.mpr (.inl ⟨a, rfl, ?_⟩)
  exact ends_bind.mpr (.inl ⟨a, t, _, rfl, h, ends_perform_bind.mpr (.inl ⟨(), [], rfl, .refl _⟩)⟩)

theorem getSession_raised {endpoint : Prog (I.sum (sessionI Row)) Exn α} {t : Trace (I.sum (sessionI Row)) Exn} {e : Exn}
    (h : Ends endpoint t (.error e)) (he : e.isException = true) :
    Ends (getSession endpoint) (t ++ [⟨.inr .rollback, .ok ()⟩, ⟨.inr .close, .ok ()⟩]) (.error e) := by
  refine ends_tryFinally.mpr ⟨.error e, t ++ [⟨.inr .rollback, .ok ()⟩], [⟨.inr .close, .ok ()⟩], by simp, ?_,
    .inl ⟨session_ends.mpr rfl, rfl⟩⟩
  refine ends_tryExcept.mpr (.inr ⟨e, t, [⟨.inr .rollback, .ok ()⟩], rfl, ends_bind.mpr (.inr ⟨e, rfl, h⟩), ?_⟩)
  rw [if_pos he]
  exact ends_bind_raise.mpr ⟨.ok (), session_ends.mpr rfl, rfl⟩

end Relayix
