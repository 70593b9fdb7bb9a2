import Relayix.Library.Generator
import Relayix.Library.Pool

/-! Programs that each have a session of their own.

A `Tagged` command says whose session it belongs to, so that one world can keep apart what the sessions
have open. A program is tagged as a whole, and what a monitor says of it is said of its tagged form. -/
namespace Relayix.Library

/-- The commands of an interface, each in a session. -/
@[reducible] def Interface.tagged (I : Interface) (σ : Type) : Interface := ⟨σ × I.Cmd, fun c => I.Ans c.2⟩

variable {I : Interface} {ε α σ τ : Type}

/-- The program in a session. -/
def Prog.tagged (s : σ) : Prog I ε α → Prog (I.tagged σ) ε α
  | .ret a => .ret a
  | .raise e => .raise e
  | .await c k => .await (s, c) fun a => (k a).tagged s

def Event.tag (s : σ) (e : Event I ε) : Event (I.tagged σ) ε := ⟨(s, e.cmd), e.answer⟩

theorem ends_tagged {s : σ} {p : Prog I ε α} {t : Trace (I.tagged σ) ε} {o : Except ε α} :
    Ends (p.tagged s) t o ↔ ∃ u, t = u.map (Event.tag s) ∧ Ends p u o := by
  induction p generalizing t with
  | ret a =>
    simp only [Prog.tagged, ends_ret]
    constructor
    · rintro ⟨rfl, ho⟩
      exact ⟨[], rfl, rfl, ho⟩
    · rintro ⟨_, rfl, rfl, ho⟩
      exact ⟨rfl, ho⟩
  | raise e =>
    simp only [Prog.tagged, ends_raise]
    constructor
    · rintro ⟨rfl, ho⟩
      exact ⟨[], rfl, rfl, ho⟩
    · rintro ⟨_, rfl, rfl, ho⟩
      exact ⟨rfl, ho⟩
  | await c k ih =>
    simp only [Prog.tagged, ends_await, ih]
    constructor
    · rintro ⟨a, _, rfl, u, rfl, h⟩
      exact ⟨⟨c, a⟩ :: u, rfl, a, u, rfl, h⟩
    · rintro ⟨_, rfl, a, u, rfl, h⟩
      exact ⟨a, u.map (Event.tag s), rfl, u, rfl, h⟩

section Turns
variable {ι W : Type} [DecidableEq ι] {V : World (I.tagged ι) ε W} {i j : ι}

/-- What a session does in a turn of its own. -/
def turn (i : ι) (t : Trace I ε) : List (ι × Event (I.tagged ι) ε) := t.map fun e => (i, e.tag i)

omit [DecidableEq ι] in
theorem turn_append (t u : Trace I ε) : turn i (t ++ u) = turn i t ++ turn i u := List.map_append

omit [DecidableEq ι] in
theorem mem_turn {t : Trace I ε} {x : ι × Event (I.tagged ι) ε} (hx : x ∈ turn i t) : x.1 = i := by
  obtain ⟨_, _, rfl⟩ := List.mem_map.mp hx
  rfl

theorem part_turn_self (t : Trace I ε) : part i (turn i t) = t.map (Event.tag i) := by
  have hturn : turn i t = (t.map (Event.tag i)).map fun e => (i, e) := (List.map_map ..).symm
  rw [hturn, part_alone]

theorem part_turn_of_ne (t : Trace I ε) (hj : i ≠ j) : part j (turn i t) = [] := by
  have hturn : turn i t = (t.map (Event.tag i)).map fun e => (i, e) := (List.map_map ..).symm
  rw [hturn, part_other _ hj]

omit [DecidableEq ι] in
/-- A turn in which the world stays as it is. -/
theorem turn_steady {t : Trace I ε} {w : W} (h : ∀ e ∈ t, V.answers w (i, e.cmd) e.answer w) :
    V.Gives w ((turn i t).map Prod.snd) w := by
  refine .steady fun e he => ?_
  obtain ⟨_, hmem, rfl⟩ := List.mem_map.mp he
  obtain ⟨x, hx, rfl⟩ := List.mem_map.mp hmem
  exact h x hx

/-- Programs that take turns run to their ends. -/
theorem Run.turns {program : ι → Prog I ε Unit} {t : ι → Trace I ε} {o : ι → Except ε Unit}
    {s : List (ι × Event (I.tagged ι) ε)} {w w' : W} (hends : ∀ i, Ends (program i) (t i) (o i))
    (hparts : ∀ i, part i s = (t i).map (Event.tag i)) (hg : V.Gives w (s.map Prod.snd) w') :
    ∃ h : List (Step (I.tagged ι) ε ι W), Run V ⟨w, fun i => (program i).tagged i⟩ h ⟨w', fun i => .ofExcept (o i)⟩ ∧
      h.map (fun x => (x.thread, x.event)) = s := by
  have hrun : Run V ⟨w, fun i => (program i).tagged i⟩ [] ⟨w, fun i => (program i).tagged i⟩ := .start
  refine hrun.interleaves (fun i => ?_) hg
  rw [hparts]
  exact ends_tagged.mpr ⟨t i, rfl, hends i⟩

end Turns

/-- The same monitor over the commands of one session, which it allows no others. -/
def Monitor.tagged (M : Monitor I ε τ) (σ : Type) : Monitor (I.tagged σ) ε (σ × τ) where
  next q c a := (q.1, M.next q.2 c.2 a)
  allowed q c := c.1 = q.1 ∧ M.allowed q.2 c.2
  expects c a := M.expects c.2 a

theorem Prog.Obeys.tagged {M : Monitor I ε τ} {Q : Except ε α → τ → Prop} {p : Prog I ε α} {q : τ} (h : p.Obeys M Q q) (s : σ) :
    (p.tagged s).Obeys (M.tagged σ) (fun o x => x.1 = s ∧ Q o x.2) (s, q) := by
  induction p generalizing q with
  | ret a => exact ⟨rfl, h⟩
  | raise e => exact ⟨rfl, h⟩
  | await c k ih => exact ⟨⟨rfl, h.1⟩, fun a ha => ih a (h.2 a ha)⟩

/-- The generator in a session. -/
def Gen.tagged {Y : Type} (s : σ) : Gen I ε Y α → Gen (I.tagged σ) ε Y α
  | .ret a => .ret a
  | .raise e => .raise e
  | .await (.inl c) k => .await (.inl (s, c)) fun a => tagged s (k a)
  | .await (.inr y) k => .await (.inr y) fun a => tagged s (k a)

section Single
variable [DecidableEq σ]

/-- The same monitor over the commands of one session, which heeds no others. -/
def Monitor.single (M : Monitor I ε τ) (s : σ) : Monitor (I.tagged σ) ε τ where
  next q c a := if c.1 = s then M.next q c.2 a else q
  allowed q c := c.1 = s → M.allowed q c.2
  expects c a := c.1 = s → M.expects c.2 a

variable {M : Monitor I ε τ} {s s' : σ} {q : τ}

theorem Monitor.single_next_self {c : I.Cmd} {a : Except ε (I.Ans c)} : (M.single s).next q (s, c) a = M.next q c a := if_pos rfl

theorem Monitor.single_next_other (h : s' ≠ s) {c : I.Cmd} {a : Except ε (I.Ans c)} : (M.single s).next q (s', c) a = q := if_neg h

theorem Prog.Obeys.single {p : Prog I ε α} (h : s' = s → p.Obeys M (fun _ _ => True) q) :
    (p.tagged s').Obeys (M.single s) (fun _ _ => True) q := by
  induction p generalizing q with
  | ret a => trivial
  | raise e => trivial
  | await c k ih =>
    refine ⟨fun hs => (h hs).1, fun a ha => ih a fun hs => ?_⟩
    subst hs
    rw [Monitor.single_next_self]
    exact (h rfl).2 a (ha rfl)

theorem Gen.single_obeys {Y : Type} {g : Gen I ε Y α} (h : s' = s → g.Obeys (M.handing Y) (fun _ _ => True) q) :
    (Gen.tagged s' g).Obeys ((M.single s).handing Y) (fun _ _ => True) q := by
  induction g generalizing q with
  | ret a => trivial
  | raise e => trivial
  | await c k ih =>
    cases c with
    | inr y => exact ⟨trivial, fun a _ => ih a fun hs => (h hs).2 a trivial⟩
    | inl c =>
      refine ⟨fun hs => (h hs).1, fun a ha => ih a fun hs => ?_⟩
      subst hs
      show (k a).Obeys (M.handing Y) (fun _ _ => True) ((M.single s').next q (s', c) a)
      rw [Monitor.single_next_self]
      exact (h rfl).2 a (ha rfl)

end Single

/-- A session stays its own. -/
theorem Monitor.tagged_run (M : Monitor I ε τ) (x : σ × τ) (t : Trace (I.tagged σ) ε) : ((M.tagged σ).run x t).1 = x.1 := by
  induction t generalizing x with
  | nil => rfl
  | cons e t ih => exact ih _

end Relayix.Library
