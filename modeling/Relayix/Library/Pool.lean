import Mathlib.Data.List.Induction
import Mathlib.Logic.Function.Basic
import Relayix.Library.Monitor

/-! Any number of programs against one shared world.

A `World` says which answers a command can get in a state and what state it
leaves, and how the state can move by itself (time passing). A pool runs programs
indexed by any type: in each step one of them has its pending command answered,
atomically. The run keeps its history, each step with the state it was taken in.

`Run.invariant` is the induction used for every result about interleavings: if
each program obeys a monitor and every step a monitor allows preserves an
invariant of the history, the world and the monitors' states, it holds after every
run. -/
namespace Relayix.Library

/-- How a shared state answers commands, and how it moves by itself. -/
structure World (I : Interface) (ε W : Type) where
  answers : W → (c : I.Cmd) → Except ε (I.Ans c) → W → Prop
  elapses : W → W → Prop

/-- One step of a run: whose command was answered, in which state of the world. -/
structure Step (I : Interface) (ε ι W : Type) where
  before : W
  thread : ι
  event : Event I ε

/-- A world that gives one program the answers of a trace, time passing in between. -/
inductive World.Gives {I : Interface} {ε W : Type} (V : World I ε W) : W → Trace I ε → W → Prop where
  | done (w : W) : Gives V w [] w
  | command {c : I.Cmd} {a : Except ε (I.Ans c)} {t : Trace I ε} {w w' w'' : W} :
      V.answers w c a w' → Gives V w' t w'' → Gives V w (⟨c, a⟩ :: t) w''
  | elapse {t : Trace I ε} {w w' w'' : W} :
      V.elapses w w' → Gives V w' t w'' → Gives V w t w''

section Gives
variable {I : Interface} {ε W : Type} {V V' : World I ε W} {w w' : W} {t u : Trace I ε}

theorem World.Gives.mono (ha : ∀ {w} {c : I.Cmd} {a w'}, V.answers w c a w' → V'.answers w c a w')
    (he : ∀ {w w'}, V.elapses w w' → V'.elapses w w') (h : V.Gives w t w') : V'.Gives w t w' := by
  induction h with
  | done w => exact .done w
  | command h _ ih => exact .command (ha h) ih
  | elapse h _ ih => exact .elapse (he h) ih

/-- The first answer, perhaps after some time. -/
theorem World.Gives.head {c : I.Cmd} {a : Except ε (I.Ans c)} (h : V.Gives w (⟨c, a⟩ :: t) w') :
    ∃ v v', V.Gives w [] v ∧ V.answers v c a v' ∧ V.Gives v' t w' := by
  generalize hx : (⟨c, a⟩ :: t : Trace I ε) = x at h
  induction h with
  | done w => cases hx
  | @command c a x w v w' ha hg _ =>
    cases hx
    exact ⟨w, v, .done w, ha, hg⟩
  | elapse he _ ih =>
    obtain ⟨v, v', hw, ha, hg⟩ := ih hx
    exact ⟨v, v', .elapse he hw, ha, hg⟩

/-- The answers of a trace are given one part after the other. -/
theorem World.Gives.split (h : V.Gives w (t ++ u) w') : ∃ v, V.Gives w t v ∧ V.Gives v u w' := by
  generalize hx : t ++ u = x at h
  induction h generalizing t with
  | done w =>
    obtain ⟨rfl, rfl⟩ := List.append_eq_nil_iff.mp hx
    exact ⟨w, .done w, .done w⟩
  | @command c a x w v w' ha hg ih =>
    cases t with
    | nil =>
      obtain rfl : u = _ := hx
      exact ⟨w, .done w, .command ha hg⟩
    | cons e t =>
      obtain ⟨rfl, rfl⟩ := List.cons.inj hx
      obtain ⟨v', ht, hu⟩ := ih rfl
      exact ⟨v', .command ha ht, hu⟩
  | elapse he _ ih =>
    obtain ⟨v, ht, hu⟩ := ih hx
    exact ⟨v, .elapse he ht, hu⟩

theorem World.Gives.append {w'' : W} (h : V.Gives w t w') (h' : V.Gives w' u w'') : V.Gives w (t ++ u) w'' := by
  induction h with
  | done w => exact h'
  | command ha _ ih => exact .command ha (ih h')
  | elapse he _ ih => exact .elapse he (ih h')

/-- Answers that leave the world as it is. -/
theorem World.Gives.steady (h : ∀ e ∈ t, V.answers w e.cmd e.answer w) : V.Gives w t w := by
  induction t with
  | nil => exact .done w
  | cons e t ih => exact .command (h e List.mem_cons_self) (ih fun e he => h e (List.mem_cons_of_mem _ he))

end Gives

structure Pool (I : Interface) (ε ι W : Type) where
  world : W
  threads : ι → Prog I ε Unit

variable {I : Interface} {ε ι W σ : Type} [DecidableEq ι]

/-- The commands of one thread in a history. -/
def log (i : ι) (h : List (Step I ε ι W)) : Trace I ε :=
  (h.filter (fun s => s.thread = i)).map Step.event

@[simp] theorem log_nil (i : ι) : log i ([] : List (Step I ε ι W)) = [] := rfl

theorem log_append (i : ι) (h h' : List (Step I ε ι W)) : log i (h ++ h') = log i h ++ log i h' := by
  simp [log]

theorem log_snoc_self (h : List (Step I ε ι W)) (s : Step I ε ι W) :
    log s.thread (h ++ [s]) = log s.thread h ++ [s.event] := by
  simp [log]

theorem log_snoc_of_ne {i : ι} (h : List (Step I ε ι W)) {s : Step I ε ι W} (hi : s.thread ≠ i) :
    log i (h ++ [s]) = log i h := by
  simp [log, hi]

/-- The events of a log are those of the thread's steps. -/
theorem mem_log {i : ι} {e : Event I ε} {h : List (Step I ε ι W)} : e ∈ log i h ↔ ∃ s ∈ h, s.thread = i ∧ s.event = e := by
  simp [log, and_assoc]

/-- The runs of a pool, with their histories. -/
inductive Run (V : World I ε W) (start : Pool I ε ι W) : List (Step I ε ι W) → Pool I ε ι W → Prop where
  | start : Run V start [] start
  | command {h : List (Step I ε ι W)} {p : Pool I ε ι W} {i : ι} {c : I.Cmd}
      {k : Except ε (I.Ans c) → Prog I ε Unit} {a : Except ε (I.Ans c)} {w : W} :
      Run V start h p → p.threads i = .await c k → V.answers p.world c a w →
      Run V start (h ++ [⟨p.world, i, ⟨c, a⟩⟩]) ⟨w, Function.update p.threads i (k a)⟩
  | elapse {h : List (Step I ε ι W)} {p : Pool I ε ι W} {w : W} :
      Run V start h p → V.elapses p.world w → Run V start h ⟨w, p.threads⟩

variable {V : World I ε W} {start p : Pool I ε ι W} {h : List (Step I ε ι W)}

/-- Answer the pending command of thread `i`. -/
theorem Run.answer (hr : Run V start h p) (i : ι) {c : I.Cmd}
    {k : Except ε (I.Ans c) → Prog I ε Unit} (hk : p.threads i = .await c k)
    (a : Except ε (I.Ans c)) (w : W) (ha : V.answers p.world c a w) :
    Run V start (h ++ [⟨p.world, i, ⟨c, a⟩⟩]) ⟨w, Function.update p.threads i (k a)⟩ :=
  hr.command hk ha

theorem Run.wait (hr : Run V start h p) (w : W) (he : V.elapses p.world w) :
    Run V start h ⟨w, p.threads⟩ :=
  hr.elapse he

/-- Each thread is where the answers in its own log bring it. -/
theorem Run.reaches (hr : Run V start h p) (i : ι) :
    Reaches (start.threads i) (log i h) (p.threads i) := by
  induction hr with
  | start => exact .refl _
  | @command h p j c k a w _ hk _ ih =>
    by_cases hj : j = i
    · subst hj
      rw [log_snoc_self h ⟨p.world, j, ⟨c, a⟩⟩]
      simp only [Function.update_self]
      rw [hk] at ih
      exact ih.snoc a
    · rw [log_snoc_of_ne h (s := ⟨p.world, j, ⟨c, a⟩⟩) hj]
      simp only [ne_eq, Ne.symm hj, not_false_eq_true, Function.update_of_ne]
      exact ih
  | elapse _ _ ih => exact ih

/-- The log of a thread that finished is a whole run of its program. -/
theorem Run.ends (hr : Run V start h p) {i : ι} {o : Except ε Unit}
    (ho : p.threads i = .ofExcept o) : Ends (start.threads i) (log i h) o := by
  have := hr.reaches i
  rw [ho] at this
  exact this

/-- A run in a world is one in any world that may do the same. -/
theorem Run.mono {V' : World I ε W}
    (ha : ∀ {w} {c : I.Cmd} {a w'}, V.answers w c a w' → V'.answers w c a w')
    (he : ∀ {w w'}, V.elapses w w' → V'.elapses w w') (hr : Run V start h p) : Run V' start h p := by
  induction hr with
  | start => exact .start
  | command _ hk h ih => exact ih.command hk (ha h)
  | elapse _ h ih => exact ih.elapse (he h)

/-- A world that stays within `P`. -/
def World.within (V : World I ε W) (P : W → Prop) : World I ε W where
  answers w c a w' := V.answers w c a w' ∧ P w'
  elapses w w' := V.elapses w w' ∧ P w'

/-- A run within `P` is one that never leaves it. -/
theorem Run.within {P : W → Prop} (hr : Run (V.within P) start h p) (hP : P start.world) :
    Run V start h p ∧ P p.world ∧ ∀ s ∈ h, P s.before := by
  refine ⟨hr.mono And.left And.left, ?_⟩
  induction hr with
  | start => exact ⟨hP, fun _ hs => absurd hs List.not_mem_nil⟩
  | @command h p i c k a w _ _ ha ih =>
    refine ⟨ha.2, fun s hs => ?_⟩
    rcases List.mem_append.mp hs with hs | hs
    · exact ih.2 s hs
    · rw [List.mem_singleton.mp hs]
      exact ih.1
  | elapse _ he ih => exact ⟨he.2, ih.2⟩

/-- What follows a run. -/
theorem Run.trans {h' : List (Step I ε ι W)} {p' : Pool I ε ι W} (hr : Run V start h p)
    (hr' : Run V p h' p') : Run V start (h ++ h') p' := by
  induction hr' with
  | start =>
    rw [List.append_nil]
    exact hr
  | command _ hk ha ih =>
    rw [← List.append_assoc]
    exact ih.command hk ha
  | elapse _ he ih => exact ih.elapse he

/-- What one thread does in an interleaving. -/
def part (i : ι) (s : List (ι × Event I ε)) : Trace I ε := (s.filter fun x => x.1 = i).map Prod.snd

theorem part_cons_self (i : ι) (e : Event I ε) (s : List (ι × Event I ε)) : part i ((i, e) :: s) = e :: part i s := by
  simp [part]

theorem part_cons_of_ne {i j : ι} (e : Event I ε) (s : List (ι × Event I ε)) (hj : i ≠ j) : part j ((i, e) :: s) = part j s := by
  simp [part, hj]

theorem part_append (i : ι) (s s' : List (ι × Event I ε)) : part i (s ++ s') = part i s ++ part i s' := by
  simp [part]

theorem part_alone (i : ι) (t : Trace I ε) : part i (t.map fun e => (i, e)) = t := by
  induction t with
  | nil => rfl
  | cons e t ih => rw [List.map_cons, part_cons_self, ih]

theorem part_other {i j : ι} (t : Trace I ε) (hj : i ≠ j) : part j (t.map fun e => (i, e)) = [] := by
  induction t with
  | nil => rfl
  | cons e t ih => rw [List.map_cons, part_cons_of_ne _ _ hj, ih]

/-- The part of a thread in a history is its log. -/
theorem part_history (i : ι) (h : List (Step I ε ι W)) : part i (h.map fun x => (x.thread, x.event)) = log i h := by
  simp [part, log, List.filter_map, Function.comp_def]

/-- An interleaving of what the threads can do is run, where the world gives its answers in that order. -/
theorem Run.interleaves {s : List (ι × Event I ε)} {q : ι → Prog I ε Unit} {w' : W} (hr : Run V start h p)
    (hq : ∀ i, Reaches (p.threads i) (part i s) (q i)) (hg : V.Gives p.world (s.map Prod.snd) w') :
    ∃ h' : List (Step I ε ι W), Run V start (h ++ h') ⟨w', q⟩ ∧ h'.map (fun x => (x.thread, x.event)) = s := by
  generalize hw : p.world = w at hg
  generalize ht : s.map Prod.snd = t at hg
  induction hg generalizing h p s with
  | done w =>
    obtain rfl := List.map_eq_nil_iff.mp ht
    have hthreads : p.threads = q := funext fun i => (reaches_nil.mp (hq i)).symm
    refine ⟨[], ?_, rfl⟩
    rw [List.append_nil, ← hw, ← hthreads]
    exact hr
  | @command c a t w v w' ha _ ih =>
    cases s with
    | nil => cases ht
    | cons x s =>
      obtain ⟨i, e⟩ := x
      obtain ⟨rfl, hrest⟩ := List.cons.inj ht
      have hi := hq i
      rw [part_cons_self] at hi
      generalize hthread : p.threads i = thread at hi
      cases hi with
      | @step _ k _ _ _ hi =>
        have hothers : ∀ j, Reaches (Function.update p.threads i (k a) j) (part j s) (q j) := by
          intro j
          by_cases hj : i = j
          · subst hj
            rw [Function.update_self]
            exact hi
          · rw [Function.update_of_ne (Ne.symm hj), ← part_cons_of_ne ⟨c, a⟩ s hj]
            exact hq j
        obtain ⟨h', hr', hmap⟩ := ih (hr.answer i hthread a v (hw ▸ ha)) hothers rfl hrest
        refine ⟨⟨p.world, i, ⟨c, a⟩⟩ :: h', ?_, ?_⟩
        · rw [List.append_cons]
          exact hr'
        · rw [List.map_cons, hmap]
  | @elapse t w v w' he _ ih => exact ih (hr.wait v (hw ▸ he)) hq rfl ht

/-- A thread goes on alone, where the world gives it the answers. -/
theorem Run.follows (hr : Run V start h p) {i : ι} {t : Trace I ε} {q : Prog I ε Unit} {w' : W}
    (hq : Reaches (p.threads i) t q) (hg : V.Gives p.world t w') :
    ∃ (h' : List (Step I ε ι W)) (p' : Pool I ε ι W), Run V start h' p' ∧ p'.world = w' ∧ p'.threads i = q := by
  have halone : ∀ j, Reaches (p.threads j) (part j (t.map fun e => (i, e))) (Function.update p.threads i q j) := by
    intro j
    by_cases hj : i = j
    · subst hj
      rw [Function.update_self, part_alone]
      exact hq
    · rw [Function.update_of_ne (Ne.symm hj), part_other t hj]
      exact .refl _
  have hgives : V.Gives p.world ((t.map fun e => (i, e)).map Prod.snd) w' := by simpa [Function.comp_def] using hg
  obtain ⟨h', hr', _⟩ := hr.interleaves halone hgives
  exact ⟨_, _, hr', rfl, Function.update_self ..⟩

/-- A longer history splits at its last step or before it. -/
theorem snoc_eq_split {γ : Type} {h pre mid : List γ} {x s : γ}
    (he : h ++ [x] = pre ++ s :: mid) :
    (mid = [] ∧ pre = h ∧ s = x) ∨ ∃ front, mid = front ++ [x] ∧ h = pre ++ s :: front := by
  induction mid using List.reverseRecOn with
  | nil =>
    obtain ⟨hp, hs⟩ := List.append_inj' he rfl
    exact .inl ⟨rfl, hp.symm, (List.singleton_inj.mp hs).symm⟩
  | append_singleton front y _ =>
    have hy : h ++ [x] = (pre ++ s :: front) ++ [y] := by simpa using he
    obtain ⟨hp, hs⟩ := List.append_inj' hy rfl
    exact .inr ⟨front, by rw [List.singleton_inj.mp hs], hp⟩

/-- Where there is one of a kind, there is a last one. -/
theorem exists_last {γ : Type} {kind : γ → Bool} {h : List γ} (he : ∃ s ∈ h, kind s = true) :
    ∃ pre s post, h = pre ++ s :: post ∧ kind s = true ∧ ∀ m ∈ post, kind m = false := by
  induction h with
  | nil =>
    obtain ⟨s, hs, _⟩ := he
    cases hs
  | cons x h ih =>
    by_cases hrest : ∃ s ∈ h, kind s = true
    · obtain ⟨pre, s, post, rfl, hs, hpost⟩ := ih hrest
      exact ⟨x :: pre, s, post, rfl, hs, hpost⟩
    · obtain ⟨s, hs, hkind⟩ := he
      have hnone : ∀ m ∈ h, kind m = false := fun m hm => Bool.eq_false_iff.mpr fun hk => hrest ⟨m, hm, hk⟩
      rcases List.mem_cons.mp hs with rfl | hs
      · exact ⟨[], s, h, rfl, hkind, hnone⟩
      · exact absurd ⟨s, hs, hkind⟩ hrest

/-- Every step of a run was taken from a run of the steps before it. -/
theorem Run.at {pre post : List (Step I ε ι W)} {s : Step I ε ι W} (hr : Run V start h p)
    (he : h = pre ++ s :: post) :
    ∃ p' : Pool I ε ι W, Run V start pre p' ∧ p'.world = s.before ∧
      (∃ k, p'.threads s.thread = .await s.event.cmd k) ∧
      ∃ w, V.answers s.before s.event.cmd s.event.answer w := by
  induction hr generalizing post with
  | start => simp at he
  | @command h p i c k a w hr hk ha ih =>
    rcases snoc_eq_split he with ⟨_, rfl, rfl⟩ | ⟨mid, _, hh⟩
    · exact ⟨p, hr, rfl, ⟨k, hk⟩, w, ha⟩
    · exact ih hh
  | elapse _ _ ih => exact ih he

/-- A run goes on from each of its steps. -/
theorem Run.resumes {pre post : List (Step I ε ι W)} {s : Step I ε ι W} (hr : Run V start h p)
    (he : h = pre ++ s :: post) :
    ∃ (p₀ : Pool I ε ι W) (k : Except ε (I.Ans s.event.cmd) → Prog I ε Unit) (w : W), Run V start pre p₀ ∧
      p₀.world = s.before ∧ p₀.threads s.thread = .await s.event.cmd k ∧
      V.answers s.before s.event.cmd s.event.answer w ∧
      Run V ⟨w, Function.update p₀.threads s.thread (k s.event.answer)⟩ post p := by
  induction hr generalizing post with
  | start => simp at he
  | @command h p i c k a w hr hk ha ih =>
    rcases snoc_eq_split he with ⟨rfl, rfl, rfl⟩ | ⟨mid, rfl, hh⟩
    · exact ⟨p, k, w, hr, rfl, hk, ha, .start⟩
    · obtain ⟨p₀, k₀, w₀, hr₀, hw, hk₀, ha₀, hrest⟩ := ih hh
      exact ⟨p₀, k₀, w₀, hr₀, hw, hk₀, ha₀, hrest.command hk ha⟩
  | elapse _ hw ih =>
    obtain ⟨p₀, k₀, w₀, hr₀, hb, hk₀, ha₀, hrest⟩ := ih he
    exact ⟨p₀, k₀, w₀, hr₀, hb, hk₀, ha₀, hrest.elapse hw⟩

/-- An event of a log is a step of the run. -/
theorem Run.at_log (hr : Run V start h p) {i : ι} {e : Event I ε} (he : e ∈ log i h) :
    ∃ (pre : List (Step I ε ι W)) (s : Step I ε ι W) (post : List (Step I ε ι W)) (p' : Pool I ε ι W),
      h = pre ++ s :: post ∧ s.thread = i ∧ s.event = e ∧
        Run V start pre p' ∧ p'.world = s.before ∧ ∃ w, V.answers s.before e.cmd e.answer w := by
  obtain ⟨s, hmem, hi, rfl⟩ := mem_log.mp he
  obtain ⟨pre, post, hh⟩ := List.append_of_mem hmem
  obtain ⟨p', hr', hw, _, ha⟩ := hr.at hh
  exact ⟨pre, s, post, p', hh, hi, rfl, hr', hw, ha⟩

/-- The monitors' states after a history. -/
def watched (M : Monitor I ε σ) (q : ι → σ) (h : List (Step I ε ι W)) : ι → σ :=
  fun i => M.run (q i) (log i h)

theorem watched_snoc (M : Monitor I ε σ) (q : ι → σ) (h : List (Step I ε ι W)) (s : Step I ε ι W) :
    watched M q (h ++ [s]) = Function.update (watched M q h) s.thread
      (M.next (watched M q h s.thread) s.event.cmd s.event.answer) := by
  funext i
  unfold watched
  by_cases hi : s.thread = i
  · subst hi
    rw [log_snoc_self, Monitor.run_snoc, Function.update_self]
  · rw [log_snoc_of_ne h hi, Function.update_of_ne (Ne.symm hi)]

section Invariant
variable {M : Monitor I ε σ} {q : ι → σ} {Q : ι → Except ε Unit → σ → Prop}
  {Inv : List (Step I ε ι W) → W → (ι → σ) → Prop}

/-- The world only gives answers the monitor expects. -/
def World.Meets (V : World I ε W) (M : Monitor I ε σ) : Prop :=
  ∀ w (c : I.Cmd) a w', V.answers w c a w' → M.expects c a

theorem Run.mem_answers {s : Step I ε ι W} (hr : Run V start h p) (hs : s ∈ h) :
    ∃ w', V.answers s.before s.event.cmd s.event.answer w' := by
  obtain ⟨pre, post, he⟩ := List.append_of_mem hs
  obtain ⟨_, _, _, _, ha⟩ := hr.at he
  exact ha

theorem Run.expected (hV : V.Meets M) (hr : Run V start h p) (i : ι) : M.Expected (log i h) := by
  intro e he
  obtain ⟨s, hs, _, rfl⟩ := mem_log.mp he
  obtain ⟨w', ha⟩ := hr.mem_answers hs
  exact hV _ _ _ _ ha

/-- Every thread of a run still obeys its monitor. -/
theorem Run.obeys (hV : V.Meets M) (hr : Run V start h p)
    (ho : ∀ i, (start.threads i).Obeys M (Q i) (q i)) (i : ι) :
    (p.threads i).Obeys M (Q i) (watched M q h i) :=
  (ho i).reaches (hr.reaches i) (hr.expected hV i)

/-- The induction over interleavings, for what happens after a run. -/
theorem Run.continued {Inv : List (Step I ε ι W) → W → (ι → σ) → Prop}
    (Ok : List (Step I ε ι W) → Step I ε ι W → Prop) (hV : V.Meets M)
    (ho : ∀ i, (start.threads i).Obeys M (Q i) (q i)) (hr : Run V start h p)
    (hp : Inv h p.world (watched M q h))
    (hcommand : ∀ h w i (c : I.Cmd) a w', Inv h w (watched M q h) →
      M.allowed (watched M q h i) c → V.answers w c a w' → Ok h ⟨w, i, ⟨c, a⟩⟩ →
      Inv (h ++ [⟨w, i, ⟨c, a⟩⟩]) w'
        (Function.update (watched M q h) i (M.next (watched M q h i) c a)))
    (helapse : ∀ h w w', Inv h w (watched M q h) → V.elapses w w' → Inv h w' (watched M q h))
    {h' : List (Step I ε ι W)} {p' : Pool I ε ι W} (hr' : Run V p h' p')
    (hok : ∀ pre s post, h' = pre ++ s :: post → Ok (h ++ pre) s) :
    Inv (h ++ h') p'.world (watched M q (h ++ h')) := by
  induction hr' with
  | start =>
    rw [List.append_nil]
    exact hp
  | @command h' p' i c k a w hr' hk ha ih =>
    have hi := ih fun pre s post he => hok pre s (post ++ [⟨p'.world, i, ⟨c, a⟩⟩]) (by simp [he])
    have hob := (hr.trans hr').obeys hV ho i
    rw [hk] at hob
    rw [← List.append_assoc, watched_snoc]
    exact hcommand _ p'.world i c a w hi hob.1 ha (hok h' _ [] rfl)
  | elapse _ he ih => exact helapse _ _ _ (ih hok) he

/-- **The induction over interleavings.** `Ok` restricts the steps considered. -/
theorem Run.invariant {Ok : List (Step I ε ι W) → Step I ε ι W → Prop} (hV : V.Meets M)
    (ho : ∀ i, (start.threads i).Obeys M (Q i) (q i))
    (hstart : Inv [] start.world q)
    (hcommand : ∀ h w g i (c : I.Cmd) a w', Inv h w g → M.allowed (g i) c → V.answers w c a w' →
      Ok h ⟨w, i, ⟨c, a⟩⟩ →
      Inv (h ++ [⟨w, i, ⟨c, a⟩⟩]) w' (Function.update g i (M.next (g i) c a)))
    (helapse : ∀ h w g w', Inv h w g → V.elapses w w' → Inv h w' g)
    (hr : Run V start h p) (hok : ∀ pre s post, h = pre ++ s :: post → Ok pre s) :
    Inv h p.world (watched M q h) :=
  Run.start.continued Ok hV ho hstart (fun h w i c a w' => hcommand h w _ i c a w')
    (fun h w w' => helapse h w _ w') hr hok

/-- The same with every step considered. -/
theorem Run.always (hV : V.Meets M) (ho : ∀ i, (start.threads i).Obeys M (Q i) (q i))
    (hstart : Inv [] start.world q)
    (hcommand : ∀ h w g i (c : I.Cmd) a w', Inv h w g → M.allowed (g i) c → V.answers w c a w' →
      Inv (h ++ [⟨w, i, ⟨c, a⟩⟩]) w' (Function.update g i (M.next (g i) c a)))
    (helapse : ∀ h w g w', Inv h w g → V.elapses w w' → Inv h w' g)
    (hr : Run V start h p) : Inv h p.world (watched M q h) := by
  have all : ∀ pre s post, h = pre ++ s :: post → (fun _ _ => True) pre s := fun _ _ _ _ => trivial
  exact hr.invariant hV ho hstart (fun h w g i c a w' hi hq ha _ => hcommand h w g i c a w' hi hq ha)
    helapse all

/-- What every step of one thread preserves holds of every thread's log. -/
theorem Run.each {F : Trace I ε → σ → Prop} (hV : V.Meets M)
    (ho : ∀ i, (start.threads i).Obeys M (Q i) (q i)) (hstart : ∀ i, F [] (q i))
    (hstep : ∀ t s w (c : I.Cmd) a w', F t s → M.allowed s c → V.answers w c a w' →
      F (t ++ [⟨c, a⟩]) (M.next s c a))
    (hr : Run V start h p) (i : ι) : F (log i h) (watched M q h i) := by
  have hcommand : ∀ (h : List (Step I ε ι W)) (w : W) (g : ι → σ) (j : ι) (c : I.Cmd) a (w' : W),
      (∀ i, F (log i h) (g i)) → M.allowed (g j) c → V.answers w c a w' →
      ∀ i, F (log i (h ++ [⟨w, j, ⟨c, a⟩⟩])) (Function.update g j (M.next (g j) c a) i) := by
    intro h w g j c a w' all hc ha i
    by_cases hi : j = i
    · subst hi
      rw [log_snoc_self h ⟨w, j, ⟨c, a⟩⟩, Function.update_self]
      exact hstep _ _ _ _ _ _ (all j) hc ha
    · rw [log_snoc_of_ne h hi, Function.update_of_ne (Ne.symm hi)]
      exact all i
  have all : ∀ i, F (log i h) (watched M q h i) :=
    Run.always hV ho hstart hcommand (fun _ _ _ _ all _ => all) hr
  exact all i

/-- A thread that has not ended may still ask something. -/
theorem Run.pending (hV : V.Meets M) (hr : Run V start h p)
    (ho : ∀ i, (start.threads i).Obeys M (Q i) (q i)) {i : ι} (hi : ∀ o, p.threads i ≠ .ofExcept o) :
    ∃ c, M.allowed (watched M q h i) c := by
  have hob := hr.obeys hV ho i
  cases ht : p.threads i with
  | ret a => exact absurd ht (hi (.ok a))
  | raise e => exact absurd ht (hi (.error e))
  | await c k =>
    rw [ht] at hob
    exact ⟨c, hob.1⟩

end Invariant

end Relayix.Library
