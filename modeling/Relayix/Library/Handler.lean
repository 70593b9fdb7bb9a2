import Relayix.Library.Monitor

/-! Handlers: programs that answer the commands of another program.

`p.via h` is `p` with every command replaced by a run of its handler, whose outcome is the
answer. Its runs are the runs of `p` in which each answer was played by the handler. -/
namespace Relayix.Library

variable {I J K : Interface} {ε α : Type}

namespace Prog

def via (h : (c : I.Cmd) → Prog J ε (I.Ans c)) : Prog I ε α → Prog J ε α
  | .ret a => .ret a
  | .raise e => .raise e
  | .await c k => (h c).attempt.bind fun a => via h (k a)

/-- The program run against a machine that answers every command in one way. -/
def against {W : Type} (exec : W → (c : I.Cmd) → Except ε (I.Ans c) × W) : Prog I ε α → W → Except ε α × W
  | .ret a, w => (.ok a, w)
  | .raise e, w => (.error e, w)
  | .await c k, w => against exec (k (exec w c).1) (exec w c).2

end Prog

/-- The handler's runs that answered a trace, one after the other. -/
inductive Played (h : (c : I.Cmd) → Prog J ε (I.Ans c)) : Trace I ε → Trace J ε → Prop where
  | nil : Played h [] []
  | cons {c : I.Cmd} {a : Except ε (I.Ans c)} {s : Trace I ε} {t₁ t₂ : Trace J ε} :
      Ends (h c) t₁ a → Played h s t₂ → Played h (⟨c, a⟩ :: s) (t₁ ++ t₂)

variable {h : (c : I.Cmd) → Prog J ε (I.Ans c)}

theorem ends_via {p : Prog I ε α} {t : Trace J ε} {o : Except ε α} :
    Ends (p.via h) t o ↔ ∃ s, Played h s t ∧ Ends p s o := by
  induction p generalizing t with
  | ret a =>
    constructor
    · intro hends
      obtain ⟨rfl, rfl⟩ := ends_ret.mp hends
      exact ⟨[], .nil, .refl _⟩
    · rintro ⟨s, hplay, hends⟩
      obtain ⟨rfl, rfl⟩ := ends_ret.mp hends
      cases hplay
      exact .refl _
  | raise e =>
    constructor
    · intro hends
      obtain ⟨rfl, rfl⟩ := ends_raise.mp hends
      exact ⟨[], .nil, .refl _⟩
    · rintro ⟨s, hplay, hends⟩
      obtain ⟨rfl, rfl⟩ := ends_raise.mp hends
      cases hplay
      exact .refl _
  | await c k ih =>
    constructor
    · intro hends
      obtain ⟨a, t₁, t₂, rfl, hc, hr⟩ := ends_attempt_bind.mp hends
      obtain ⟨s, hplay, hs⟩ := (ih a).mp hr
      exact ⟨⟨c, a⟩ :: s, .cons hc hplay, .step a hs⟩
    · rintro ⟨s, hplay, hends⟩
      obtain ⟨a, rest, rfl, hr⟩ := ends_await.mp hends
      cases hplay with
      | cons hc hplay => exact ends_attempt_bind.mpr ⟨a, _, _, rfl, hc, (ih a).mpr ⟨rest, hplay, hr⟩⟩

/-- What every handler keeps to in every state, the program with its handlers keeps to. -/
theorem Prog.Obeys.via {σ : Type} {M : Monitor J ε σ} (hh : ∀ c s, (h c).Obeys M (fun _ _ => True) s) (p : Prog I ε α) (s : σ) :
    (p.via h).Obeys M (fun _ _ => True) s := by
  induction p generalizing s with
  | ret a => trivial
  | raise e => trivial
  | await c k ih => exact (hh c s).attempt_bind fun r s' _ => ih r s'

/-- A monitor of the commands that are left, where each handler moves it as its own command moved the
first one. -/
theorem Prog.Obeys.handled {σ : Type} {M : Monitor I ε σ} {M' : Monitor J ε σ} {Q : Except ε α → σ → Prop} {p : Prog I ε α} {s : σ}
    (hp : p.Obeys M Q s) (hexpects : ∀ c a, M.expects c a)
    (hh : ∀ c s, M.allowed s c → (h c).Obeys M' (fun a s' => s' = M.next s c a) s) : (p.via h).Obeys M' Q s := by
  induction p generalizing s with
  | ret a => exact hp
  | raise e => exact hp
  | await c k ih =>
    refine (hh c s hp.1).attempt_bind fun r s' hs => ?_
    subst hs
    exact ih r (hp.2 r (hexpects c r))

/-- One more command, in front of a run that is known as a whole. -/
theorem Played.step {c : I.Cmd} {a : Except ε (I.Ans c)} {s : Trace I ε} {t t₁ t₂ : Trace J ε} (hc : Ends (h c) t₁ a)
    (hs : Played h s t₂) (ht : t = t₁ ++ t₂) : Played h (⟨c, a⟩ :: s) t := by
  rw [ht]
  exact .cons hc hs

end Relayix.Library
