import Relayix.Infra.RateLimit.Composed

/-! When a check is let through.

A script is sent with the reading of the clock that its own check has made, and the in-memory limiter
reads the clock itself. A check whose commands lie in a window is therefore let through in it, and the
two buckets bound the number of these. -/
namespace Relayix
open Library

namespace ResilientRateLimiter

/-- A script is sent with a reading that the check has made; the state is these readings. -/
def timely : Monitor limitersI Exn (List ℚ) where
  next
    | s, .inr (.inl .time), .ok now => now :: s
    | s, _, _ => s
  allowed
    | s, .inr (.inl (.script _ _ _ now _)) => now ∈ s
    | _, _ => True
  expects _ _ := True

theorem parts_timely (c : (breakerI.sum limiterI).Cmd) (s : List ℚ) : (parts c).Obeys timely (fun _ _ => True) s := by
  match c with
  | .inl c => exact Prog.Obeys.perform trivial fun _ _ => trivial
  | .inr (.primary key rpm) =>
    apply Prog.Obeys.inr
    apply Prog.Obeys.inl
    have htime : (@Prog.perform bucketI Exn .time).Obeys timely.onRight.onLeft
        (fun r s' => ∀ now, r = .ok now → now ∈ s') s := by
      refine Prog.Obeys.perform trivial fun r _ now hr => ?_
      rw [hr]
      exact List.mem_cons_self
    refine htime.bind (fun now s' hs' => ?_) fun _ _ _ => trivial
    have hscript : (@Prog.perform bucketI Exn (.script (RedisRateLimiter.bucketName key) rpm (rpm / 60) now
        RedisRateLimiter.ttlS)).Obeys timely.onRight.onLeft (fun _ _ => True) s' :=
      Prog.Obeys.perform (hs' now rfl) fun _ _ => trivial
    refine Prog.Obeys.bind (hscript.tryExcept (R := fun _ _ => True) (fun _ _ _ => trivial) fun e _ _ => ?_) (fun x _ _ => ?_)
      fun _ _ _ => trivial
    · split <;> trivial
    · dsimp only
      split <;> trivial
  | .inr (.fallback key rpm) => exact Prog.Obeys.perform trivial fun _ _ => trivial

theorem composed_timely (key : UUID) (rpm : Nat) : (composed key rpm).Obeys timely (fun _ _ => True) [] :=
  Prog.Obeys.via parts_timely _ _

section Runs
variable {ι : Type} [DecidableEq ι] {K : UUID} {limit : Nat} {runs : RateBuckets → BucketCmd → Prop} {key : ι → UUID}
  {rpm : ι → Nat} {failThreshold : Nat} {resetTimeoutS : ℚ} {redis : RateBuckets} {h : List (Step limitersI Exn ι Process)}
  {p : Pool limitersI Exn ι Process} {i : ι}

/-- The check has read this from the clock. -/
def ReadBy (h : List (Step limitersI Exn ι Process)) (i : ι) (now : ℚ) : Prop :=
  ∃ s ∈ h, s.thread = i ∧ s.event.cmd = .inr (.inl .time) ∧ s.before.redis.now = now

omit [DecidableEq ι] in
theorem ReadBy.snoc {now : ℚ} (hread : ReadBy h i now) (s : Step limitersI Exn ι Process) : ReadBy (h ++ [s]) i now := by
  obtain ⟨x, hx, hread⟩ := hread
  exact ⟨x, List.mem_append_left _ hx, hread⟩

/-- The readings are those that the checks have made, and the scripts were sent with such. -/
def Timed (h : List (Step limitersI Exn ι Process)) (_ : Process) (g : ι → List ℚ) : Prop :=
  (∀ i, ∀ now ∈ g i, ReadBy h i now) ∧
    ∀ s ∈ h, ∀ (name : String) (capacity rate now ttl : ℚ),
      s.event.cmd = .inr (.inl (.script name capacity rate now ttl)) → ReadBy h s.thread now

theorem timed_step {w w' : Process} {g : ι → List ℚ} {c : limitersI.Cmd} {a : Except Exn (limitersI.Ans c)} (h₀ : Timed h w g)
    (hc : timely.allowed (g i) c) (ha : (process K runs).answers w c a w') :
    Timed (h ++ [⟨w, i, ⟨c, a⟩⟩]) w' (Function.update g i (timely.next (g i) c a)) := by
  obtain ⟨hreadings, hscripts⟩ := h₀
  refine ⟨fun j now hnow => ?_, fun s hs name capacity rate now ttl hcmd => ?_⟩
  · by_cases hij : j = i
    · subst hij
      rw [Function.update_self] at hnow
      match c, a, ha, hnow with
      | .inr (.inl .time), .ok x, ha, hnow =>
        rcases List.mem_cons.mp hnow with rfl | hnow
        · exact ⟨_, List.mem_append_right _ List.mem_cons_self, rfl, rfl, (Except.ok.inj ha.1).symm⟩
        · exact (hreadings j now hnow).snoc _
      | .inr (.inl .time), .error e, _, hnow => exact (hreadings j now hnow).snoc _
      | .inr (.inl (.script _ _ _ _ _)), _, _, hnow => exact (hreadings j now hnow).snoc _
      | .inr (.inr _), _, _, hnow => exact (hreadings j now hnow).snoc _
      | .inl _, _, _, hnow => exact (hreadings j now hnow).snoc _
    · rw [Function.update_of_ne hij] at hnow
      exact (hreadings j now hnow).snoc _
  · rcases List.mem_append.mp hs with hs | hs
    · exact (hscripts s hs name capacity rate now ttl hcmd).snoc _
    · obtain rfl := List.mem_singleton.mp hs
      obtain rfl : c = _ := hcmd
      exact (hreadings i now hc).snoc _

/-- What a script is sent with was read from the clock, by the same check. -/
theorem script_read (hr : Run (process K runs) (serving failThreshold resetTimeoutS redis key rpm) h p)
    {s : Step limitersI Exn ι Process} (hs : s ∈ h) {name : String} {capacity rate now ttl : ℚ}
    (hcmd : s.event.cmd = .inr (.inl (.script name capacity rate now ttl))) : ReadBy h s.thread now := by
  have hmeets : (process K runs).Meets timely := fun _ _ _ _ _ => trivial
  have hstart : Timed ([] : List (Step limitersI Exn ι Process)) ⟨.new failThreshold resetTimeoutS, redis, .new, []⟩ fun _ => [] :=
    ⟨fun _ _ hnow => absurd hnow List.not_mem_nil, fun _ hs => absurd hs List.not_mem_nil⟩
  have hrun : Timed h p.world (watched timely (fun _ => []) h) :=
    Run.always hmeets (fun i => composed_timely (key i) (rpm i)) hstart (fun _ _ _ _ _ _ _ => timed_step) (fun _ _ _ _ h₀ _ => h₀) hr
  exact hrun.2 s hs name capacity rate now ttl hcmd

/-- A check that asked within a window was let through in it. -/
theorem through_within (hr : Run (process K runs) (serving failThreshold resetTimeoutS redis key rpm) h p) {a b t : ℚ}
    (hi : ∀ s ∈ h, s.thread = i → a ≤ s.before.redis.now ∧ s.before.redis.now ≤ b) (ht : ThroughAt K h i t) : a ≤ t ∧ t ≤ b := by
  obtain ⟨s, hs, rfl, hpassed⟩ := ht
  unfold passed at hpassed
  split at hpassed
  · rename_i hevent
    obtain ⟨x, hx, hthread, _, hnow⟩ := script_read hr hs (congrArg Event.cmd hevent)
    unfold allowedAt at hpassed
    split_ifs at hpassed
    rw [← Option.some.inj hpassed, ← hnow]
    exact hi x hx hthread
  · have hnow : s.before.redis.now = t := by
      unfold returnedAt at hpassed
      split at hpassed
      · split_ifs at hpassed
        exact Option.some.inj hpassed
      · cases hpassed
    rw [← hnow]
    exact hi s hs rfl
  · cases hpassed

end Runs
end ResilientRateLimiter
end Relayix
