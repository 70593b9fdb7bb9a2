import Relayix.Domain.Uuid
import Relayix.Library.Simulation
import Relayix.Services.IdempotencyAnswers

/-! Calls of different tenants against one Redis.

The name of a record puts the text of the API key's UUID, which is 36 characters long, before the
client's key: whatever the client writes there, colons or the UUID of somebody else, two pairs have
two names. Every command of a call has the name of its own pair, so the calls on one pair run as
if nobody else used the store. -/
namespace Relayix
open Library

/-- An API key, and an idempotency key that its client chose. -/
abbrev Slot := UUID × String

def Slot.name (slot : Slot) : String := redisKey slot.1 slot.2

theorem Slot.name_injective {slot slot' : Slot} (h : slot.name = slot'.name) : slot = slot' := by
  have h := congrArg String.toList h
  simp only [name, redisKey, String.toList_append, List.append_assoc] at h
  have hrest := List.append_cancel_left h
  obtain ⟨huuid, hkey⟩ := List.append_inj hrest (by rw [UUID.str_length, UUID.str_length])
  exact Prod.ext (UUID.str_injective (String.ext huuid)) (String.ext (List.append_cancel_left hkey))

section Store
variable {w w' w₁ : Redis} {c : RedisCmd} {name : String}

theorem exec_now : (w.exec c).2.now = w.now := by
  cases c with
  | set name value nx ex =>
    simp only [Redis.exec]
    split
    · rfl
    · split <;> rfl
  | get name => rfl
  | delete name => rfl

/-- A command leaves every other record as it was. -/
theorem exec_entries_ne (h : name ≠ c.name) : (w.exec c).2.entries name = w.entries name := by
  cases c with
  | set name' value nx ex =>
    simp only [Redis.exec]
    split
    · rfl
    · split
      · rfl
      · exact Expiring.write_entries_ne h
  | get name' => rfl
  | delete name' => exact Expiring.erase_entries_ne h

theorem read_congr (hnow : w₁.now = w.now) (he : w₁.entries name = w.entries name) : w₁.read name = w.read name := by
  simp only [Expiring.read, Expiring.find, hnow, he]

/-- What a command answers and writes depends on the record under its own name. -/
theorem exec_congr (hnow : w₁.now = w.now) (he : w₁.entries c.name = w.entries c.name) :
    (w₁.exec c).1 = (w.exec c).1 ∧ (w₁.exec c).2.entries c.name = (w.exec c).2.entries c.name := by
  have hread := read_congr hnow he
  cases c with
  | set name value nx ex =>
    simp only [RedisCmd.name] at hread he ⊢
    simp only [Redis.exec]
    rw [hread]
    by_cases hex : ex ≤ 0
    · simp [hex, he]
    · by_cases hnx : (nx && (w.read name).isSome) = true
      · simp only [hex, hnx, if_true, if_false]
        exact ⟨trivial, he⟩
      · simp [hex, hnx, hnow]
  | get name => exact ⟨congrArg Except.ok hread, he⟩
  | delete name =>
    simp only [RedisCmd.name] at hread ⊢
    simp [Redis.exec, hread]

end Store

/-- The store commands with the name of a chosen slot, and everything that is no store command. -/
def Names (J : Interface) (mine : Slot → Prop) : (redisI.sum J).Cmd → Prop
  | .inl c => ∃ slot, mine slot ∧ c.name = slot.name
  | .inr _ => True

/-- What the calls on the chosen slots see of Redis: the time, and the records of these slots. -/
structure SameSlots (mine : Slot → Prop) (w w₁ : Redis) : Prop where
  now : w₁.now = w.now
  entries : ∀ slot, mine slot → w₁.entries slot.name = w.entries slot.name

section Slots
variable {J : Interface} {mine : Slot → Prop} {w w' w₁ : Redis} {c : RedisCmd}

theorem SameSlots.exec (h : SameSlots mine w w₁) {slot : Slot} (hslot : mine slot) (hc : c.name = slot.name) :
    (w₁.exec c).1 = (w.exec c).1 ∧ SameSlots mine (w.exec c).2 (w₁.exec c).2 := by
  obtain ⟨hanswer, hentry⟩ := exec_congr h.now (by rw [hc]; exact h.entries slot hslot)
  refine ⟨hanswer, by rw [exec_now, exec_now, h.now], fun slot' hslot' => ?_⟩
  by_cases hname : slot'.name = c.name
  · rw [hname]
    exact hentry
  · rw [exec_entries_ne hname, exec_entries_ne hname]
    exact h.entries slot' hslot'

/-- A command on a slot that is not chosen changes none of the chosen ones. -/
theorem SameSlots.beside (h : SameSlots mine w w₁) {slot : Slot} (hslot : ¬ mine slot) (hc : c.name = slot.name) :
    SameSlots mine (w.exec c).2 w₁ := by
  refine ⟨by rw [exec_now, h.now], fun slot' hslot' => ?_⟩
  have hname : slot'.name ≠ c.name := by
    intro he
    rw [Slot.name_injective (he.trans hc)] at hslot'
    exact hslot hslot'
  rw [exec_entries_ne hname]
  exact h.entries slot' hslot'

def slotSimulation (J : Interface) (mine : Slot → Prop) :
    Simulation (served J) (served J) (Names J mine) (Names J fun slot => ¬ mine slot) where
  same := SameSlots mine
  within := by
    intro w w₁ w' c a hc hsame ha
    obtain c | c := c
    · obtain ⟨slot, hslot, hname⟩ := hc
      obtain ⟨hanswer, hafter⟩ := hsame.exec hslot hname
      rcases ha with ha | ⟨e, rfl, rfl | rfl⟩
      · have hfirst : a = (w₁.exec c).1 := (congrArg Prod.fst ha).trans hanswer.symm
        have hsecond : w' = (w.exec c).2 := congrArg Prod.snd ha
        rw [hsecond]
        exact ⟨(w₁.exec c).2, .inl (by rw [hfirst]), hafter⟩
      · exact ⟨w₁, .inr ⟨e, rfl, .inl rfl⟩, hsame⟩
      · exact ⟨(w₁.exec c).2, .inr ⟨e, rfl, .inr rfl⟩, hafter⟩
    · obtain rfl : w' = w := ha
      exact ⟨w₁, rfl, hsame⟩
  beside := by
    intro w w₁ w' c a hc hsame ha
    obtain c | c := c
    · obtain ⟨slot, hslot, hname⟩ := hc
      have hafter := hsame.beside hslot hname
      rcases ha with ha | ⟨e, _, rfl | rfl⟩
      · have hsecond : w' = (w.exec c).2 := congrArg Prod.snd ha
        rw [hsecond]
        exact hafter
      · exact hsame
      · exact hafter
    · obtain rfl : w' = w := ha
      exact hsame
  elapses := by
    intro w w₁ w' hsame hw
    refine ⟨{ w₁ with now := w'.now }, ⟨?_, rfl⟩, rfl, fun slot hslot => ?_⟩
    · rw [hsame.now]
      exact hw.later
    · rw [hw.entries]
      exact hsame.entries slot hslot

end Slots

namespace IdempotencyService

/-- A call asks the store about its own slot only. -/
theorem call_names (self : IdempotencyService) {mine : Slot → Prop} {slot : Slot} (hslot : mine slot) (c : KeyedCall) :
    (self.call slot.1 slot.2 c).Asks (Names callI mine) := by
  refine Prog.Asks.of_obeys (self.call_named slot.1 slot.2 c) (fun _ _ => trivial) fun _ c hc => ?_
  obtain c | c := c
  · exact ⟨slot, hslot, hc⟩
  · trivial

section Tenants
variable {ι : Type} [DecidableEq ι] (self : IdempotencyService) (slots : ι → Slot) (calls : ι → KeyedCall)

/-- The calls of any number of tenants, on a Redis that may hold anything. -/
abbrev tenants (w : Redis) : Pool (redisI.sum callI) Exn ι Redis :=
  ⟨w, fun i => self.call (slots i).1 (slots i).2 (calls i)⟩

variable {self slots calls} {w : Redis} {h : Steps ι} {p : Pool (redisI.sum callI) Exn ι Redis}

/-- **Tenants do not interfere.** Take any of the slots out of a run, with every command that was
issued on them: the same calls on the other slots issue the same commands in the same order, get
the same answers, find the same records at every step and leave the same ones. -/
theorem slots_independent (kept : Slot → Prop) [DecidablePred kept]
    (hr : Run (served callI) (self.tenants slots calls w) h p) :
    ∃ h₁ p₁, Run (served callI) (self.tenants slots calls w) h₁ p₁ ∧
      List.Forall₂ (slotSimulation callI kept).Alike (stepsOf (fun i => kept (slots i)) h) h₁ ∧
      (∀ i, kept (slots i) → log i h₁ = log i h ∧ p₁.threads i = p.threads i) ∧
      (∀ i, ¬ kept (slots i) → p₁.threads i = self.call (slots i).1 (slots i).2 (calls i)) ∧
      p₁.world.now = p.world.now ∧
      ∀ slot, kept slot → p₁.world.entries (redisKey slot.1 slot.2) = p.world.entries (redisKey slot.1 slot.2) := by
  obtain ⟨h₁, p₁, hr₁, halike, hsame, hthreads⟩ := hr.without (slotSimulation callI kept) (fun i => kept (slots i))
    (fun i hi => self.call_names hi (calls i)) (fun i hi => self.call_names hi (calls i)) ⟨rfl, fun _ _ => rfl⟩
  refine ⟨h₁, p₁, hr₁, halike, fun i hi => ⟨Simulation.log_stepsOf hi halike, ?_⟩, fun i hi => ?_, hsame.now, hsame.entries⟩
  · rw [hthreads i, if_pos hi]
  · rw [hthreads i, if_neg hi]

end Tenants

/-- The second tenant sends the first one's record name as its key. -/
def trialSlots : Bool → Slot
  | true => (⟨7⟩, "k1")
  | false => (⟨8⟩, redisKey ⟨7⟩ "k1")

/-- Both claim their keys and the second completes; alone, the first claims its key as well. -/
theorem slots_independent_imitated :
    ∃ (h h₁ : Steps Bool) (p₁ : Pool (redisI.sum callI) Exn Bool Redis),
      h.map Step.thread = [false, true, false, false] ∧
      Run (served callI) (trialService.tenants trialSlots (fun _ => ⟨trialRequest, false⟩) ⟨0, fun _ => none⟩) h₁ p₁ ∧
      log true h₁ = log true h := by
  let mine := redisKey ⟨7⟩ "k1"
  let other := redisKey ⟨8⟩ mine
  let print := trialService.fingerprint trialRequest
  let w₀ : Redis := ⟨0, fun _ => none⟩
  let w₁ : Redis := w₀.write other (.claimed print) (120 : Int)
  let w₂ : Redis := w₁.write mine (.claimed print) (120 : Int)
  let w₃ : Redis := w₂.write other (.completed print (serialize trialResponse)) (86400 : Int)
  have absent : w₁.find mine = none := by
    have hne : mine ≠ other := fun he => absurd (@Slot.name_injective (⟨7⟩, "k1") (⟨8⟩, mine) he)
      (by decide)
    have hentry : w₁.entries mine = none := Expiring.write_entries_ne hne
    exact Expiring.find_eq_none.mpr fun e he => by rw [hentry] at he; cases he
  have r₀ : Run (served callI) (trialService.tenants trialSlots (fun _ => ⟨trialRequest, false⟩) w₀) [] _ := .start
  have r₁ := r₀.answer false rfl (.ok true) w₁ (exec_taken (by decide) rfl)
  have r₂ := r₁.answer true rfl (.ok true) w₂ (exec_taken (by decide) absent)
  have r₃ := r₂.answer false rfl (.ok trialResponse) w₂ rfl
  have r₄ := r₃.answer false rfl (.ok true) w₃ (exec_write (by decide))
  obtain ⟨h₁, p₁, hr₁, _, hlog, _⟩ := slots_independent (· = trialSlots true) r₄
  exact ⟨_, h₁, p₁, rfl, hr₁, (hlog true rfl).1⟩

end IdempotencyService
end Relayix
