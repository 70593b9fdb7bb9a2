import Mathlib.Tactic.NormNum
import Mathlib.Tactic.Positivity
import Relayix.Core.Exceptions
import Relayix.Library.TokenBucket

/-! The in-memory limiter (`core/ratelimit/token_bucket.py`).

`check` runs under a lock and reads the clock inside it, so a call is one step here, at the time
it reads. Times and tokens are exact. A history is a list of calls, the last one first. -/
namespace Relayix
open Library

/-- The buckets of the limiter, a dict. -/
structure InMemoryRateLimiter where
  buckets : UUID → Option (Bucket ℚ)

/-- `check(key, rpm)`, at the time it reads. -/
structure RateCall where
  key : UUID
  rpm : Nat
  now : ℚ
  deriving DecidableEq

/-- `RateLimitExceeded(retry_after_s=...)` -/
def Exn.rateLimited (retryAfterS : ℚ) : Exn := .rateLimitExceeded retryAfterS "Rate limit exceeded"

namespace InMemoryRateLimiter

def new : InMemoryRateLimiter := ⟨fun _ => none⟩

def put (self : InMemoryRateLimiter) (key : UUID) (bucket : Bucket ℚ) : InMemoryRateLimiter :=
  ⟨fun k => if k = key then some bucket else self.buckets k⟩

def check (self : InMemoryRateLimiter) (c : RateCall) : Except Exn Unit × InMemoryRateLimiter :=
  let capacity : ℚ := c.rpm
  let refillRate : ℚ := c.rpm / 60
  -- a brand-new caller starts with a full bucket
  let bucket := (self.buckets c.key).getD ⟨capacity, c.now⟩
  let elapsed := c.now - bucket.lastRefill
  let tokens := min capacity (bucket.tokens + elapsed * refillRate)
  if 1 ≤ tokens then (.ok (), self.put c.key ⟨tokens - 1, c.now⟩)
  else if refillRate = 0 then
    (.error (.exception "ZeroDivisionError" "float division by zero"), self.put c.key ⟨tokens, c.now⟩)
  else (.error (.rateLimited ((1 - tokens) / refillRate)), self.put c.key ⟨tokens, c.now⟩)

theorem put_self (self : InMemoryRateLimiter) (key : UUID) (bucket : Bucket ℚ) :
    (self.put key bucket).buckets key = some bucket := if_pos rfl

theorem put_ne {self : InMemoryRateLimiter} {key k : UUID} {bucket : Bucket ℚ} (h : k ≠ key) :
    (self.put key bucket).buckets k = self.buckets k := if_neg h

/-- The bucket that a call finds, or begins with. -/
def found (self : InMemoryRateLimiter) (c : RateCall) : Bucket ℚ := (self.buckets c.key).getD (.fresh c.rpm c.now)

/-- The tokens that a call finds. -/
def tokens (self : InMemoryRateLimiter) (c : RateCall) : ℚ := Bucket.level c.rpm (c.rpm / 60) (self.found c) c.now

/-- The answer of a token bucket, by the tokens it has. -/
def answer (rpm : Nat) (tokens : ℚ) : Except Exn Unit :=
  if 1 ≤ tokens then .ok () else .error (.rateLimited ((1 - tokens) / (rpm / 60)))

theorem rate_pos {rpm : Nat} (hrpm : 1 ≤ rpm) : (0 : ℚ) < rpm / 60 := div_pos (Nat.cast_pos.mpr hrpm) (by norm_num)

/-- A check is a request to the bucket of its key. -/
theorem check_eq (self : InMemoryRateLimiter) {c : RateCall} (hrpm : 1 ≤ c.rpm) :
    self.check c = (answer c.rpm (self.tokens c), self.put c.key ((self.found c).next c.rpm (c.rpm / 60) c.now)) := by
  have hrate : (c.rpm : ℚ) / 60 ≠ 0 := (rate_pos hrpm).ne'
  show (if 1 ≤ self.tokens c then _ else if _ then _ else _) = _
  rw [if_neg hrate, answer]
  by_cases h : 1 ≤ self.tokens c
  · rw [if_pos h, if_pos h, Bucket.next_admitted h]
    rfl
  · rw [if_neg h, if_neg h, Bucket.next_refused h]
    rfl

/-! ### Histories -/

/-- The limiter after these calls. -/
def after : List RateCall → InMemoryRateLimiter
  | [] => new
  | c :: earlier => ((after earlier).check c).2

/-- What the last of these calls is answered. -/
def answered (c : RateCall) (earlier : List RateCall) : Except Exn Unit := ((after earlier).check c).1

/-- The calls on a key that returned. -/
def returned (key : UUID) : List RateCall → List RateCall
  | [] => []
  | c :: earlier => if c.key = key ∧ answered c earlier = .ok () then c :: returned key earlier else returned key earlier

/-- The calls on the key are for one limit, and each is no earlier than the one before it. -/
def Timed (key : UUID) (rpm : Nat) (calls : List RateCall) : Prop :=
  (∀ c ∈ calls, c.key = key → c.rpm = rpm) ∧
    (calls.filter fun c => c.key = key).Pairwise fun later earlier => earlier.now ≤ later.now

section Key
variable {key : UUID} {rpm : Nat} {c : RateCall} {earlier : List RateCall}

theorem Timed.tail (h : Timed key rpm (c :: earlier)) : Timed key rpm earlier := by
  refine ⟨fun c' hc' => h.1 c' (List.mem_cons_of_mem c hc'), ?_⟩
  exact h.2.sublist ((List.sublist_cons_self c earlier).filter _)

theorem Timed.le (h : Timed key rpm (c :: earlier)) (hc : c.key = key) : ∀ c' ∈ earlier, c'.key = key → c'.now ≤ c.now := by
  intro c' hc' hkey
  have hpairs := h.2
  rw [List.filter_cons, if_pos (decide_eq_true hc)] at hpairs
  exact (List.pairwise_cons.mp hpairs).1 c' (List.mem_filter.mpr ⟨hc', decide_eq_true hkey⟩)

/-- What the limiter has of the key after these calls. -/
def Kept (key : UUID) (rpm : Nat) (calls : List RateCall) : Option (Bucket ℚ) → Prop
  | none => returned key calls = []
  | some b => b.Accounts (rpm : ℚ) (rpm / 60) ((returned key calls).map RateCall.now) ∧
      ∃ c ∈ calls, c.key = key ∧ b.lastRefill = c.now

/-- The bucket that a call finds is what the returned calls have left. -/
theorem found_accounts (h : Timed key rpm (c :: earlier)) (hc : c.key = key)
    (hkept : Kept key rpm earlier ((after earlier).buckets key)) :
    ((after earlier).found c).Accounts (rpm : ℚ) (rpm / 60) ((returned key earlier).map RateCall.now) ∧
      ((after earlier).found c).lastRefill ≤ c.now := by
  have hrpm : c.rpm = rpm := h.1 c List.mem_cons_self hc
  rw [found, hc, hrpm]
  cases hb : (after earlier).buckets key with
  | none =>
    rw [hb] at hkept
    rw [show returned key earlier = [] from hkept]
    exact ⟨Bucket.accounts_fresh (Nat.cast_nonneg rpm) (by positivity), le_refl _⟩
  | some b =>
    rw [hb] at hkept
    obtain ⟨haccounts, c', hc', hkey, hlast⟩ := hkept
    refine ⟨haccounts, ?_⟩
    rw [Option.getD_some, hlast]
    exact h.le hc c' hc' hkey

/-- A call on another key leaves what there is of this one. -/
theorem check_other (self : InMemoryRateLimiter) (hc : c.key ≠ key) : (self.check c).2.buckets key = self.buckets key := by
  have hput : ∀ b, (self.put c.key b).buckets key = self.buckets key := fun b => put_ne (Ne.symm hc)
  unfold check
  dsimp only
  split
  · exact hput _
  · split <;> exact hput _

theorem check_ok_iff (self : InMemoryRateLimiter) (hrpm : 1 ≤ c.rpm) : (self.check c).1 = .ok () ↔ 1 ≤ self.tokens c := by
  rw [check_eq self hrpm, answer]
  split <;> simp [*]

/-- A call on the key returns when its bucket has a token. -/
theorem returned_cons (hrpm : 1 ≤ c.rpm) (hc : c.key = key) :
    (returned key (c :: earlier)).map RateCall.now =
      if 1 ≤ (after earlier).tokens c then c.now :: (returned key earlier).map RateCall.now
      else (returned key earlier).map RateCall.now := by
  have hok : c.key = key ∧ answered c earlier = .ok () ↔ 1 ≤ (after earlier).tokens c :=
    (and_iff_right hc).trans (check_ok_iff _ hrpm)
  by_cases h : 1 ≤ (after earlier).tokens c
  · rw [returned, if_pos (hok.mpr h), if_pos h, List.map_cons]
  · rw [returned, if_neg fun h' => h (hok.mp h'), if_neg h]

/-- And so the bucket goes on. -/
theorem next_accounts {b : Bucket ℚ} (hrpm : 1 ≤ c.rpm) (hc : c.key = key) (hb : (after earlier).found c = b)
    (h : b.Accounts (c.rpm : ℚ) (c.rpm / 60) ((returned key earlier).map RateCall.now)) (hlast : b.lastRefill ≤ c.now) :
    (b.next (c.rpm : ℚ) (c.rpm / 60) c.now).Accounts (c.rpm : ℚ) (c.rpm / 60)
      ((returned key (c :: earlier)).map RateCall.now) := by
  subst hb
  rw [returned_cons hrpm hc]
  exact h.next (Nat.cast_nonneg c.rpm) (rate_pos hrpm).le hlast

theorem after_kept (hrpm : 1 ≤ rpm) {calls : List RateCall} (h : Timed key rpm calls) :
    Kept key rpm calls ((after calls).buckets key) := by
  induction calls with
  | nil => rfl
  | cons c earlier ih =>
    have hkept := ih h.tail
    by_cases hc : c.key = key
    · obtain rfl := h.1 c List.mem_cons_self hc
      obtain ⟨haccounts, hlast⟩ := found_accounts h hc hkept
      have hfound : (after (c :: earlier)).buckets key = some (((after earlier).found c).next (c.rpm : ℚ) (c.rpm / 60) c.now) := by
        show ((after earlier).check c).2.buckets key = _
        rw [check_eq _ hrpm]
        exact if_pos hc.symm
      rw [hfound]
      exact ⟨next_accounts hrpm hc rfl haccounts hlast, c, List.mem_cons_self, hc, rfl⟩
    · have hreturned : returned key (c :: earlier) = returned key earlier := if_neg fun h => hc h.1
      have hsame : (after (c :: earlier)).buckets key = (after earlier).buckets key := check_other _ hc
      rw [hsame]
      unfold Kept at hkept ⊢
      rw [hreturned]
      cases hb : (after earlier).buckets key with
      | none =>
        rw [hb] at hkept
        exact hkept
      | some b =>
        rw [hb] at hkept
        obtain ⟨haccounts, c', hc', hkey⟩ := hkept
        exact ⟨haccounts, c', List.mem_cons_of_mem c hc', hkey⟩

theorem Timed.sublist {calls calls' : List RateCall} (h : Timed key rpm calls) (hsub : calls'.Sublist calls) :
    Timed key rpm calls' :=
  ⟨fun c hc => h.1 c (hsub.subset hc), h.2.sublist (hsub.filter _)⟩

theorem returned_sublist (key : UUID) (calls : List RateCall) : (returned key calls).Sublist calls := by
  induction calls with
  | nil => exact .slnil
  | cons c earlier ih =>
    unfold returned
    split
    · exact ih.cons_cons c
    · exact ih.cons c

theorem key_of_returned {calls : List RateCall} : ∀ c ∈ returned key calls, c.key = key := by
  induction calls with
  | nil => exact fun c hc => by cases hc
  | cons c earlier ih =>
    unfold returned
    split
    · rename_i hok
      exact List.forall_mem_cons.mpr ⟨hok.1, ih⟩
    · exact ih

/-- The returned calls are in order too. -/
theorem returned_sorted {calls : List RateCall} (h : Timed key rpm calls) :
    (returned key calls).Pairwise fun later earlier => earlier.now ≤ later.now := by
  have hsorted := (h.sublist (returned_sublist key calls)).2
  rwa [List.filter_eq_self.mpr fun c hc => decide_eq_true (key_of_returned c hc)] at hsorted

/-- What is left of the calls before it, in terms of the calls. -/
theorem leaves_returned {capacity rate t x : ℚ} {calls : List RateCall} :
    Bucket.Leaves capacity rate t x (calls.map RateCall.now) ↔
      ∀ recent i older, calls = recent ++ i :: older → x + (recent.length + 1) ≤ capacity + rate * (t - i.now) := by
  constructor
  · rintro h recent i older rfl
    have hleaves := h (recent.map RateCall.now) i.now (older.map RateCall.now) (by rw [List.map_append, List.map_cons])
    rwa [List.length_map] at hleaves
  · intro h recent a older heq
    obtain ⟨recent', rest, rfl, rfl, hrest⟩ := List.map_eq_append_iff.mp heq
    obtain ⟨i, older', rfl, rfl, rfl⟩ := List.map_eq_cons_iff.mp hrest
    rw [List.length_map]
    exact h recent' i older' rfl

/-- A call returns when every earlier one that did leaves room for it. -/
theorem answered_iff (hrpm : 1 ≤ rpm) (h : Timed key rpm (c :: earlier)) (hc : c.key = key) :
    answered c earlier = .ok () ↔
      ∀ recent i older, returned key earlier = recent ++ i :: older →
        (recent.length + 1 : ℚ) + 1 ≤ rpm + rpm / 60 * (c.now - i.now) := by
  obtain rfl := h.1 c List.mem_cons_self hc
  obtain ⟨haccounts, hlast⟩ := found_accounts h hc (after_kept hrpm h.tail)
  have hlevel : 1 ≤ (after earlier).tokens c ↔ (1 : ℚ) ≤ c.rpm ∧ _ := haccounts.tracks c.now hlast 1
  rw [answered, check_ok_iff _ hrpm, hlevel, and_iff_right (Nat.one_le_cast.mpr hrpm), leaves_returned]
  simp only [add_comm (1 : ℚ)]

/-- With the same returned calls before it, a call gets the same answer. -/
theorem answered_congr {earlier' : List RateCall} (hrpm : 1 ≤ rpm) (h : Timed key rpm (c :: earlier)) (hc : c.key = key)
    (h' : Timed key rpm (c :: earlier')) (hsame : returned key earlier' = returned key earlier) :
    answered c earlier' = answered c earlier := by
  obtain rfl := h.1 c List.mem_cons_self hc
  obtain ⟨haccounts, hlast⟩ := found_accounts h hc (after_kept hrpm h.tail)
  obtain ⟨haccounts', hlast'⟩ := found_accounts h' hc (after_kept hrpm h'.tail)
  rw [hsame] at haccounts'
  have htokens : (after earlier').tokens c = (after earlier).tokens c := haccounts'.tracks.level_eq haccounts.tracks hlast' hlast
  rw [answered, answered, check_eq _ hrpm, check_eq _ hrpm, htokens]

theorem returned_returned (hrpm : 1 ≤ rpm) {calls : List RateCall} (h : Timed key rpm calls) :
    returned key (returned key calls) = returned key calls := by
  induction calls with
  | nil => rfl
  | cons c earlier ih =>
    have hsame := ih h.tail
    by_cases hok : c.key = key ∧ answered c earlier = .ok ()
    · have h' : Timed key rpm (c :: returned key earlier) := h.sublist ((returned_sublist key earlier).cons_cons c)
      have hok' : c.key = key ∧ answered c (returned key earlier) = .ok () :=
        ⟨hok.1, (answered_congr hrpm h hok.1 h' hsame).trans hok.2⟩
      rw [returned, if_pos hok, returned, if_pos hok', hsame]
    · rw [returned, if_neg hok, hsame]

/-- What was refused, and what was asked on other keys, makes no difference. -/
theorem answered_returned (hrpm : 1 ≤ rpm) (h : Timed key rpm (c :: earlier)) (hc : c.key = key) :
    answered c (returned key earlier) = answered c earlier :=
  answered_congr hrpm h hc (h.sublist ((returned_sublist key earlier).cons_cons c)) (returned_returned hrpm h.tail)

/-- From any time on until the last call, no more return than the limit and what is refilled. -/
theorem since_le (hrpm : 1 ≤ rpm) (h : Timed key rpm (c :: earlier)) (hc : c.key = key) {s e : ℚ} (hs : s ≤ e)
    (he : c.now ≤ e) : (((returned key (c :: earlier)).countP fun c => s ≤ c.now : Nat) : ℚ) ≤ rpm + rpm / 60 * (e - s) := by
  obtain rfl := h.1 c List.mem_cons_self hc
  obtain ⟨haccounts, hlast⟩ := found_accounts h hc (after_kept hrpm h.tail)
  have hcount := (next_accounts hrpm hc rfl haccounts hlast).count_le (Nat.cast_nonneg c.rpm) (rate_pos hrpm).le hs he
  rwa [List.countP_map] at hcount

/-- In any time, no more calls return than the limit and what is refilled in it. -/
theorem window_le (hrpm : 1 ≤ rpm) {calls : List RateCall} (h : Timed key rpm calls) (s : ℚ) {T : ℚ} (hT : 0 ≤ T) :
    (((returned key calls).countP fun c => s ≤ c.now ∧ c.now ≤ s + T : Nat) : ℚ) ≤ rpm + rpm * T / 60 := by
  induction calls with
  | nil =>
    rw [returned, List.countP_nil, Nat.cast_zero]
    positivity
  | cons c earlier ih =>
    by_cases hin : c.key = key ∧ c.now ≤ s + T
    · -- the window is still open: it is all that returned since it began
      have hmono : (returned key (c :: earlier)).countP (fun c => s ≤ c.now ∧ c.now ≤ s + T) ≤
          (returned key (c :: earlier)).countP fun c => s ≤ c.now :=
        List.countP_mono_left fun c' _ hboth => decide_eq_true (of_decide_eq_true hboth).1
      have hsince := since_le hrpm h hin.1 (le_add_of_nonneg_right hT) hin.2
      calc (((returned key (c :: earlier)).countP fun c => s ≤ c.now ∧ c.now ≤ s + T : Nat) : ℚ)
          ≤ ((returned key (c :: earlier)).countP fun c => s ≤ c.now : Nat) := Nat.cast_le.mpr hmono
        _ ≤ rpm + rpm / 60 * (s + T - s) := hsince
        _ = rpm + rpm * T / 60 := by ring
    · have hcount : (returned key (c :: earlier)).countP (fun c => s ≤ c.now ∧ c.now ≤ s + T) =
          (returned key earlier).countP fun c => s ≤ c.now ∧ c.now ≤ s + T := by
        by_cases hok : c.key = key ∧ answered c earlier = .ok ()
        · have hout : ¬ (s ≤ c.now ∧ c.now ≤ s + T) := fun hboth => hin ⟨hok.1, hboth.2⟩
          rw [returned, if_pos hok, List.countP_cons_of_neg (by simpa using hout)]
        · rw [returned, if_neg hok]
      rw [hcount]
      exact ih h.tail

/-- A refused call would have broken the bound of a window that ends with it. -/
theorem refused_window (hrpm : 1 ≤ rpm) (h : Timed key rpm (c :: earlier)) (hc : c.key = key)
    (hno : answered c earlier ≠ .ok ()) :
    ∃ i ∈ returned key earlier, (rpm : ℚ) + rpm * (c.now - i.now) / 60 <
      ((returned key earlier).countP fun c' => i.now ≤ c'.now ∧ c'.now ≤ c.now : Nat) + 1 := by
  by_contra hall
  push Not at hall
  refine hno ((answered_iff hrpm h hc).mpr fun recent i older heq => ?_)
  have hmem : i ∈ returned key earlier := by
    rw [heq]
    exact List.mem_append_right _ List.mem_cons_self
  have hwithin : recent.length + 1 ≤
      (returned key earlier).countP fun c' => i.now ≤ c'.now ∧ c'.now ≤ c.now := by
    have hsorted := returned_sorted h.tail
    rw [heq] at hsorted ⊢
    have hrecent : ∀ c' ∈ recent ++ [i], i.now ≤ c'.now ∧ c'.now ≤ c.now := by
      intro c' hc'
      have hreturned : c' ∈ returned key earlier := by
        rw [heq, ← List.singleton_append, ← List.append_assoc]
        exact List.mem_append_left _ hc'
      refine ⟨?_, h.le hc c' ((returned_sublist key earlier).subset hreturned) (key_of_returned c' hreturned)⟩
      rcases List.mem_append.mp hc' with hc' | hc'
      · exact (List.pairwise_append.mp hsorted).2.2 c' hc' i List.mem_cons_self
      · rw [List.mem_singleton.mp hc']
    have hall : (recent ++ [i]).countP (fun c' => i.now ≤ c'.now ∧ c'.now ≤ c.now) = (recent ++ [i]).length :=
      List.countP_eq_length.mpr fun c' hc' => decide_eq_true (hrecent c' hc')
    rw [List.append_cons, List.countP_append, hall, List.length_append, List.length_singleton]
    exact Nat.le_add_right _ _
  have hbound := hall i hmem
  have hcast : ((recent.length + 1 : Nat) : ℚ) ≤ _ := Nat.cast_le.mpr hwithin
  rw [Nat.cast_add, Nat.cast_one] at hcast
  calc (recent.length + 1 : ℚ) + 1 ≤ _ + 1 := by linarith
    _ ≤ rpm + rpm * (c.now - i.now) / 60 := hbound
    _ = rpm + rpm / 60 * (c.now - i.now) := by ring

end Key

/-- The limiter is a token bucket for each key: a call returns exactly when every window that ends
with it leaves room, whatever was refused or asked on other keys; a window never holds more than
the limit and its refill, and what is refused would have been too much for one. -/
theorem admits_exactly {key : UUID} {rpm : Nat} (hrpm : 1 ≤ rpm) :
    (∀ c earlier, Timed key rpm (c :: earlier) → c.key = key →
      (answered c earlier = .ok () ↔
        ∀ recent i older, returned key earlier = recent ++ i :: older →
          (recent.length + 1 : ℚ) + 1 ≤ rpm + rpm / 60 * (c.now - i.now)) ∧
      answered c (returned key earlier) = answered c earlier ∧
      (answered c earlier ≠ .ok () → ∃ i ∈ returned key earlier, (rpm : ℚ) + rpm * (c.now - i.now) / 60 <
        ((returned key earlier).countP fun c' => i.now ≤ c'.now ∧ c'.now ≤ c.now : Nat) + 1)) ∧
    (∀ calls, Timed key rpm calls → ∀ s T : ℚ, 0 ≤ T →
      (((returned key calls).countP fun c => s ≤ c.now ∧ c.now ≤ s + T : Nat) : ℚ) ≤ rpm + rpm * T / 60) :=
  ⟨fun _ _ h hc => ⟨answered_iff hrpm h hc, answered_returned hrpm h hc, refused_window hrpm h hc⟩,
    fun _ h s _ hT => window_le hrpm h s hT⟩

/-- One a minute, asked at once, after half a minute, and after a whole one. -/
theorem admits_exactly_slow :
    (answered ⟨⟨7⟩, 1, 60⟩ [⟨⟨7⟩, 1, 30⟩, ⟨⟨8⟩, 1, 10⟩, ⟨⟨7⟩, 1, 0⟩] = .ok () ↔
      ∀ recent i older, returned ⟨7⟩ [⟨⟨7⟩, 1, 30⟩, ⟨⟨8⟩, 1, 10⟩, ⟨⟨7⟩, 1, 0⟩] = recent ++ i :: older →
        (recent.length + 1 : ℚ) + 1 ≤ (1 : Nat) + (1 : Nat) / 60 * (60 - i.now)) ∧
    (((returned ⟨7⟩ [⟨⟨7⟩, 1, 30⟩, ⟨⟨8⟩, 1, 10⟩, ⟨⟨7⟩, 1, 0⟩]).countP fun c => 0 ≤ c.now ∧ c.now ≤ 0 + 45 : Nat) : ℚ) ≤
      (1 : Nat) + (1 : Nat) * 45 / 60 :=
  ⟨((admits_exactly (le_refl 1)).1 _ _ (by constructor <;> decide) rfl).1,
    (admits_exactly (le_refl 1)).2 _ (by constructor <;> decide) 0 45 (by norm_num)⟩

end InMemoryRateLimiter
end Relayix
