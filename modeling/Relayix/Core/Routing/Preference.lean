import Mathlib.Data.List.Induction
import Relayix.Core.Routing.Strategies

/-! Preference lists.

A list of providers is honoured when the first position of a provider decides. The strategy ranks
by the last one, and puts a provider that is not listed at the number of different ones, so a list
that repeats itself is honoured for some candidates only. -/
namespace Relayix
open Library
namespace PriorityStrategy

variable {order : List ProviderEnum} {candidates ranked : List Candidate} {p q : ProviderEnum} {i j : Nat}

/-! ### The ranks -/

/-- The last position of a provider in a list. -/
def LastAt (order : List ProviderEnum) (p : ProviderEnum) (i : Nat) : Prop :=
  order[i]? = some p ∧ ∀ j, i < j → order[j]? ≠ some p

theorem lastAt_append_self (order : List ProviderEnum) (p : ProviderEnum) :
    LastAt (order ++ [p]) p i ↔ i = order.length := by
  constructor
  · rintro ⟨hi, hlast⟩
    have hlt := (List.getElem?_eq_some_iff.mp hi).1
    rw [List.length_append, List.length_singleton] at hlt
    by_contra hne
    exact hlast order.length (by omega) List.getElem?_concat_length
  · rintro rfl
    refine ⟨List.getElem?_concat_length, fun j hj heq => ?_⟩
    have hlt := (List.getElem?_eq_some_iff.mp heq).1
    rw [List.length_append, List.length_singleton] at hlt
    omega

theorem lastAt_append_ne (order : List ProviderEnum) (h : p ≠ q) : LastAt (order ++ [q]) p i ↔ LastAt order p i := by
  have hsame : ∀ j : Nat, (order ++ [q])[j]? = some p ↔ order[j]? = some p := by
    intro j
    rcases Nat.lt_trichotomy j order.length with hlt | rfl | hgt
    · rw [List.getElem?_append_left hlt]
    · simp [Ne.symm h]
    · rw [List.getElem?_eq_none (by simp; omega), List.getElem?_eq_none (by omega)]
  unfold LastAt
  simp only [hsame, ne_eq]

theorem exists_lastAt (h : p ∈ order) : ∃ i, LastAt order p i := by
  induction order using List.reverseRecOn with
  | nil => cases h
  | append_singleton order last ih =>
    by_cases hlast : p = last
    · rw [hlast]
      exact ⟨order.length, (lastAt_append_self order last).mpr rfl⟩
    · have hmem : p ∈ order := (List.mem_append.mp h).resolve_right fun hp => hlast (List.mem_singleton.mp hp)
      obtain ⟨i, hi⟩ := ih hmem
      exact ⟨i, (lastAt_append_ne order hlast).mpr hi⟩

theorem ranks_append (order : List ProviderEnum) (p : ProviderEnum) :
    (new (order ++ [p])).ranks = (new order).ranks.insert p order.length := by
  simp [new, List.zipIdx_append, List.foldl_append]

/-- A provider's rank is its last position. -/
theorem lookup_ranks : (new order).ranks.lookup p = some i ↔ LastAt order p i := by
  induction order using List.reverseRecOn with
  | nil => simp [new, LastAt]
  | append_singleton order last ih =>
    rw [ranks_append]
    by_cases hlast : p = last
    · rw [hlast, AList.lookup_insert, lastAt_append_self, Option.some.injEq, eq_comm]
    · rw [AList.lookup_insert_ne hlast, ih, lastAt_append_ne order hlast]

theorem mem_ranks : p ∈ (new order).ranks ↔ p ∈ order := by
  induction order using List.reverseRecOn with
  | nil => simp [new]
  | append_singleton order last ih =>
    rw [ranks_append, AList.mem_insert, ih, List.mem_append, List.mem_singleton, or_comm]

/-- There are as many ranks as different providers. -/
theorem length_ranks (order : List ProviderEnum) : (new order).ranks.keys.length = order.dedup.length := by
  refine ((List.perm_ext_iff_of_nodup (new order).ranks.keys_nodup order.nodup_dedup).mpr fun p => ?_).length_eq
  rw [← AList.mem_keys, mem_ranks, List.mem_dedup]

/-- What a provider is sorted by. -/
def place (order : List ProviderEnum) (p : ProviderEnum) : Nat :=
  ((new order).ranks.lookup p).getD (new order).ranks.keys.length

theorem place_of_lastAt (h : LastAt order p i) : place order p = i := by
  rw [place, lookup_ranks.mpr h, Option.getD_some]

theorem place_of_unlisted (h : p ∉ order) : place order p = order.dedup.length := by
  rw [place, AList.lookup_eq_none.mpr (mem_ranks.not.mpr h), Option.getD_none, length_ranks]

theorem rank_ranked (order : List ProviderEnum) (candidates : List Candidate) :
    Ranked (fun c => place order c.provider) candidates ((new order).rank candidates) :=
  ranked_sortedBy _ candidates

/-! ### What is honoured -/

/-- A preference list is honoured: every candidate is ranked, those of listed providers before
the others and by the first position of theirs, and those of one provider in the order they had. -/
structure Honours (order : List ProviderEnum) (candidates ranked : List Candidate) : Prop where
  perm : ranked.Perm candidates
  listed_first : ranked.Pairwise fun a b => b.provider ∈ order → a.provider ∈ order
  by_position : ranked.Pairwise fun a b =>
    a.provider ∈ order → b.provider ∈ order → order.idxOf a.provider ≤ order.idxOf b.provider
  same_provider : ∀ p, ranked.filter (fun c => c.provider = p) = candidates.filter fun c => c.provider = p

/-- The last positions agree with the first ones, as far as these candidates can tell: of two listed
providers the one that comes first in the list also comes last before the other, and a listed one's
last position is below the number of different providers, or is that number and its candidates
are ahead of those that are not listed. -/
structure Consistent (order : List ProviderEnum) (candidates : List Candidate) : Prop where
  listed : ∀ a ∈ candidates, ∀ b ∈ candidates, ∀ i j, LastAt order a.provider i → LastAt order b.provider j →
    order.idxOf a.provider < order.idxOf b.provider → i < j
  unlisted : ∀ a ∈ candidates, ∀ b ∈ candidates, ∀ i, LastAt order a.provider i → b.provider ∉ order →
    i < order.dedup.length ∨ (i = order.dedup.length ∧ ¬ [b, a].Sublist candidates)

theorem LastAt.mem (h : LastAt order p i) : p ∈ order := List.mem_of_getElem? h.1

theorem honours_of_consistent (h : Consistent order candidates) : Honours order candidates ((new order).rank candidates) := by
  have hrank := rank_ranked order candidates
  have hmem : ∀ {a b}, [a, b].Sublist ((new order).rank candidates) → a ∈ candidates ∧ b ∈ candidates := fun hab =>
    ⟨hrank.perm.mem_iff.mp (hab.subset List.mem_cons_self),
      hrank.perm.mem_iff.mp (hab.subset (List.mem_cons_of_mem _ List.mem_cons_self))⟩
  refine ⟨hrank.perm, List.pairwise_iff_forall_sublist.mpr fun {a b} hab hb => ?_,
    List.pairwise_iff_forall_sublist.mpr fun {a b} hab ha hb => ?_, fun p => ?_⟩
  · by_contra ha
    obtain ⟨i, hi⟩ := exists_lastAt hb
    have hplaces := hrank.before hab
    rw [place_of_lastAt hi, place_of_unlisted ha] at hplaces
    rcases h.unlisted b (hmem hab).2 a (hmem hab).1 i hi ha with hlt | ⟨heq, hnot⟩
    · omega
    · rcases hplaces with hlt | ⟨_, hsub⟩
      · omega
      · exact hnot hsub
  · by_contra hlt
    obtain ⟨i, hi⟩ := exists_lastAt ha
    obtain ⟨j, hj⟩ := exists_lastAt hb
    have hplaces := hrank.before hab
    rw [place_of_lastAt hi, place_of_lastAt hj] at hplaces
    have hji := h.listed b (hmem hab).2 a (hmem hab).1 j i hj hi (not_le.mp hlt)
    omega
  · exact hrank.filter_eq fun a ha => congrArg (place order) (of_decide_eq_true ha)

/-- Where a list is honoured, of candidates of two providers those of the one to be preferred are
the first. -/
theorem Honours.first (h : Honours order candidates ranked) {a b : Candidate} (ha : a ∈ candidates)
    (hb : b ∈ candidates) (hlisted : a.provider ∈ order)
    (hlt : order.idxOf a.provider < order.idxOf b.provider) : [a, b].Sublist ranked := by
  have hne : a ≠ b := by
    rintro rfl
    exact lt_irrefl _ hlt
  rcases sublist_or_sublist (h.perm.mem_iff.mpr ha) (h.perm.mem_iff.mpr hb) hne with hab | hba
  · exact hab
  · have hb' := List.pairwise_iff_forall_sublist.mp h.listed_first hba hlisted
    exact absurd (List.pairwise_iff_forall_sublist.mp h.by_position hba hb' hlisted) (not_le.mpr hlt)

theorem consistent_of_honours (h : Honours order candidates ((new order).rank candidates)) : Consistent order candidates := by
  have hrank := rank_ranked order candidates
  refine ⟨fun a ha b hb i j hi hj hlt => ?_, fun a ha b hb i hi hnot => ?_⟩
  · have hplaces := hrank.before (h.first ha hb hi.mem hlt)
    rw [place_of_lastAt hi, place_of_lastAt hj] at hplaces
    rcases hplaces with hij | ⟨rfl, _⟩
    · exact hij
    · have hsame : a.provider = b.provider := Option.some.inj (hi.1.symm.trans hj.1)
      rw [hsame] at hlt
      exact absurd hlt (lt_irrefl _)
  · have hlt : order.idxOf a.provider < order.idxOf b.provider := by
      rw [List.idxOf_eq_length hnot]
      exact List.idxOf_lt_length_of_mem hi.mem
    have hfirst := h.first ha hb hi.mem hlt
    have hplaces := hrank.before hfirst
    rw [place_of_lastAt hi, place_of_unlisted hnot] at hplaces
    rcases hplaces with hin | ⟨heq, _⟩
    · exact .inl hin
    · refine .inr ⟨heq, fun hba => ?_⟩
      have hkept := hrank.kept hba (by rw [place_of_lastAt hi, place_of_unlisted hnot, heq])
      exact absurd (List.pairwise_iff_forall_sublist.mp h.listed_first hkept hi.mem) hnot

/-- **A preference list is honoured for some candidates exactly when its repetitions do not show**:
the last position of each of their providers says what the first one does. -/
theorem honours_iff (order : List ProviderEnum) (candidates : List Candidate) :
    Honours order candidates ((new order).rank candidates) ↔ Consistent order candidates :=
  ⟨consistent_of_honours, honours_of_consistent⟩

/-- A provider that is listed twice is ranked with one that is not listed. -/
theorem unlisted_ranked_first :
    ¬ Honours [.anthropic, .anthropic] [⟨.openai, "gpt-4o"⟩, ⟨.anthropic, "claude-sonnet-5"⟩]
      ((new [.anthropic, .anthropic]).rank [⟨.openai, "gpt-4o"⟩, ⟨.anthropic, "claude-sonnet-5"⟩]) := by
  intro h
  have hrank : (new [.anthropic, .anthropic]).rank [⟨.openai, "gpt-4o"⟩, ⟨.anthropic, "claude-sonnet-5"⟩] =
      [⟨.openai, "gpt-4o"⟩, ⟨.anthropic, "claude-sonnet-5"⟩] := by decide
  have hlisted := h.listed_first
  rw [hrank] at hlisted
  exact absurd hlisted (by decide)

/-! ### Lists without repetitions -/

theorem lastAt_idxOf (hnodup : order.Nodup) (h : p ∈ order) : LastAt order p (order.idxOf p) := by
  have hlt := List.idxOf_lt_length_of_mem h
  have hat : order[order.idxOf p]? = some p := List.getElem?_idxOf h
  refine ⟨hat, fun j hj heq => ?_⟩
  exact hj.ne ((List.getElem?_inj hlt hnodup).mp (hat.trans heq.symm))

/-- Where nothing is repeated, a provider's place is its position, and that of one which is not
listed is the last. -/
theorem place_of_nodup (hnodup : order.Nodup) (p : ProviderEnum) : place order p = order.idxOf p := by
  by_cases h : p ∈ order
  · exact place_of_lastAt (lastAt_idxOf hnodup h)
  · rw [place_of_unlisted h, hnodup.dedup, List.idxOf_eq_length h]

theorem consistent_of_nodup (hnodup : order.Nodup) (candidates : List Candidate) : Consistent order candidates := by
  have hlast : ∀ {p i}, LastAt order p i → i = order.idxOf p := fun h =>
    (place_of_lastAt h).symm.trans (place_of_nodup hnodup _)
  refine ⟨fun a _ b _ i j hi hj hlt => ?_, fun a _ b _ i hi _ => .inl ?_⟩
  · rwa [hlast hi, hlast hj]
  · rw [hlast hi, hnodup.dedup]
    exact List.idxOf_lt_length_of_mem hi.mem

end PriorityStrategy
end Relayix
