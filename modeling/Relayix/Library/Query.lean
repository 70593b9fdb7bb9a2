import Mathlib.Algebra.BigOperators.Group.List.Basic
import Mathlib.Data.List.Dedup
import Mathlib.Data.List.Perm.Basic
import Mathlib.Data.List.Sort
import Mathlib.Order.Defs.LinearOrder

/-! Queries of a table.

An `ORDER BY` fixes the order of rows with different keys only, and may put those with the same key
in another order each time it is asked. `Splits` says when that can be seen in the first rows of
an order; pages that are asked for one after the other are a partition of the rows when it cannot
be seen where one ends. Groups partition the rows in any case. -/
namespace Relayix.Library.Query

variable {α β K : Type} [LinearOrder K]

/-- `ORDER BY key DESC` -/
structure OrderedDesc (key : α → K) (rows order : List α) : Prop where
  perm : order.Perm rows
  sorted : order.Pairwise fun a b => key b ≤ key a

/-- `LIMIT limit OFFSET offset` -/
def page (limit offset : ℕ) (order : List α) : List α := (order.drop offset).take limit

/-- The first `m` rows end among different ones with the same key. -/
def Splits (key : α → K) (rows : List α) (m : ℕ) : Prop :=
  ∃ r ∈ rows, ∃ r' ∈ rows, key r = key r' ∧ r ≠ r' ∧
    rows.countP (fun x => key r < key x) < m ∧ m < rows.countP fun x => key r ≤ key x

section Order
variable {key : α → K} {rows order order' : List α}

theorem exists_ordered (key : α → K) (rows : List α) : ∃ order, OrderedDesc key rows order := by
  refine ⟨rows.insertionSort fun a b => key b ≤ key a, List.perm_insertionSort _ rows, ?_⟩
  have : Std.Total fun a b : α => key b ≤ key a := ⟨fun a b => le_total (key b) (key a)⟩
  have : IsTrans α fun a b => key b ≤ key a := ⟨fun _ _ _ hab hbc => hbc.trans hab⟩
  exact List.pairwise_insertionSort _ rows

/-- An order has the rows above a key, those that have it, and those below, one after the other. -/
theorem OrderedDesc.split (h : OrderedDesc key rows order) (c : K) :
    order = order.filter (fun x => c < key x) ++ (order.filter (fun x => key x = c) ++ order.filter fun x => key x < c) := by
  have hsorted := h.sorted
  clear h
  induction order with
  | nil => rfl
  | cons a rest ih =>
    obtain ⟨hbelow, hrest⟩ := List.pairwise_cons.mp hsorted
    have hsplit := ih hrest
    rcases lt_trichotomy c (key a) with habove | heq | hlow
    · simp only [List.filter_cons, habove, habove.ne', habove.not_gt, decide_true, decide_false, if_true, if_false,
        List.cons_append, Bool.false_eq_true]
      exact congrArg (a :: ·) hsplit
    · have hnone : rest.filter (fun x => c < key x) = [] :=
        List.filter_eq_nil_iff.mpr fun x hx => by simpa [heq] using hbelow x hx
      rw [hnone, List.nil_append] at hsplit
      simp only [List.filter_cons, heq.symm, lt_irrefl, decide_true, decide_false, if_true, if_false, List.cons_append,
        Bool.false_eq_true, hnone, List.nil_append]
      exact congrArg (a :: ·) hsplit
    · have hnone : rest.filter (fun x => c < key x) = [] :=
        List.filter_eq_nil_iff.mpr fun x hx => by simpa using ((hbelow x hx).trans hlow.le)
      have hequal : rest.filter (fun x => key x = c) = [] :=
        List.filter_eq_nil_iff.mpr fun x hx => by simpa using ((hbelow x hx).trans_lt hlow).ne
      rw [hnone, hequal, List.nil_append, List.nil_append] at hsplit
      simp only [List.filter_cons, hlow, hlow.ne, hlow.not_gt, decide_true, decide_false, if_true, if_false,
        Bool.false_eq_true, hnone, hequal, List.nil_append]
      exact congrArg (a :: ·) hsplit

/-- The keys are in the same order in all of them. -/
theorem OrderedDesc.map_key (h : OrderedDesc key rows order) (h' : OrderedDesc key rows order') :
    order.map key = order'.map key := by
  refine List.Perm.eq_of_pairwise (fun a b _ _ hab hba => le_antisymm hba hab) ?_ ?_ ((h.perm.trans h'.perm.symm).map key)
  · exact List.pairwise_map.mpr h.sorted
  · exact List.pairwise_map.mpr h'.sorted

theorem countP_le (key : α → K) (c : K) (rows : List α) :
    rows.countP (fun x => c ≤ key x) = rows.countP (fun x => c < key x) + rows.countP fun x => key x = c := by
  induction rows with
  | nil => rfl
  | cons a rest ih =>
    simp only [List.countP_cons, ih, decide_eq_true_iff]
    rcases lt_trichotomy c (key a) with habove | rfl | hlow
    · simp only [habove, habove.le, habove.ne', if_true, if_false]
      omega
    · simp only [lt_irrefl, le_refl, if_true, if_false]
      omega
    · simp only [hlow.not_gt, hlow.not_ge, hlow.ne, if_false]
      omega

/-- Of the rows with one key, the first `m` are those that are left of them after the ones above. -/
theorem OrderedDesc.count_take [DecidableEq α] (h : OrderedDesc key rows order) (m : ℕ) (r : α) :
    (order.take m).count r = ((order.filter fun x => key x = key r).take (m - rows.countP fun x => key r < key x)).count r := by
  have habove : (order.filter fun x => key r < key x).length = rows.countP fun x => key r < key x := by
    rw [← List.countP_eq_length_filter]
    exact h.perm.countP_eq _
  have hout : ∀ (p : α → Bool) (k : ℕ), p r = false → ((order.filter p).take k).count r = 0 := by
    intro p k hp
    refine List.count_eq_zero.mpr fun hmem => ?_
    have hkept := (List.mem_filter.mp (List.mem_of_mem_take hmem)).2
    rw [hp] at hkept
    cases hkept
  conv_lhs => rw [h.split (key r)]
  rw [List.take_append, List.take_append, List.count_append, List.count_append, habove,
    hout (fun x => key r < key x) _ (by simp), hout (fun x => key x < key r) _ (by simp), Nat.zero_add, Nat.add_zero]

/-- Where no different ones are split, the first `m` rows are the same in all of them. -/
theorem take_perm (h : OrderedDesc key rows order) (h' : OrderedDesc key rows order') {m : ℕ} (hm : ¬ Splits key rows m) :
    (order.take m).Perm (order'.take m) := by
  classical
  refine List.perm_iff_count.mpr fun r => ?_
  rw [h.count_take, h'.count_take]
  have hsame : (order.filter fun x => key x = key r).Perm (order'.filter fun x => key x = key r) :=
    (h.perm.trans h'.perm.symm).filter _
  have hequal : rows.countP (fun x => key r ≤ key x) =
      rows.countP (fun x => key r < key x) + (order.filter fun x => key x = key r).length := by
    rw [countP_le, ← List.countP_eq_length_filter, h.perm.countP_eq]
  by_cases hafter : m - rows.countP (fun x => key r < key x) = 0
  · rw [hafter, List.take_zero, List.take_zero]
  · by_cases hall : (order.filter fun x => key x = key r).length ≤ m - rows.countP fun x => key r < key x
    · rw [List.take_of_length_le hall, List.take_of_length_le (hsame.length_eq ▸ hall)]
      exact hsame.count_eq r
    · -- the rows with this key are split, so they are all the same
      by_cases hr : r ∈ rows
      · have hone : ∀ {o : List α}, OrderedDesc key rows o → ∀ x ∈ o.filter (fun x => key x = key r), x = r := by
          intro o ho x hx
          obtain ⟨hx, hkey⟩ := List.mem_filter.mp hx
          by_contra hne
          refine hm ⟨r, hr, x, ho.perm.mem_iff.mp hx, (of_decide_eq_true hkey).symm, Ne.symm hne, by omega, ?_⟩
          omega
        rw [List.eq_replicate_of_mem (hone h), List.eq_replicate_of_mem (hone h'), hsame.length_eq]
      · have hnot : ∀ {o : List α}, OrderedDesc key rows o → ∀ k, ((o.filter fun x => key x = key r).take k).count r = 0 := by
          intro o ho k
          refine List.count_eq_zero.mpr fun hmem => hr ?_
          exact ho.perm.mem_iff.mp (List.mem_of_mem_filter (List.mem_of_mem_take hmem))
        rw [hnot h, hnot h']

/-- The rows with one key may be put in another order. -/
theorem OrderedDesc.rearrange (h : OrderedDesc key rows order) {c : K} {equal : List α}
    (hequal : equal.Perm (order.filter fun x => key x = c)) :
    OrderedDesc key rows (order.filter (fun x => c < key x) ++ (equal ++ order.filter fun x => key x < c)) := by
  refine ⟨(((hequal.append_right _).append_left _).trans (.of_eq (h.split c).symm)).trans h.perm, ?_⟩
  have hsame : equal.map key = (order.filter fun x => key x = c).map key := by
    have hkeys : ∀ l : List α, (∀ x ∈ l, key x = c) → l.map key = List.replicate l.length c := fun l hl =>
      List.eq_replicate_iff.mpr ⟨List.length_map _, List.forall_mem_map.mpr hl⟩
    have hfilter : ∀ x ∈ order.filter (fun x => key x = c), key x = c := fun x hx => of_decide_eq_true (List.mem_filter.mp hx).2
    rw [hkeys _ hfilter, hkeys equal fun x hx => hfilter x (hequal.mem_iff.mp hx), hequal.length_eq]
  have hsorted : (order.map key).Pairwise fun a b => b ≤ a := List.pairwise_map.mpr h.sorted
  rw [h.split c, List.map_append, List.map_append, ← hsame, ← List.map_append, ← List.map_append] at hsorted
  exact List.pairwise_map.mp hsorted

/-- Ordering what the rows are read as, by the same keys, is to read them in an order. -/
theorem orderedDesc_map {f : α → β} {key' : β → K} (hkey : ∀ a, key' (f a) = key a) {order : List β} :
    OrderedDesc key' (rows.map f) order ↔ ∃ order', OrderedDesc key rows order' ∧ order = order'.map f := by
  have hsame : (fun a b => key' (f b) ≤ key' (f a)) = fun a b => key b ≤ key a := by
    funext a b
    rw [hkey, hkey]
  constructor
  · intro h
    obtain ⟨order', heq, hperm⟩ : Relation.Comp (· = List.map f ·) List.Perm order rows := by
      rw [List.eq_map_comp_perm]
      exact h.perm
    obtain rfl : order = order'.map f := heq
    have hsorted := List.pairwise_map.mp h.sorted
    rw [hsame] at hsorted
    exact ⟨order', ⟨hperm, hsorted⟩, rfl⟩
  · rintro ⟨order', h, rfl⟩
    refine ⟨h.perm.map f, List.pairwise_map.mpr ?_⟩
    rw [hsame]
    exact h.sorted

/-- Where they are, another order ends the first `m` rows with another of them. -/
theorem exists_take_not_perm {m : ℕ} (hm : Splits key rows m) :
    ∃ order order', OrderedDesc key rows order ∧ OrderedDesc key rows order' ∧ ¬ (order.take m).Perm (order'.take m) := by
  classical
  obtain ⟨r, hr, r', hr', hkey, hne, hlow, hhigh⟩ := hm
  obtain ⟨base, hbase⟩ := exists_ordered key rows
  obtain ⟨equal, hequal⟩ : ∃ equal, base.filter (fun x => key x = key r) = equal := ⟨_, rfl⟩
  have hin : ∀ x ∈ rows, key x = key r → x ∈ equal := fun x hx hk => by
    rw [← hequal]
    exact List.mem_filter.mpr ⟨hbase.perm.mem_iff.mpr hx, decide_eq_true hk⟩
  have hr'mem : r' ∈ equal.erase r := (List.mem_erase_of_ne hne.symm).mpr (hin r' hr' hkey.symm)
  obtain ⟨rest, hrest⟩ : ∃ rest, equal.Perm (r :: r' :: rest) :=
    ⟨_, (List.perm_cons_erase (hin r hr rfl)).trans ((List.perm_cons_erase hr'mem).cons r)⟩
  have habove : (base.filter fun x => key r < key x).length = rows.countP fun x => key r < key x := by
    rw [← List.countP_eq_length_filter, hbase.perm.countP_eq]
  have hcount : rows.countP (fun x => key x = key r) = rest.length + 2 := by
    rw [← hbase.perm.countP_eq, List.countP_eq_length_filter, hequal, hrest.length_eq, List.length_cons, List.length_cons]
  rw [countP_le, hcount] at hhigh
  -- one of them is the last before the end, and the other the first after it
  obtain ⟨k, hk⟩ : ∃ k, m = rows.countP (fun x => key r < key x) + (k + 1) := ⟨m - rows.countP (fun x => key r < key x) - 1, by omega⟩
  have hmiddle : ∀ x y, [x, y].Perm [r, r'] → (rest.take k ++ x :: y :: rest.drop k).Perm (base.filter fun x => key x = key r) := by
    intro x y hxy
    have hends : (rest.take k ++ x :: y :: rest.drop k).Perm ([x, y] ++ rest) := by
      conv_rhs => rw [← List.take_append_drop k rest]
      exact List.perm_append_comm_assoc (rest.take k) [x, y] (rest.drop k)
    rw [hequal]
    exact (hends.trans (hxy.append_right rest)).trans hrest.symm
  have htake : ∀ x y, (base.filter (fun z => key r < key z) ++ ((rest.take k ++ x :: y :: rest.drop k) ++
      base.filter fun z => key z < key r)).take m = (base.filter (fun z => key r < key z) ++ rest.take k) ++ [x] := by
    intro x y
    have hlength : ((base.filter (fun z => key r < key z) ++ rest.take k) ++ [x]).length = m := by
      rw [List.length_append, List.length_append, habove, List.length_take_of_le (by omega), List.length_singleton]
      omega
    have happend : base.filter (fun z => key r < key z) ++ ((rest.take k ++ x :: y :: rest.drop k) ++
        base.filter fun z => key z < key r) = ((base.filter (fun z => key r < key z) ++ rest.take k) ++ [x]) ++
          (y :: rest.drop k ++ base.filter fun z => key z < key r) := by
      simp only [List.append_assoc, List.cons_append, List.nil_append]
    rw [happend]
    exact List.take_left' hlength
  refine ⟨_, _, hbase.rearrange (hmiddle r r' (.refl _)), hbase.rearrange (hmiddle r' r (.swap r r' [])), fun hperm => hne ?_⟩
  rw [htake, htake, List.perm_append_left_iff] at hperm
  exact List.singleton_perm_singleton.mp hperm

end Order

/-! ### Pages -/

/-- What is collected from an offset on, a page after the other, until one is empty. -/
inductive Collects (pages : ℕ → List α) (limit : ℕ) : ℕ → List α → Prop
  | stop {offset : ℕ} (empty : pages offset = []) : Collects pages limit offset []
  | next {offset : ℕ} {rest : List α} (some : pages offset ≠ []) (more : Collects pages limit (offset + limit) rest) :
      Collects pages limit offset (pages offset ++ rest)

section Pages
variable {key : α → K} {rows order : List α} {limit : ℕ} {pages : ℕ → List α}

theorem length_page (limit offset : ℕ) (order : List α) : (page limit offset order).length = min limit (order.length - offset) := by
  rw [page, List.length_take, List.length_drop]

theorem page_append_drop (limit offset : ℕ) (order : List α) :
    page limit offset order ++ order.drop (offset + limit) = order.drop offset := by
  rw [page, ← List.drop_drop]
  exact List.take_append_drop limit (order.drop offset)

theorem drop_of_page_eq_nil (hlimit : 1 ≤ limit) {offset : ℕ} (h : page limit offset order = []) : order.drop offset = [] := by
  have hlength := congrArg List.length h
  rw [length_page, List.length_nil] at hlength
  refine List.drop_eq_nil_of_le ?_
  omega

/-- Collecting ends, with the first page that is behind the rows. -/
theorem exists_collects (hlimit : 1 ≤ limit) {n : ℕ} (hpages : ∀ offset, (pages offset).length = min limit (n - offset))
    (offset : ℕ) : ∃ result, Collects pages limit offset result := by
  induction hleft : n - offset using Nat.strong_induction_on generalizing offset with
  | _ left ih =>
    by_cases hempty : pages offset = []
    · exact ⟨[], .stop hempty⟩
    · have hlength : 0 < (pages offset).length := List.length_pos_of_ne_nil hempty
      rw [hpages] at hlength
      obtain ⟨rest, hrest⟩ := ih (n - (offset + limit)) (by omega) (offset + limit) rfl
      exact ⟨_, .next hempty hrest⟩

theorem Collects.map (f : α → β) {offset : ℕ} {result : List α} (h : Collects pages limit offset result) :
    Collects (fun offset => (pages offset).map f) limit offset (result.map f) := by
  induction h with
  | stop empty => exact .stop (congrArg (List.map f) empty)
  | next some _ ih =>
    rw [List.map_append]
    exact .next (fun h => some (List.map_eq_nil_iff.mp h)) ih

/-- What is collected from the pages of one order is that order. -/
theorem Collects.eq_drop (hlimit : 1 ≤ limit) (hpages : ∀ k, pages (k * limit) = page limit (k * limit) order)
    {offset : ℕ} {result : List α} (h : Collects pages limit offset result) (k : ℕ) (hk : offset = k * limit) :
    result = order.drop offset := by
  induction h generalizing k with
  | stop empty =>
    subst hk
    rw [hpages] at empty
    exact (drop_of_page_eq_nil hlimit empty).symm
  | next some more ih =>
    subst hk
    rw [ih (k + 1) (by rw [Nat.add_mul, Nat.one_mul]), hpages, page_append_drop]

theorem map_page (f : α → β) (limit offset : ℕ) (order : List α) :
    (page limit offset order).map f = page limit offset (order.map f) := by
  rw [page, page, List.map_take, List.map_drop]

/-- Each page is of some order of the rows. -/
def Pages (key : α → K) (rows : List α) (limit : ℕ) (pages : ℕ → List α) : Prop :=
  ∀ offset, ∃ order, OrderedDesc key rows order ∧ pages offset = page limit offset order

theorem Pages.exists_collects (h : Pages key rows limit pages) (hlimit : 1 ≤ limit) :
    ∃ result, Collects pages limit 0 result := by
  have hlength : ∀ offset, (pages offset).length = min limit (rows.length - offset) := fun offset => by
    obtain ⟨order, horder, hpage⟩ := h offset
    rw [hpage, length_page, horder.perm.length_eq]
  exact Query.exists_collects hlimit hlength 0

/-- What is collected is sorted. -/
theorem Pages.sorted (h : Pages key rows limit pages) (hlimit : 1 ≤ limit) {result : List α}
    (hcollects : Collects pages limit 0 result) : result.Pairwise fun a b => key b ≤ key a := by
  obtain ⟨order, horder⟩ := exists_ordered key rows
  have hkeys : result.map key = order.map key := by
    refine (hcollects.map key).eq_drop hlimit (fun k => ?_) 0 (Nat.zero_mul limit).symm
    obtain ⟨order', horder', hpage⟩ := h (k * limit)
    rw [hpage, map_page, horder'.map_key horder]
  have hsorted : (order.map key).Pairwise fun a b => b ≤ a := List.pairwise_map.mpr horder.sorted
  rw [← hkeys] at hsorted
  exact List.pairwise_map.mp hsorted

theorem page_perm {order' : List α} (h : OrderedDesc key rows order) (h' : OrderedDesc key rows order') {offset : ℕ}
    (hbegin : ¬ Splits key rows offset) (hend : ¬ Splits key rows (offset + limit)) :
    (page limit offset order).Perm (page limit offset order') := by
  have htake := take_perm h h' hend
  rw [List.take_add, List.take_add] at htake
  exact (List.perm_append_left_iff _).mp (htake.trans ((take_perm h h' hbegin).symm.append_right _))

/-- And every row is collected once, where no page ends among different ones with the same key. -/
theorem Pages.perm (h : Pages key rows limit pages) (hlimit : 1 ≤ limit) (hsplits : ∀ k, ¬ Splits key rows (k * limit))
    (horder : OrderedDesc key rows order) {offset : ℕ} {result : List α} (hcollects : Collects pages limit offset result)
    (k : ℕ) (hk : offset = k * limit) : result.Perm (order.drop offset) := by
  induction hcollects generalizing k with
  | stop empty =>
    obtain ⟨order', horder', hpage⟩ := h (k * limit)
    subst hk
    rw [hpage] at empty
    have hlength := congrArg List.length (drop_of_page_eq_nil hlimit empty)
    rw [List.length_drop, List.length_nil, horder'.perm.length_eq, ← horder.perm.length_eq] at hlength
    rw [List.drop_eq_nil_of_le (by omega)]
  | next some more ih =>
    subst hk
    have hnext : k * limit + limit = (k + 1) * limit := (Nat.succ_mul k limit).symm
    obtain ⟨order', horder', hpage⟩ := h (k * limit)
    rw [hpage, ← page_append_drop limit (k * limit) order]
    refine List.Perm.append (page_perm horder' horder (hsplits k) ?_) (ih (k + 1) hnext)
    rw [hnext]
    exact hsplits (k + 1)

/-- The pages of one order up to a boundary and of another from there on. -/
theorem page_of_halves {order' : List α} {k m : ℕ} (hm : m * limit ≤ order.length) :
    (if k * limit < m * limit then page limit (k * limit) order else page limit (k * limit) order') =
      page limit (k * limit) (order.take (m * limit) ++ order'.drop (m * limit)) := by
  have hlength : (order.take (m * limit)).length = m * limit := List.length_take_of_le hm
  by_cases hk : k * limit < m * limit
  · have hnext : (k + 1) * limit ≤ m * limit := Nat.mul_le_mul_right limit (Nat.lt_of_mul_lt_mul_right hk)
    rw [Nat.succ_mul] at hnext
    rw [if_pos hk, page, page, List.drop_append_of_le_length (by omega),
      List.take_append_of_le_length (by rw [List.length_drop]; omega), List.drop_take, List.take_take,
      Nat.min_eq_left (by omega)]
  · have hdrop : (order.take (m * limit)).drop (k * limit) = [] := List.drop_eq_nil_of_le (by omega)
    rw [if_neg hk, page, page, List.drop_append, hdrop, List.nil_append, hlength, List.drop_drop,
      Nat.add_sub_cancel' (Nat.le_of_not_lt hk)]

/-- **What is collected page by page is every row once** exactly when no page ends among different
ones with the same key; it is sorted in any case. -/
theorem paging_iff (key : α → K) (rows : List α) (hlimit : 1 ≤ limit) :
    (∀ pages, Pages key rows limit pages →
        ∃ result, Collects pages limit 0 result ∧ result.Perm rows ∧ result.Pairwise fun a b => key b ≤ key a) ↔
      ∀ k, ¬ Splits key rows (k * limit) := by
  constructor
  · intro hall m hm
    obtain ⟨order, order', horder, horder', hnot⟩ := exists_take_not_perm hm
    have hle : m * limit ≤ order.length := by
      obtain ⟨r, _, _, _, _, _, _, hhigh⟩ := hm
      rw [horder.perm.length_eq]
      exact hhigh.le.trans List.countP_le_length
    obtain ⟨result, hcollects, hperm, _⟩ := hall
      (fun offset => if offset < m * limit then page limit offset order else page limit offset order') fun offset => by
        by_cases hlt : offset < m * limit
        · exact ⟨order, horder, if_pos hlt⟩
        · exact ⟨order', horder', if_neg hlt⟩
    have hresult := hcollects.eq_drop hlimit (fun k => page_of_halves hle) 0 (Nat.zero_mul limit).symm
    rw [List.drop_zero] at hresult
    rw [hresult] at hperm
    have hboth := hperm.trans horder'.perm.symm
    conv_rhs at hboth => rw [← List.take_append_drop (m * limit) order']
    exact hnot ((List.perm_append_right_iff _).mp hboth)
  · intro hsplits pages hpages
    obtain ⟨order, horder⟩ := exists_ordered key rows
    obtain ⟨result, hcollects⟩ := hpages.exists_collects hlimit
    refine ⟨result, hcollects, ?_, hpages.sorted hlimit hcollects⟩
    exact (hpages.perm hlimit hsplits horder hcollects 0 (Nat.zero_mul limit).symm).trans horder.perm

end Pages

/-! ### Groups -/

section Groups
variable {M : Type} [AddCommMonoid M] {rows : List α}

/-- `SUM`, which is `NULL` of no rows. -/
def sum? : List M → Option M
  | [] => none
  | xs => some xs.sum

theorem coalesce_sum? (xs : List M) : (sum? xs).getD 0 = xs.sum := by
  cases xs with
  | nil => rfl
  | cons x xs => rfl

variable [DecidableEq β]

/-- `GROUP BY group` -/
def groups (group : α → β) (rows : List α) : List β := (rows.map group).dedup

theorem mem_groups {group : α → β} {g : β} : g ∈ groups group rows ↔ ∃ r ∈ rows, group r = g := by
  rw [groups, List.mem_dedup, List.mem_map]

/-- One row is counted in its own group. -/
theorem sum_one_group {g : β} {gs : List β} (hnodup : gs.Nodup) (hmem : g ∈ gs) (x : M) :
    (gs.map fun g' => if g = g' then x else 0).sum = x := by
  induction gs with
  | nil => cases hmem
  | cons g' rest ih =>
    obtain ⟨hfresh, hrest⟩ := List.nodup_cons.mp hnodup
    rw [List.map_cons, List.sum_cons]
    by_cases hg : g = g'
    · have hzero : (rest.map fun g' => if g = g' then x else 0).sum = 0 := by
        refine List.sum_eq_zero fun y hy => ?_
        obtain ⟨g'', hg'', rfl⟩ := List.mem_map.mp hy
        exact if_neg fun h => hfresh (by rwa [← hg, h])
      rw [if_pos hg, hzero, add_zero]
    · rw [if_neg hg, zero_add, ih hrest ((List.mem_cons.mp hmem).resolve_left hg)]

/-- What the groups sum up to is what the rows do. -/
theorem sum_groups (group : α → β) (value : α → M) {gs : List β} (hnodup : gs.Nodup) (hall : ∀ r ∈ rows, group r ∈ gs) :
    (gs.map fun g => ((rows.filter fun r => group r = g).map value).sum).sum = (rows.map value).sum := by
  induction rows with
  | nil =>
    refine List.sum_eq_zero fun y hy => ?_
    obtain ⟨g, _, rfl⟩ := List.mem_map.mp hy
    rfl
  | cons r rest ih =>
    have hone : (fun g => (((r :: rest).filter fun r => group r = g).map value).sum) =
        fun g => (if group r = g then value r else 0) + ((rest.filter fun r => group r = g).map value).sum := by
      funext g
      by_cases hg : group r = g
      · rw [List.filter_cons_of_pos (by simpa using hg), List.map_cons, List.sum_cons, if_pos hg]
      · rw [List.filter_cons_of_neg (by simpa using hg), if_neg hg, zero_add]
    rw [hone, List.sum_map_add, sum_one_group hnodup (hall r List.mem_cons_self),
      ih fun r' hr' => hall r' (List.mem_cons_of_mem r hr'), List.map_cons, List.sum_cons]

end Groups
end Relayix.Library.Query
