import Mathlib.Data.Int.ConditionallyCompleteOrder
import Mathlib.Data.List.MinMax
import Relayix.Core.Accounting.Pricing

/-! Price histories.

What a table answers for a time is a rate of the pair that was in effect then and the newest of
those, so it depends on nothing that takes effect later. Which one it is when several took effect
at the same time is decided by the order of their registration. -/
namespace Relayix
open Library
namespace PricingTable

/-- A rate of the pair, in effect at this time. -/
def InEffect (provider : ProviderEnum) (model : String) (asOf : DateTime) (rate : PricingRate) : Prop :=
  (provider, model) = (rate.provider, rate.model) ∧ rate.effectiveFrom ≤ asOf

instance (provider : ProviderEnum) (model : String) (asOf : DateTime) : DecidablePred (InEffect provider model asOf) :=
  fun _ => inferInstanceAs (Decidable (_ ∧ _))

/-- One of these rates that is in effect, and none that is took effect after it. -/
structure Newest (rates : List PricingRate) (provider : ProviderEnum) (model : String) (asOf : DateTime)
    (rate : PricingRate) : Prop where
  registered : rate ∈ rates
  inEffect : InEffect provider model asOf rate
  last : ∀ other ∈ rates, InEffect provider model asOf other → other.effectiveFrom ≤ rate.effectiveFrom

variable {provider : ProviderEnum} {model : String} {asOf : DateTime} {rates : List PricingRate}

/-! ### What is registered -/

theorem rates_registered (table : PricingTable) (rates : List PricingRate) (pair : ProviderEnum × String) :
    (rates.foldl register table).rates pair =
      table.rates pair ++ rates.filter fun rate => pair = (rate.provider, rate.model) := by
  induction rates generalizing table with
  | nil => exact (List.append_nil _).symm
  | cons rate rest ih =>
    rw [List.foldl_cons, ih]
    show (if pair = (rate.provider, rate.model) then table.rates pair ++ [rate] else table.rates pair) ++ _ = _
    by_cases hpair : pair = (rate.provider, rate.model)
    · rw [if_pos hpair, List.filter_cons_of_pos (by simpa using hpair), List.append_assoc, List.singleton_append]
    · rw [if_neg hpair, List.filter_cons_of_neg (by simpa using hpair)]

theorem notFound_registered (table : PricingTable) (rates : List PricingRate) :
    (rates.foldl register table).notFound = table.notFound := by
  induction rates generalizing table with
  | nil => rfl
  | cons rate rest ih => exact ih (table.register rate)

theorem effective_registered (table : PricingTable) (rates : List PricingRate) :
    (rates.foldl register table).effective provider model asOf =
      table.effective provider model asOf ++ rates.filter (InEffect provider model asOf) := by
  rw [effective, rates_registered, List.filter_append, List.filter_filter]
  refine congrArg (table.effective provider model asOf ++ ·) (List.filter_congr fun rate _ => ?_)
  rw [Bool.and_comm]
  exact (Bool.decide_and _ _).symm

theorem effective_build (notFound : ProviderEnum → String → DateTime → String) (rates : List PricingRate) :
    (build notFound rates).effective provider model asOf = rates.filter (InEffect provider model asOf) :=
  (effective_registered _ rates).trans (List.nil_append _)

theorem mem_effective_build {notFound : ProviderEnum → String → DateTime → String} {rate : PricingRate} :
    rate ∈ (build notFound rates).effective provider model asOf ↔ rate ∈ rates ∧ InEffect provider model asOf rate := by
  rw [effective_build, List.mem_filter, decide_eq_true_iff]

/-! ### What is got -/

theorem argmax_latest (rate : PricingRate) (rest : List PricingRate) :
    (rate :: rest).argmax PricingRate.effectiveFrom = some (latest rate rest) := by
  induction rest using List.reverseRecOn with
  | nil => rfl
  | append_singleton rest last ih =>
    have hlatest : latest rate (rest ++ [last]) =
        if (latest rate rest).effectiveFrom < last.effectiveFrom then last else latest rate rest := List.foldl_concat ..
    rw [← List.cons_append, List.argmax_concat, ih, hlatest]
    exact (apply_ite some _ _ _).symm

/-- Of a history that nothing in it is newer than the first rate of, that is the latest. -/
theorem latest_first {rate : PricingRate} {rest : List PricingRate}
    (h : ∀ other ∈ rest, other.effectiveFrom ≤ rate.effectiveFrom) : latest rate rest = rate := by
  induction rest with
  | nil => rfl
  | cons other rest ih =>
    obtain ⟨hother, hrest⟩ := List.forall_mem_cons.mp h
    rw [latest, List.foldl_cons, if_neg (not_lt.mpr hother)]
    exact ih hrest

theorem get_of_effective (table : PricingTable) (h : table.effective provider model asOf = []) :
    table.get provider model asOf = .error (.pricingRateNotFound (table.notFound provider model asOf)) := by
  rw [get, h]

theorem get_of_argmax (table : PricingTable) {rate : PricingRate}
    (h : (table.effective provider model asOf).argmax PricingRate.effectiveFrom = some rate) :
    table.get provider model asOf = .ok rate := by
  rw [get]
  cases heff : table.effective provider model asOf with
  | nil =>
    rw [heff] at h
    cases h
  | cons first rest =>
    rw [heff, argmax_latest] at h
    obtain rfl := Option.some.inj h
    rfl

section Build
variable (notFound : ProviderEnum → String → DateTime → String)

/-- Where nothing is in effect, nothing is found. -/
theorem get_none (h : ∀ rate ∈ rates, ¬ InEffect provider model asOf rate) :
    (build notFound rates).get provider model asOf = .error (.pricingRateNotFound (notFound provider model asOf)) := by
  have hempty : (build notFound rates).effective provider model asOf = [] :=
    List.eq_nil_iff_forall_not_mem.mpr fun rate hrate => h rate (mem_effective_build.mp hrate).1 (mem_effective_build.mp hrate).2
  rw [get_of_effective _ hempty, build, notFound_registered]

/-- Where something is, the newest of it is found. -/
theorem get_some {rate : PricingRate} (hmem : rate ∈ rates) (hin : InEffect provider model asOf rate) :
    ∃ found, (build notFound rates).get provider model asOf = .ok found ∧ Newest rates provider model asOf found := by
  obtain ⟨found, hfound⟩ : ∃ found, ((build notFound rates).effective provider model asOf).argmax PricingRate.effectiveFrom = some found := by
    refine Option.ne_none_iff_exists'.mp fun hnone => ?_
    have hempty := List.argmax_eq_none.mp hnone
    exact List.not_mem_nil (hempty ▸ mem_effective_build.mpr ⟨hmem, hin⟩)
  obtain ⟨hregistered, hinEffect⟩ := mem_effective_build.mp (List.argmax_mem hfound)
  refine ⟨found, get_of_argmax _ hfound, hregistered, hinEffect, fun other hother heffect => ?_⟩
  exact List.le_of_mem_argmax (mem_effective_build.mpr ⟨hother, heffect⟩) hfound

/-- What is found is the newest. -/
theorem newest_of_get {rate : PricingRate} (h : (build notFound rates).get provider model asOf = .ok rate) :
    Newest rates provider model asOf rate := by
  by_cases hany : ∃ other ∈ rates, InEffect provider model asOf other
  · obtain ⟨other, hother, hin⟩ := hany
    obtain ⟨found, hfound, hnewest⟩ := get_some notFound hother hin
    rw [hfound] at h
    obtain rfl := Except.ok.inj h
    exact hnewest
  · push Not at hany
    rw [get_none notFound hany] at h
    cases h

/-- Of those that took effect at the same time, the first is found. -/
theorem get_first {rate : PricingRate} {rest : List PricingRate} (h : Newest (rate :: rest) provider model asOf rate) :
    (build notFound (rate :: rest)).get provider model asOf = .ok rate := by
  have hlatest : latest rate (rest.filter (InEffect provider model asOf)) = rate :=
    latest_first fun other hother =>
      h.last other (List.mem_cons_of_mem rate (List.mem_of_mem_filter hother)) (of_decide_eq_true (List.mem_filter.mp hother).2)
  have hhead : (rate :: rest).filter (InEffect provider model asOf) = rate :: rest.filter (InEffect provider model asOf) :=
    List.filter_cons_of_pos (decide_eq_true h.inEffect)
  refine get_of_argmax _ ?_
  rw [effective_build, hhead, argmax_latest, hlatest]

end Build

/-- Rates of other pairs, and those that take effect later, change nothing. -/
theorem get_registered (table : PricingTable) {further : List PricingRate}
    (h : ∀ rate ∈ further, (provider, model) ≠ (rate.provider, rate.model) ∨ asOf < rate.effectiveFrom) :
    (further.foldl register table).get provider model asOf = table.get provider model asOf := by
  have hout : further.filter (InEffect provider model asOf) = [] := by
    refine List.filter_eq_nil_iff.mpr fun rate hrate => ?_
    rw [decide_eq_true_iff]
    rintro ⟨hpair, hasOf⟩
    cases h rate hrate with
    | inl hother => exact hother hpair
    | inr hlater => exact absurd hasOf (not_le.mpr hlater)
  rw [get, get, effective_registered, hout, List.append_nil, notFound_registered]

/-- **`get` resolves to the newest rate in effect**, whatever the order of registration, and raises
when there is none; what is published for other pairs, or for later, does not change it. -/
theorem get_newest (notFound : ProviderEnum → String → DateTime → String) (rates : List PricingRate)
    (provider : ProviderEnum) (model : String) (asOf : DateTime) :
    (∀ rate, (build notFound rates).get provider model asOf = .ok rate → Newest rates provider model asOf rate) ∧
    ((∃ rate, (build notFound rates).get provider model asOf = .ok rate) ↔ ∃ rate ∈ rates, InEffect provider model asOf rate) ∧
    ((build notFound rates).get provider model asOf = .error (.pricingRateNotFound (notFound provider model asOf)) ↔
      ∀ rate ∈ rates, ¬ InEffect provider model asOf rate) ∧
    ∀ further : List PricingRate,
      (∀ rate ∈ further, (provider, model) ≠ (rate.provider, rate.model) ∨ asOf < rate.effectiveFrom) →
        (further.foldl register (build notFound rates)).get provider model asOf =
          (build notFound rates).get provider model asOf := by
  refine ⟨fun rate => newest_of_get notFound, ⟨?_, ?_⟩, ⟨?_, get_none notFound⟩, fun further => get_registered _⟩
  · rintro ⟨rate, hget⟩
    have hnewest := newest_of_get notFound hget
    exact ⟨rate, hnewest.registered, hnewest.inEffect⟩
  · rintro ⟨rate, hmem, hin⟩
    obtain ⟨found, hfound, _⟩ := get_some notFound hmem hin
    exact ⟨found, hfound⟩
  · intro herror rate hmem hin
    obtain ⟨found, hfound, _⟩ := get_some notFound hmem hin
    rw [hfound] at herror
    cases herror

/-! ### The order of registration -/

theorem Newest.perm {rates' : List PricingRate} {rate : PricingRate} (h : Newest rates provider model asOf rate)
    (hperm : rates.Perm rates') : Newest rates' provider model asOf rate :=
  ⟨hperm.mem_iff.mp h.registered, h.inEffect, fun other hother => h.last other (hperm.mem_iff.mpr hother)⟩

/-- Some order of registration finds this one of the newest. -/
theorem exists_perm_get (notFound : ProviderEnum → String → DateTime → String) {rate : PricingRate}
    (h : Newest rates provider model asOf rate) :
    ∃ rates', rates.Perm rates' ∧ (build notFound rates').get provider model asOf = .ok rate := by
  obtain ⟨before, after, rfl⟩ := List.append_of_mem h.registered
  have hperm : (before ++ rate :: after).Perm (rate :: (before ++ after)) := List.perm_middle
  exact ⟨_, hperm, get_first notFound (h.perm hperm)⟩

theorem costFor_of_get {table : PricingTable} {rate : PricingRate} {tokensIn tokensOut : Int}
    (h : table.get provider model asOf = .ok rate) :
    table.costFor provider model tokensIn tokensOut asOf = rate.calculateCost tokensIn tokensOut := by
  rw [costFor, h]
  rfl

/-- **The price depends on the order in which the rates were loaded** exactly when two of the newest
charge differently for these tokens. -/
theorem costFor_perm_iff (notFound : ProviderEnum → String → DateTime → String) (rates : List PricingRate)
    (provider : ProviderEnum) (model : String) (asOf : DateTime) (tokensIn tokensOut : Int) :
    (∀ rates', rates.Perm rates' → (build notFound rates').costFor provider model tokensIn tokensOut asOf =
        (build notFound rates).costFor provider model tokensIn tokensOut asOf) ↔
      ∀ rate rate', Newest rates provider model asOf rate → Newest rates provider model asOf rate' →
        rate.calculateCost tokensIn tokensOut = rate'.calculateCost tokensIn tokensOut := by
  constructor
  · intro h rate rate' hrate hrate'
    obtain ⟨rates₁, hperm₁, hget₁⟩ := exists_perm_get notFound hrate
    obtain ⟨rates₂, hperm₂, hget₂⟩ := exists_perm_get notFound hrate'
    rw [← costFor_of_get hget₁, ← costFor_of_get hget₂, h rates₁ hperm₁, h rates₂ hperm₂]
  · intro h rates' hperm
    by_cases hany : ∃ rate ∈ rates, InEffect provider model asOf rate
    · obtain ⟨rate, hmem, hin⟩ := hany
      obtain ⟨found, hget, hnewest⟩ := get_some notFound hmem hin
      obtain ⟨found', hget', hnewest'⟩ := get_some notFound (hperm.mem_iff.mp hmem) hin
      rw [costFor_of_get hget, costFor_of_get hget']
      exact h found' found (hnewest'.perm hperm.symm) hnewest
    · push Not at hany
      have hany' : ∀ rate ∈ rates', ¬ InEffect provider model asOf rate := fun rate hrate => hany rate (hperm.mem_iff.mpr hrate)
      rw [costFor, costFor, get_none notFound hany, get_none notFound hany']

/-- Two prices were published for the same time, and a request is charged the one loaded first. -/
theorem priced_by_order :
    ¬ ∀ (notFound : ProviderEnum → String → DateTime → String) (rates rates' : List PricingRate) (provider : ProviderEnum)
      (model : String) (asOf : DateTime) (tokensIn tokensOut : Int), rates.Perm rates' →
        (build notFound rates').costFor provider model tokensIn tokensOut asOf =
          (build notFound rates).costFor provider model tokensIn tokensOut asOf := by
  intro h
  let low : PricingRate := ⟨.openai, "gpt-4o", 1 / 1000, 0, 0, by decide, by norm_num, by norm_num⟩
  let high : PricingRate := ⟨.openai, "gpt-4o", 2 / 1000, 0, 0, by decide, by norm_num, by norm_num⟩
  have hsame := h (fun _ _ _ => "") [low, high] [high, low] .openai "gpt-4o" 0 1000 0 (.swap high low [])
  exact absurd hsame (by decide +kernel)

end PricingTable
end Relayix
