import Mathlib.Data.Nat.Cast.Order.Ring
import Relayix.Core.Exceptions
import Relayix.Core.Routing.Preference

/-! The router (`core/routing/router.py`).

A router that was built has a catalog whose every candidate is registered under its own provider,
so what a strategy makes of a candidate without metadata is never seen. `repr` is Python's. -/
namespace Relayix
open Library

abbrev Catalog := Dict String (List Candidate)
abbrev Registry := Dict String ModelMetadata

/-- `str(provider)` -/
def ProviderEnum.str : ProviderEnum → String
  | .anthropic => "ProviderEnum.ANTHROPIC"
  | .openai => "ProviderEnum.OPENAI"

/-- `DEFAULT_CATALOG` -/
def defaultCatalog : Catalog where
  entries :=
    [⟨"default", [⟨.openai, "gpt-4o"⟩, ⟨.anthropic, "claude-sonnet-5"⟩]⟩,
      ⟨"reasoning", [⟨.openai, "o3"⟩, ⟨.anthropic, "claude-opus-4-8"⟩]⟩,
      ⟨"low_cost", [⟨.openai, "gpt-4o-mini"⟩, ⟨.anthropic, "claude-haiku-4-5"⟩]⟩]
  nodupKeys := show List.Nodup (List.keys _) by decide

/-- `MODEL_REGISTRY` -/
def modelRegistry : Registry where
  entries :=
    [⟨"gpt-4o", ⟨.openai, 0.0025, 0.010, 80, 70⟩⟩,
      ⟨"gpt-4o-mini", ⟨.openai, 0.00015, 0.0006, 55, 95⟩⟩,
      ⟨"o3", ⟨.openai, 0.010, 0.040, 98, 30⟩⟩,
      ⟨"claude-sonnet-5", ⟨.anthropic, 0.003, 0.015, 88, 68⟩⟩,
      ⟨"claude-opus-4-8", ⟨.anthropic, 0.005, 0.025, 97, 45⟩⟩,
      ⟨"claude-haiku-4-5", ⟨.anthropic, 0.001, 0.005, 70, 92⟩⟩]
  nodupKeys := show List.Nodup (List.keys _) by decide

/-- `DEFAULT_PRIORITY` -/
def defaultPriority : List ProviderEnum := [.openai, .anthropic]

section Validation
variable (repr : String → String) (registry : Registry)

/-- One turn of the loops of `validate_registry`. -/
def validateCandidate (tier : String) (candidate : Candidate) : Except Exn Unit :=
  match registry.lookup candidate.model with
  | none => .error (.valueError
      ("tier " ++ repr tier ++ ": model " ++ repr candidate.model ++ " has no entry in MODEL_REGISTRY"))
  | some metadata =>
    if metadata.provider ≠ candidate.provider then .error (.valueError
      ("tier " ++ repr tier ++ ": model " ++ repr candidate.model ++ " is registered under " ++
        metadata.provider.str ++ " but the catalog lists it under " ++ candidate.provider.str))
    else .ok ()

def validateRegistry (catalog : Catalog) : Except Exn Unit :=
  forM catalog.entries fun entry => forM entry.2 (validateCandidate repr registry entry.1)

end Validation

structure RoutingService where
  catalog : Catalog
  strategies : Dict String RoutingStrategy
  defaultStrategy : RoutingStrategy

namespace RoutingService

def candidatesFor (repr : String → String) (self : RoutingService) (model : String) : Except Exn (List Candidate) :=
  match self.catalog.lookup model with
  | none | some [] => .error (.providerNotAvailable ("unknown routing tier " ++ repr model))
  | some candidates => .ok (((self.strategies.lookup model).getD self.defaultStrategy).rank candidates)

end RoutingService

/-- The strategies of the tiers that have one of their own. -/
def builtinStrategies (registry : Registry) : Dict String RoutingStrategy where
  entries := [⟨"reasoning", (reasoningStrategy registry).strategy⟩, ⟨"low_cost", (costStrategy registry).strategy⟩]
  nodupKeys := by simp [List.nodupKeys_cons]

def buildRouter (repr : String → String) (catalog : Option Catalog) (priority : Option (List ProviderEnum))
    (registry : Option Registry) (strategies : Option (Dict String RoutingStrategy)) : Except Exn RoutingService := do
  let catalog := catalog.getD defaultCatalog
  let registry := registry.getD modelRegistry
  validateRegistry repr registry catalog
  pure
    { catalog
      strategies := strategies.getD (builtinStrategies registry)
      defaultStrategy := (PriorityStrategy.new (priority.getD defaultPriority)).strategy }

/-! ### What was validated -/

section Validation
variable {repr : String → String} {registry : Registry} {catalog : Catalog}

/-- Registered under its own provider. -/
def Registered (registry : Registry) (candidate : Candidate) : Prop :=
  ∃ metadata, registry.lookup candidate.model = some metadata ∧ metadata.provider = candidate.provider

theorem forM_ok {α : Type} {f : α → Except Exn Unit} {l : List α} : forM l f = .ok () ↔ ∀ a ∈ l, f a = .ok () := by
  induction l with
  | nil => exact ⟨fun _ a ha => absurd ha List.not_mem_nil, fun _ => rfl⟩
  | cons a rest ih =>
    rw [List.forM_cons, List.forall_mem_cons, ← ih]
    cases f a with
    | error e =>
      constructor
      · intro h
        cases h
      · intro h
        cases h.1
    | ok _ => exact ⟨fun h => ⟨rfl, h⟩, fun h => h.2⟩

theorem validateCandidate_ok {tier : String} {candidate : Candidate} :
    validateCandidate repr registry tier candidate = .ok () ↔ Registered registry candidate := by
  unfold validateCandidate Registered
  cases registry.lookup candidate.model with
  | none => simp
  | some metadata => simp

/-- A catalog is accepted when every candidate of every tier is registered. -/
theorem validateRegistry_ok : validateRegistry repr registry catalog = .ok () ↔
    ∀ tier configured, catalog.lookup tier = some configured → ∀ c ∈ configured, Registered registry c := by
  have hentry : ∀ tier configured, catalog.lookup tier = some configured ↔ (⟨tier, configured⟩ : Sigma _) ∈ catalog.entries :=
    fun tier configured => AList.mem_lookup_iff
  simp only [validateRegistry, forM_ok, validateCandidate_ok, hentry, Sigma.forall]

example : validateRegistry id modelRegistry defaultCatalog = .ok () := by decide +kernel

end Validation

/-! ### What a tier is ranked by -/

section Standing
variable (registry : Registry)

def reasoningScore (c : Candidate) : ℚ := (registry.lookup c.model).elim 0 fun metadata => metadata.reasoningScore

/-- Input and output together. -/
def totalCost (c : Candidate) : ℚ :=
  (registry.lookup c.model).elim 0 fun metadata => metadata.inputCost + metadata.outputCost

/-- The criterion of a tier, the lower the better: for reasoning the score, highest first, for low cost
the cost, and for any other tier the position of the provider, which for one that is not listed
is the end of the list. -/
def merit (priority : List ProviderEnum) (tier : String) (c : Candidate) : ℚ :=
  if tier = "reasoning" then -reasoningScore registry c
  else if tier = "low_cost" then totalCost registry c
  else priority.idxOf c.provider

end Standing

theorem lookup_builtin (registry : Registry) (tier : String) : (builtinStrategies registry).lookup tier =
    if tier = "reasoning" then some (reasoningStrategy registry).strategy
    else if tier = "low_cost" then some (costStrategy registry).strategy else none := by
  by_cases hreasoning : tier = "reasoning"
  · rw [if_pos hreasoning, hreasoning]
    rfl
  · rw [if_neg hreasoning]
    by_cases hcost : tier = "low_cost"
    · rw [if_pos hcost, hcost]
      rfl
    · rw [if_neg hcost]
      exact AList.lookup_eq_none.mpr (by simp [builtinStrategies, hreasoning, hcost])

section Rank
variable {registry : Registry} {priority : List ProviderEnum} {configured : List Candidate}

/-- The key of a registered candidate is its metric. -/
theorem key_registered (strategy : MetadataStrategy) {c : Candidate} {metadata : ModelMetadata}
    (h : strategy.registry.lookup c.model = some metadata) : strategy.key c = ((strategy.metric metadata : WithTop ℚ)) := by
  rw [MetadataStrategy.key, h]

theorem reasoning_ranked (hregistered : ∀ c ∈ configured, Registered registry c) :
    Ranked (merit registry priority "reasoning") configured ((reasoningStrategy registry).rank configured) := by
  refine (ranked_reverse (reasoningStrategy registry).key configured).congr fun a ha b hb => ?_
  obtain ⟨m, hm, _⟩ := hregistered a ha
  obtain ⟨n, hn, _⟩ := hregistered b hb
  rw [OrderDual.toDual_le_toDual, key_registered _ hn, key_registered _ hm, WithBot.coe_le_coe, WithTop.coe_le_coe]
  simp [merit, reasoningScore, hm, hn, reasoningStrategy]

theorem cost_ranked (hregistered : ∀ c ∈ configured, Registered registry c) :
    Ranked (merit registry priority "low_cost") configured ((costStrategy registry).rank configured) := by
  refine (ranked_sortedBy (costStrategy registry).key configured).congr fun a ha b hb => ?_
  obtain ⟨m, hm, _⟩ := hregistered a ha
  obtain ⟨n, hn, _⟩ := hregistered b hb
  rw [key_registered _ hm, key_registered _ hn, WithBot.coe_le_coe, WithTop.coe_le_coe]
  simp [merit, totalCost, hm, hn, costStrategy]

theorem priority_ranked (hnodup : priority.Nodup) {tier : String} (hreasoning : tier ≠ "reasoning") (hcost : tier ≠ "low_cost") :
    Ranked (merit registry priority tier) configured ((PriorityStrategy.new priority).rank configured) := by
  refine (PriorityStrategy.rank_ranked priority configured).congr fun a _ b _ => ?_
  rw [PriorityStrategy.place_of_nodup hnodup, PriorityStrategy.place_of_nodup hnodup, merit, merit,
    if_neg hreasoning, if_neg hcost, if_neg hreasoning, if_neg hcost, Nat.cast_le]

/-- The strategy of a tier ranks it by its criterion. -/
theorem selected_ranked (hnodup : priority.Nodup) (hregistered : ∀ c ∈ configured, Registered registry c) (tier : String) :
    Ranked (merit registry priority tier) configured
      ((((builtinStrategies registry).lookup tier).getD (PriorityStrategy.new priority).strategy).rank configured) := by
  rw [lookup_builtin]
  by_cases hreasoning : tier = "reasoning"
  · rw [if_pos hreasoning, hreasoning]
    exact reasoning_ranked hregistered
  · rw [if_neg hreasoning]
    by_cases hcost : tier = "low_cost"
    · rw [if_pos hcost, hcost]
      exact cost_ranked hregistered
    · rw [if_neg hcost]
      exact priority_ranked hnodup hreasoning hcost

end Rank

/-! ### Resolution -/

section Built
variable {repr : String → String} {catalog : Option Catalog} {priority : Option (List ProviderEnum)}
  {registry : Option Registry} {strategies : Option (Dict String RoutingStrategy)} {router : RoutingService}

theorem buildRouter_ok : buildRouter repr catalog priority registry strategies = .ok router ↔
    validateRegistry repr (registry.getD modelRegistry) (catalog.getD defaultCatalog) = .ok () ∧
      router =
        { catalog := catalog.getD defaultCatalog
          strategies := strategies.getD (builtinStrategies (registry.getD modelRegistry))
          defaultStrategy := (PriorityStrategy.new (priority.getD defaultPriority)).strategy } := by
  unfold buildRouter
  dsimp only
  cases validateRegistry repr (registry.getD modelRegistry) (catalog.getD defaultCatalog) with
  | error e =>
    constructor
    · intro h
      cases h
    · intro h
      cases h.1
  | ok _ =>
    constructor
    · intro h
      cases h
      exact ⟨rfl, rfl⟩
    · rintro ⟨_, rfl⟩
      rfl

/-- **A tier is resolved to all its candidates, best first**: a router built with its own
strategies and a priority list without repetitions refuses the keys that have no candidate, and ranks
the candidates of any other by the criterion of the tier, ties in the order of the catalog. -/
theorem candidatesFor_ranked (h : buildRouter repr catalog priority registry none = .ok router)
    (hnodup : (priority.getD defaultPriority).Nodup) (tier : String) :
    ((∃ message, router.candidatesFor repr tier = .error (.providerNotAvailable message)) ↔
      (catalog.getD defaultCatalog).lookup tier = none ∨ (catalog.getD defaultCatalog).lookup tier = some []) ∧
    ∀ configured, (catalog.getD defaultCatalog).lookup tier = some configured → configured ≠ [] →
      ∃ ranked, router.candidatesFor repr tier = .ok ranked ∧
        Ranked (merit (registry.getD modelRegistry) (priority.getD defaultPriority) tier) configured ranked ∧
        ∀ c ∈ ranked, Registered (registry.getD modelRegistry) c := by
  obtain ⟨hvalid, rfl⟩ := buildRouter_ok.mp h
  unfold RoutingService.candidatesFor
  dsimp only
  cases hlookup : (catalog.getD defaultCatalog).lookup tier with
  | none => simp
  | some configured =>
    cases configured with
    | nil => simp
    | cons first rest =>
      have hregistered := validateRegistry_ok.mp hvalid tier (first :: rest) hlookup
      have hranked := selected_ranked hnodup hregistered tier
      refine ⟨by simp, fun configured heq _ => ?_⟩
      obtain rfl := Option.some.inj heq
      exact ⟨_, rfl, hranked, fun c hc => hregistered c (hranked.perm.mem_iff.mp hc)⟩

end Built

/-- Two models with one score, and one with a higher score. -/
def tiedRegistry : Registry where
  entries := [⟨"a", ⟨.openai, 0.001, 0.001, 50, 50⟩⟩, ⟨"b", ⟨.anthropic, 0.001, 0.001, 50, 50⟩⟩, ⟨"c", ⟨.openai, 0.01, 0.02, 60, 9⟩⟩]
  nodupKeys := show List.Nodup (List.keys _) by decide

def tiedCatalog : Catalog where
  entries := [⟨"reasoning", [⟨.anthropic, "b"⟩, ⟨.openai, "a"⟩, ⟨.openai, "c"⟩]⟩]
  nodupKeys := show List.Nodup (List.keys _) by decide

theorem candidatesFor_ranked_tied :
    ∃ router ranked, buildRouter id (some tiedCatalog) none (some tiedRegistry) none = .ok router ∧
      router.candidatesFor id "reasoning" = .ok ranked ∧
      Ranked (merit tiedRegistry defaultPriority "reasoning") [⟨.anthropic, "b"⟩, ⟨.openai, "a"⟩, ⟨.openai, "c"⟩] ranked := by
  have hbuilt : buildRouter id (some tiedCatalog) none (some tiedRegistry) none = .ok _ :=
    buildRouter_ok.mpr ⟨by decide +kernel, rfl⟩
  obtain ⟨ranked, hranked, hbest, _⟩ := (candidatesFor_ranked hbuilt (by decide) "reasoning").2 _ rfl (by decide)
  exact ⟨_, ranked, hbuilt, hranked, hbest⟩

end Relayix
