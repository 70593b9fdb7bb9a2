import Mathlib.Data.List.AList
import Mathlib.Data.List.Dedup
import Mathlib.Algebra.Order.Ring.Rat
import Mathlib.Order.WithBot
import Relayix.Domain.Chat
import Relayix.Library.Ranking

/-! Routing strategies (`core/routing/strategies.py`).

A strategy puts the candidates of a tier in an order, best first. By preference that is the order
of a list of providers, as long as the list does not repeat itself: its ranks are the last
positions in the list, and a provider that is not in it has the number of different ones. -/
namespace Relayix
open Library

abbrev Dict (K V : Type) := AList fun _ : K => V

structure ModelMetadata where
  provider : ProviderEnum
  inputCost : ℚ
  outputCost : ℚ
  reasoningScore : Int
  latencyScore : Int
  deriving DecidableEq

structure RoutingStrategy where
  /-- best first -/
  rank : List Candidate → List Candidate

structure PriorityStrategy where
  /-- `_rank` -/
  ranks : Dict ProviderEnum Nat

namespace PriorityStrategy

def new (order : List ProviderEnum) : PriorityStrategy where
  ranks := order.zipIdx.foldl (fun ranks entry => ranks.insert entry.1 entry.2) ∅

def rank (self : PriorityStrategy) (candidates : List Candidate) : List Candidate :=
  let last := self.ranks.keys.length
  sortedBy (fun c => (self.ranks.lookup c.provider).getD last) false candidates

def strategy (self : PriorityStrategy) : RoutingStrategy := ⟨self.rank⟩

end PriorityStrategy

structure MetadataStrategy where
  registry : Dict String ModelMetadata
  /-- `_metric` -/
  metric : ModelMetadata → ℚ
  higherIsBetter : Bool := false

namespace MetadataStrategy

/-- The sort key, between the two infinities. -/
def key (self : MetadataStrategy) (candidate : Candidate) : WithBot (WithTop ℚ) :=
  match self.registry.lookup candidate.model with
  | none => if self.higherIsBetter then ⊥ else (⊤ : WithTop ℚ)
  | some metadata => (self.metric metadata : WithTop ℚ)

def rank (self : MetadataStrategy) (candidates : List Candidate) : List Candidate :=
  sortedBy self.key self.higherIsBetter candidates

def strategy (self : MetadataStrategy) : RoutingStrategy := ⟨self.rank⟩

end MetadataStrategy

/-- `CostStrategy` -/
def costStrategy (registry : Dict String ModelMetadata) : MetadataStrategy where
  registry := registry
  metric metadata := metadata.inputCost + metadata.outputCost

/-- `ReasoningStrategy` -/
def reasoningStrategy (registry : Dict String ModelMetadata) : MetadataStrategy where
  registry := registry
  metric metadata := metadata.reasoningScore
  higherIsBetter := true

/-- `LatencyStrategy` -/
def latencyStrategy (registry : Dict String ModelMetadata) : MetadataStrategy where
  registry := registry
  metric metadata := metadata.latencyScore
  higherIsBetter := true

namespace PriorityStrategy

example : ((new [.anthropic]).rank [⟨.openai, "gpt-4o"⟩, ⟨.anthropic, "claude-sonnet-5"⟩]).map Candidate.provider =
    [.anthropic, .openai] := by
  decide

end PriorityStrategy
end Relayix
