import Relayix.Core.Resilience.ResilientAdapter
import Relayix.Core.Routing.Strategies
import Relayix.Library.Sessions
import Relayix.Services.Gateway

/-! The registry of adapters (`core/adapters/registry.py`).

Every provider has a breaker of its own, and an inner adapter of its own: `deployedI` is one of each
per provider. Of the settings only those that `build_registry` reads are here. -/
namespace Relayix
open Library

/-- `repr(provider)` -/
def ProviderEnum.repr : ProviderEnum → String
  | .anthropic => "<ProviderEnum.ANTHROPIC: 'anthropic'>"
  | .openai => "<ProviderEnum.OPENAI: 'openai'>"

structure Settings where
  openaiApiKey : Option String
  anthropicApiKey : Option String
  /-- `provider_timeout_s`, as messages show it -/
  providerTimeoutS : String
  circuitBreakerFailThreshold : Nat
  circuitBreakerResetTimeoutS : ℚ

structure AdapterRegistry (A : Interface) where
  /-- `_adapters` -/
  adapters : Dict ProviderEnum (ProviderAdapter A)

namespace AdapterRegistry
variable {A : Interface} (self : AdapterRegistry A) (provider : ProviderEnum)

def new : AdapterRegistry A := ⟨∅⟩

def register (adapter : ProviderAdapter A) : AdapterRegistry A := ⟨self.adapters.insert provider adapter⟩

def get : Except Exn (ProviderAdapter A) :=
  match self.adapters.lookup provider with
  | some adapter => .ok adapter
  | none => .error (.adapterNotRegistered ("no adapter registered for provider " ++ provider.repr))

variable {self provider}

/-- As the gateway sees it. -/
theorem get_toOption : (self.get provider).toOption = self.adapters.lookup provider := by
  unfold get
  cases self.adapters.lookup provider <;> rfl

/-- The adapter that was registered last is the one that is found. -/
theorem get_register {provider' : ProviderEnum} {adapter : ProviderAdapter A} :
    ((self.register provider' adapter).get provider).toOption =
      if provider = provider' then some adapter else (self.get provider).toOption := by
  rw [get_toOption, get_toOption, register]
  split
  · rename_i h
    rw [h, AList.lookup_insert]
  · rename_i h
    rw [AList.lookup_insert_ne h]

end AdapterRegistry

/-- A breaker and an inner adapter for each provider. -/
@[reducible] def deployedI : Interface := adapterI.tagged ProviderEnum

/-- An adapter, for the gateway. -/
def ResilientAdapter.served (self : ResilientAdapter) : ProviderAdapter deployedI where
  complete request := (self.complete request).tagged self.provider
  stream request := Gen.tagged self.provider (self.stream request)

/-- `_with_resilience` -/
def withResilience (provider : ProviderEnum) (config : Settings) : ResilientAdapter := ⟨provider, config.providerTimeoutS⟩

namespace Settings

/-- Whether a key is set: `None` and `""` are not. -/
def isSet : Option String → Bool
  | none | some "" => false
  | some _ => true

def apiKey (config : Settings) : ProviderEnum → Option String
  | .openai => config.openaiApiKey
  | .anthropic => config.anthropicApiKey

end Settings

def buildRegistry (config : Settings) : AdapterRegistry deployedI :=
  let registry := AdapterRegistry.new
  let registry := if Settings.isSet config.openaiApiKey then
    registry.register .openai (withResilience .openai config).served else registry
  if Settings.isSet config.anthropicApiKey then
    registry.register .anthropic (withResilience .anthropic config).served else registry

/-- A provider is registered when its key is set, behind its own breaker. -/
theorem get_buildRegistry (config : Settings) (provider : ProviderEnum) :
    ((buildRegistry config).get provider).toOption =
      if Settings.isSet (config.apiKey provider) then some (withResilience provider config).served else none := by
  have empty : ((AdapterRegistry.new : AdapterRegistry deployedI).get provider).toOption = none := rfl
  unfold buildRegistry
  cases provider <;> cases hopenai : Settings.isSet config.openaiApiKey <;>
    cases hanthropic : Settings.isSet config.anthropicApiKey <;>
    simp [AdapterRegistry.get_register, Settings.apiKey, hopenai, hanthropic, empty]

/-- The breakers of a process, and the monotonic clock that they read. -/
structure Breakers where
  of : ProviderEnum → CircuitBreaker
  now : ℚ

namespace Breakers

/-- As `build_registry` makes them. -/
def new (config : Settings) (now : ℚ) : Breakers :=
  ⟨fun _ => .new config.circuitBreakerFailThreshold config.circuitBreakerResetTimeoutS, now⟩

variable (w : Breakers) (provider : ProviderEnum)

/-- The one of a provider. -/
def clocked : Clocked := ⟨w.of provider, w.now⟩

def exec (c : BreakerCmd) : breakerI.Ans c × Breakers :=
  (((w.of provider).exec w.now c).1, { w with of := Function.update w.of provider ((w.of provider).exec w.now c).2 })

variable {w provider} {c : BreakerCmd}

theorem clocked_exec_self : (w.exec provider c).2.clocked provider = ⟨((w.of provider).exec w.now c).2, w.now⟩ := by
  simp [clocked, exec]

/-- A breaker of another provider stays as it is. -/
theorem clocked_exec_other {provider' : ProviderEnum} (h : provider ≠ provider') :
    (w.exec provider' c).2.clocked provider = w.clocked provider := by
  simp [clocked, exec, Function.update_of_ne h]

end Breakers
end Relayix
