import Relayix.Core.Accounting.Pricing

/-! API keys (`models/domain/api_key.py`).

The id is drawn and the clock is read after the checks, which neither is asked by; `create` is
given both. -/
namespace Relayix

def invalidToken : Exn := .exception "InvalidToken" "Invalid token"
def invalidApiKeyName : Exn := .exception "InvalidApiKeyName" "Invalid API key name"
def invalidRateLimit : Exn := .exception "InvalidRateLimit" "Invalid rate limit"
def invalidTokenQuota : Exn := .exception "InvalidTokenQuota" "Invalid token quota"
def apiKeyNotFound : Exn := .exception "ApiKeyNotFound" "API key not found"

structure ApiKey where
  id : UUID
  keyHash : String
  name : String
  rateLimitRpm : Option Int
  monthlyTokenQuota : Option Int
  isActive : Bool
  createdAt : DateTime
  deriving DecidableEq

namespace ApiKey
variable {id : UUID} {now : DateTime} {keyHash name : String} {rateLimitRpm monthlyTokenQuota : Option Int}

def create (id : UUID) (now : DateTime) (keyHash name : String) (rateLimitRpm monthlyTokenQuota : Option Int) :
    Except Exn ApiKey :=
  if isBlank keyHash then .error invalidToken
  else if isBlank name then .error invalidApiKeyName
  else if ∃ rpm ∈ rateLimitRpm, rpm ≤ 0 then .error invalidRateLimit
  else if ∃ quota ∈ monthlyTokenQuota, quota ≤ 0 then .error invalidTokenQuota
  else .ok { id, keyHash, name, rateLimitRpm, monthlyTokenQuota, isActive := true, createdAt := now }

theorem create_eq_ok {apiKey : ApiKey} (h : create id now keyHash name rateLimitRpm monthlyTokenQuota = .ok apiKey) :
    apiKey = ⟨id, keyHash, name, rateLimitRpm, monthlyTokenQuota, true, now⟩ := by
  unfold create at h
  split_ifs at h
  exact (Except.ok.inj h).symm

end ApiKey
end Relayix
