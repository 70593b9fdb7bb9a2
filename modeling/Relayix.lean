import Relayix.Services.IdempotencyOutage
import Relayix.Infra.Idempotency.RedisStore
import Relayix.Core.RateLimit.Resilient
import Relayix.Core.RateLimit.RetryAfter
import Relayix.Repositories.UsageCosts
import Relayix.Core.Resilience.AdapterPool
import Relayix.Services.GatewayComplete
import Relayix.Services.GatewayStream
import Relayix.Services.GatewayDrain
import Relayix.Services.GatewayOnce
import Relayix.Services.IdempotencyCharges
import Relayix.Services.GatewayAdapters
import Relayix.Services.IdempotencyGateway
import Relayix.Api.V1.ChatStream
import Relayix.Api.V1.ChatBilling
import Relayix.Core.Adapters.Classification
import Relayix.Core.Adapters.Chunking
import Relayix.Infra.RateLimit.Composed
import Relayix.Core.Resilience.CircuitHistory
import Relayix.Services.IdempotencyFingerprint
import Relayix.Services.IdempotencyTenants
import Relayix.Services.IdempotencyReplay
import Relayix.Core.Routing.Preference
import Relayix.Core.Routing.Router
import Relayix.Api.V1.Sse
import Relayix.Api.Authentication
import Relayix.Infra.SharedRedis
import Relayix.Api.V1.Requests
import Relayix.Api.V1.ApiKeysStanding
import Relayix.Infra.Database.Inserts
import Relayix.Api.V1.ChatUsage
import Relayix.Api.V1.ChatCharges
import Relayix.Api.V1.ChatRetries
import Relayix.Api.V1.ChatOutages
