import WebhookEngine.Lib.Run
import WebhookEngine.Lib.Table
import WebhookEngine.Lib.Text
import WebhookEngine.Lib.Python
import WebhookEngine.Lib.Url
import WebhookEngine.Lib.Tree
import WebhookEngine.Lib.Json
import WebhookEngine.Lib.JsonCanonical
import WebhookEngine.Lib.RowLocks
import WebhookEngine.Lib.Documents
import WebhookEngine.Lib.Asyncio
import WebhookEngine.Lib.Serial
import WebhookEngine.Lib.Sorting
import WebhookEngine.Lib.Search
import WebhookEngine.Types
import WebhookEngine.SsrfGuard
import WebhookEngine.HttpSender
import WebhookEngine.Policy
import WebhookEngine.Signer
import WebhookEngine.Dispatcher
import WebhookEngine.HostSemaphores
import WebhookEngine.Body
import WebhookEngine.Payloads
import WebhookEngine.UrlPolicy
import WebhookEngine.Pinning
import WebhookEngine.HostHeader
import WebhookEngine.SignedPosts
import WebhookEngine.Verifiers
import WebhookEngine.Forgeries
import WebhookEngine.Stores.Queue
import WebhookEngine.Stores.Memory
import WebhookEngine.Stores.Pg
import WebhookEngine.Stores.Mongo
import WebhookEngine.Stores.Redis
import WebhookEngine.Stores.RedisHashes
import WebhookEngine.Stores.RedisCrashes
import WebhookEngine.Stores.RedisRepeats
import WebhookEngine.Stores.RedisStatuses
import WebhookEngine.Stores.Shipped
import WebhookEngine.Stores.Urls
import WebhookEngine.Stores.Terminal
import WebhookEngine.Stores.Stranded
import WebhookEngine.Stores.MemoryClaims
import WebhookEngine.Stores.Pages
import WebhookEngine.Stores.Interchange
import WebhookEngine.Stores.MongoClients
import WebhookEngine.Stores.PgTransactions
import WebhookEngine.Stores.PgNotices
import WebhookEngine.Stores.PgPurge
import WebhookEngine.Engine
import WebhookEngine.Pacing
import WebhookEngine.Replicas
import WebhookEngine.Attempts
import WebhookEngine.RetryLadder
import WebhookEngine.Quarantine
import WebhookEngine.Outcomes
import WebhookEngine.Callback
import WebhookEngine.LostReplies
import WebhookEngine.Exhausted
import WebhookEngine.AttemptRows
import WebhookEngine.Shutdown
import WebhookEngine.Ingest.Events
import WebhookEngine.Ingest.Memory
import WebhookEngine.Ingest.HandOuts
import WebhookEngine.Ingest.Pg
import WebhookEngine.Ingest.Agreement
import WebhookEngine.Ingest.Mongo
import WebhookEngine.Ingest.Backends
import WebhookEngine.Ingest.MongoClients
import WebhookEngine.Ingest.Ingestor
import WebhookEngine.Ingest.Outcome
import WebhookEngine.Ingest.Dedup
import WebhookEngine.Ingest.Parking
import WebhookEngine.Ingest.Neighbours
import WebhookEngine.Subscriptions.Subscription
import WebhookEngine.Subscriptions.Redis
import WebhookEngine.Subscriptions.Registry
import WebhookEngine.Subscriptions.Coherence
import WebhookEngine.Subscriptions.Interleaved
import WebhookEngine.Subscriptions.Pg
import WebhookEngine.Subscriptions.Mongo
import WebhookEngine.Subscriptions.Backends
import WebhookEngine.Subscriptions.Rotation
import WebhookEngine.Subscriptions.Fanout
import WebhookEngine.EventRegistry
import WebhookEngine.Subscriptions.Redaction
import WebhookEngine.Subscriptions.Pausing
import WebhookEngine.Subscriptions.AllowList
import WebhookEngine.Subscriptions.Redelivery
import WebhookEngine.Subscriptions.RedactedBodies
import WebhookEngine.Provenance
import WebhookEngine.Lib.Coroutines
import WebhookEngine.Service.AdminStore
import WebhookEngine.Service.Routes
import WebhookEngine.Service.Acceptance
import WebhookEngine.Service.Secrecy
import WebhookEngine.Service.Access
