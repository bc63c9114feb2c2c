import Gittree.Lib.Bech32
import Gittree.Lib.Cache
import Gittree.Lib.CacheRuns
import Gittree.Lib.Hex
import Gittree.Lib.Histories
import Gittree.Lib.Json
import Gittree.Lib.Map
import Gittree.Lib.Newest
import Gittree.Lib.Occurrences
import Gittree.Lib.Path
import Gittree.Lib.Prog
import Gittree.Lib.Result
import Gittree.Lib.Runs
import Gittree.Lib.Search
import Gittree.Lib.Select
import Gittree.Lib.Slices
import Gittree.Lib.Slot
import Gittree.Lib.Str
import Gittree.Lib.Tasks
import Gittree.Lib.Traces
import Gittree.Lib.Url
import Gittree.Lib.Windows
import Gittree.Core.Admission
import Gittree.Core.AppCore
import Gittree.Core.CommandCli
import Gittree.Core.CommandText
import Gittree.Core.EventRefs
import Gittree.Core.GitReceive
import Gittree.Core.Grasp
import Gittree.Core.GraspClone
import Gittree.Core.GraspServers
import Gittree.Core.GraspUrls
import Gittree.Core.MaintainerClosure
import Gittree.Core.Nip34
import Gittree.Core.Nip34Events
import Gittree.Core.Nip34RoundTrip
import Gittree.Core.Nip34Validation
import Gittree.Core.RepoEvents
import Gittree.Core.RepoMapping
import Gittree.Core.RepoPath
import Gittree.Core.StateRefs
import Gittree.Storage.Cache
import Gittree.Storage.CacheRuns
import Gittree.Storage.Error
import Gittree.Storage.Events
import Gittree.Storage.Indexes
import Gittree.Storage.Memberships
import Gittree.Storage.Migrations
import Gittree.Storage.Outbox
import Gittree.Storage.OutboxClaims
import Gittree.Storage.Profiles
import Gittree.Storage.Repos
import Gittree.Storage.Tenants
import Gittree.Relay.Answers
import Gittree.Relay.Authentication
import Gittree.Relay.Deletions
import Gittree.Relay.Dialogue
import Gittree.Relay.Event
import Gittree.Relay.FailingCalls
import Gittree.Relay.FilterMeaning
import Gittree.Relay.Handlers
import Gittree.Relay.Identifiers
import Gittree.Relay.Invites
import Gittree.Relay.LiveDelivery
import Gittree.Relay.LongAnswers
import Gittree.Relay.MemoryRuns
import Gittree.Relay.MemorySession
import Gittree.Relay.MemoryStore
import Gittree.Relay.Probing
import Gittree.Relay.Protocol
import Gittree.Relay.Publishing
import Gittree.Relay.Pump
import Gittree.Relay.RateLimits
import Gittree.Relay.ReadAccess
import Gittree.Relay.Related
import Gittree.Relay.Replays
import Gittree.Relay.Retention
import Gittree.Relay.RoundTrip
import Gittree.Relay.Session
import Gittree.Relay.SharedTable
import Gittree.Relay.Store
import Gittree.Relay.StoreCalls
import Gittree.Relay.StoreReads
import Gittree.Relay.StoreWrites
import Gittree.Relay.Subscriptions
import Gittree.Relay.System
import Gittree.Relay.Tenancy
import Gittree.Relay.Wire
import Gittree.Relay.WriteGate
import Gittree.Dispatch.Concurrency
import Gittree.Dispatch.Confinement
import Gittree.Dispatch.Convergence
import Gittree.Dispatch.Handlers
import Gittree.Dispatch.Ingest
import Gittree.Dispatch.Manageability
import Gittree.Dispatch.Plans
import Gittree.Dispatch.Redelivery
import Gittree.Dispatch.Subjects
import Gittree.Services.Admission
import Gittree.Services.AdmissionModes
import Gittree.Services.AuthProfiles
import Gittree.Services.Caches
import Gittree.Services.Calls
import Gittree.Services.Control
import Gittree.Services.ControlRequests
import Gittree.Services.ControlRules
import Gittree.Services.Coordinator
import Gittree.Services.Disclosure
import Gittree.Services.Finalisation
import Gittree.Services.Forgejo
import Gittree.Services.GitHook
import Gittree.Services.GitHttp
import Gittree.Services.GitPush
import Gittree.Services.GitRoutes
import Gittree.Services.HookInput
import Gittree.Services.Hosts
import Gittree.Services.Identity
import Gittree.Services.Maintainers
import Gittree.Services.Nip98
import Gittree.Services.NostrRequests
import Gittree.Services.PlanEffect
import Gittree.Services.ProfileForm
import Gittree.Services.Provenance
import Gittree.Services.Provision
import Gittree.Services.PublicRepos
import Gittree.Services.Publisher
import Gittree.Services.PushState
import Gittree.Services.Sharing
import Gittree.Services.Sources
import Gittree.Services.Survival
import Gittree.Services.Sync
import Gittree.Services.TenantCreation
