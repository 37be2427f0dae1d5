import Protek.Access.ApiTokens
import Protek.Access.BreakGlass
import Protek.Access.Lockout
import Protek.Access.Revocation
import Protek.Access.RoleMappings
import Protek.Access.SafeNext
import Protek.Access.Sessions
import Protek.Access.TokenAuthority
import Protek.Access.Users
import Protek.Alerts.Alternation
import Protek.Alerts.Debounce
import Protek.Alerts.DiskWatchdog
import Protek.Alerts.Hygiene
import Protek.Alerts.JournalScan
import Protek.Alerts.Latch
import Protek.Alerts.Rules
import Protek.Alerts.SloBreach
import Protek.Backpressure.Penalty
import Protek.Backpressure.TokenBucket
import Protek.Backup.Rotation
import Protek.Backup.Schedule
import Protek.Blocking.Packets
import Protek.Blocking.Verdict
import Protek.Connection.Consumers
import Protek.Connection.EnvFile
import Protek.Connection.Form
import Protek.Connection.Save
import Protek.Connection.Workers
import Protek.Diff.Addresses
import Protek.Diff.ClosedLoop
import Protek.Diff.Convergence
import Protek.Diff.Occupancy
import Protek.Diff.OwnershipComment
import Protek.Diff.Reconcile
import Protek.Diff.Router
import Protek.Diff.RouterSafety
import Protek.Diff.Transports
import Protek.Federation.FirstPull
import Protek.Federation.SourceBackoff
import Protek.Federation.SourceHealth
import Protek.Federation.Sources
import Protek.Federation.Ticks
import Protek.Federation.Unban
import Protek.Federation.Withdrawal
import Protek.Foundation.AddressText
import Protek.Foundation.BatchedDrain
import Protek.Foundation.BoundedJournal
import Protek.Foundation.CappedQueue
import Protek.Foundation.Clock
import Protek.Foundation.ClockOrder
import Protek.Foundation.CompactTime
import Protek.Foundation.DeltaMirror
import Protek.Foundation.DropOldest
import Protek.Foundation.Exposition
import Protek.Foundation.Fnmatch
import Protek.Foundation.FromIso
import Protek.Foundation.IpAddress
import Protek.Foundation.IsoTime
import Protek.Foundation.Json
import Protek.Foundation.KeyedTable
import Protek.Foundation.LineEdit
import Protek.Foundation.Metering
import Protek.Foundation.OrderedDict
import Protek.Foundation.Paging
import Protek.Foundation.PyFloat
import Protek.Foundation.PyText
import Protek.Foundation.RankedSweep
import Protek.Foundation.Ranking
import Protek.Foundation.ReadModifyWrite
import Protek.Foundation.Rfc5424
import Protek.Foundation.Rounding
import Protek.Foundation.RuleChains
import Protek.Foundation.SharedCounter
import Protek.Foundation.SqlTable
import Protek.Foundation.Survivors
import Protek.Foundation.Trace
import Protek.Foundation.WhatwgUrl
import Protek.Mirror.Agreement
import Protek.Mirror.Apply
import Protek.Mirror.Fidelity
import Protek.Mirror.Lapi
import Protek.Mirror.Outages
import Protek.Mirror.Poller
import Protek.Outbound.DeadLetters
import Protek.Outbound.Metrics
import Protek.Outbound.SiemQueue
import Protek.Outbound.Stats
import Protek.Outbound.Syslog
import Protek.Outbound.Webhooks
import Protek.Policy.ApprovalGate
import Protek.Policy.ApprovalQueue
import Protek.Policy.BulkWhitelist
import Protek.Policy.Consensus
import Protek.Policy.Desired
import Protek.Policy.Escalations
import Protek.Policy.Feed
import Protek.Policy.FeedSequence
import Protek.Policy.QueuedRequests
import Protek.Policy.SigningKeys
import Protek.Policy.TimedBans
import Protek.Policy.Whitelist
import Protek.Policy.WhitelistCoverage
import Protek.Policy.WhitelistExpiry
import Protek.Policy.Writers
import Protek.Retention.CurrentState
import Protek.Retention.OfflineDrain
import Protek.Retention.PendingApprovals
import Protek.Retention.Sweep
import Protek.Store.Boots
import Protek.Store.Bundle
import Protek.Store.BundleImport
import Protek.Store.OneTimeSecrets
import Protek.Store.Schema
import Protek.Store.Settings
import Protek.Store.Tables
import Protek.Targets.Accounting
import Protek.Targets.AddressesOnly
import Protek.Targets.Cloudflare
import Protek.Targets.Cycle
import Protek.Targets.DecisionWriters
import Protek.Targets.Delivery
import Protek.Targets.DryRun
import Protek.Targets.EntryCap
import Protek.Targets.FilterFidelity
import Protek.Targets.Filters
import Protek.Targets.Freshest
import Protek.Targets.Ipset
import Protek.Targets.Names
import Protek.Targets.PfSense
import Protek.Targets.Provenance
import Protek.Targets.Reputation
import Protek.Targets.Roles
import Protek.Targets.RouterReads
import Protek.Targets.SelfTest
import Protek.Targets.Synthetic
import Protek.Targets.Triggers
