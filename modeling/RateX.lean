import RateX.Transducer
import RateX.Timeline
import RateX.Bucket
import RateX.TokenBucketLaw
import RateX.SlidingLog
import RateX.SlidingWindowLaw
import RateX.BucketAnswers
import RateX.Admission
import RateX.Backends
import RateX.RaisedLimit
import RateX.RetryAfter
import RateX.MemoryRetryAfter
import RateX.CacheRace
import RateX.Database
import RateX.Config
import RateX.LimiterArithmetic
import RateX.FailClosed
import RateX.FixedWindowCalls
import RateX.FixedWindowReset
import RateX.Keyspace
import RateX.Remaining
import RateX.ForwardedFor
import RateX.Isolation
import RateX.SustainedRate
import RateX.Table
import RateX.Statements
import RateX.Services
import RateX.PolicyDeletion
import RateX.RouteTable
import RateX.KeyAuth
import RateX.LimiterCache
import RateX.Outbox
import RateX.Events
import RateX.Telemetry
import RateX.RecentEvents
import RateX.Cluster
import RateX.ClusterIsolation
import RateX.ClusterBudget
import RateX.ClusterAnswers
import RateX.Analytics
import RateX.ClusterPolicies
import RateX.AdminBook
import RateX.AdminSecrets
import RateX.DotEnv
import RateX.ClusterCounters
import RateX.ClusterReplies
import RateX.ClusterEvents
import RateX.Dashboard
