import MetadataAgent.Store
import MetadataAgent.Json.Doc
import MetadataAgent.Json.Builder
import MetadataAgent.Json.RoundTrip
import MetadataAgent.Json.Generator
import MetadataAgent.Lib.Batches
import MetadataAgent.Json.Text
import MetadataAgent.Reporter.Send
import MetadataAgent.Reporter.Size
import MetadataAgent.Reporter.Cycle
import MetadataAgent.Kubernetes.Services
import MetadataAgent.Kubernetes.Cluster
import MetadataAgent.Environment
import MetadataAgent.Kubernetes.Owners
import MetadataAgent.Json.Parser
import MetadataAgent.Kubernetes.Pods
import MetadataAgent.Kubernetes.Watch
import MetadataAgent.Json.Pushdown
import MetadataAgent.Health
import MetadataAgent.Kubernetes.Query
import MetadataAgent.Kubernetes.LocalIds
import MetadataAgent.Docker
import MetadataAgent.ApiServer
import MetadataAgent.OAuth2
import MetadataAgent.Reporter.Stop
import MetadataAgent.Base64
import MetadataAgent.Calendar
import MetadataAgent.Rfc3339
import MetadataAgent.TimeRoundTrip
import MetadataAgent.Reporter.CreateTime
import MetadataAgent.Kubernetes.Lookups
import MetadataAgent.Lib.Cycles
import MetadataAgent.Kubernetes.Traversal
import MetadataAgent.Kubernetes.Transparency
import MetadataAgent.Instance
import MetadataAgent.Format
import MetadataAgent.Reporter.Report
import MetadataAgent.Retry
import MetadataAgent.Validation
import MetadataAgent.Kubernetes.Expansion
import MetadataAgent.Lib.Streaks
import MetadataAgent.Kubernetes.WatchMaster
import MetadataAgent.LifeCycle
import MetadataAgent.TimeAcceptance
import MetadataAgent.TimeFraction
import MetadataAgent.Json.Stream
import MetadataAgent.Json.Exchange
import MetadataAgent.Credentials
import MetadataAgent.Lib.Output
import MetadataAgent.Healthz
import MetadataAgent.Lib.Logs
import MetadataAgent.Serving
import MetadataAgent.Lib.Memo
import MetadataAgent.Getters
import MetadataAgent.Lib.Interleavings
import MetadataAgent.Sharing
import MetadataAgent.Kubernetes.Pipeline
import MetadataAgent.Updaters
import MetadataAgent.Kubernetes.Updater
import MetadataAgent.Reporter.ReadBack
import MetadataAgent.Json.Cut
import MetadataAgent.Kubernetes.Cuts
import MetadataAgent.Assertion
import MetadataAgent.Options
import MetadataAgent.Kubernetes.Modes
import MetadataAgent.Kubernetes.Identity
import MetadataAgent.Shutdown
