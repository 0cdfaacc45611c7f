import DuckRun.Dashboard.Accounts
import DuckRun.Dashboard.Ancestors
import DuckRun.Dashboard.Interleavings
import DuckRun.Dashboard.MoveEffects
import DuckRun.Dashboard.ProjectSlugs
import DuckRun.Dashboard.Refusals
import DuckRun.Dashboard.Slugs
import DuckRun.Dashboard.Tree
import DuckRun.Dashboard.UpsertAlgebra
import DuckRun.Executors.Awaiting
import DuckRun.Executors.CancelRequests
import DuckRun.Executors.Classification
import DuckRun.Executors.FinishedRuns
import DuckRun.Framework.DuckRunHost
import DuckRun.Framework.JobExecutor
import DuckRun.Hosting.Startup
import DuckRun.Logging.ConcurrentAppends
import DuckRun.Logging.Retention
import DuckRun.Persistence.ConsoleStores
import DuckRun.Persistence.Replay
import DuckRun.Redis.ClusterCap
import DuckRun.Redis.CronCluster
import DuckRun.Redis.GateCalls
import DuckRun.Redis.HandOver
import DuckRun.Redis.Keys
import DuckRun.Redis.TakeOver
import DuckRun.Reporting.ApiKeys
import DuckRun.Reporting.ConsoleShipping
import DuckRun.Reporting.Handshakes
import DuckRun.Reporting.NodeReports
import DuckRun.Reporting.RunViews
import DuckRun.Reporting.Shutdown
import DuckRun.Runtime.Discovery
import DuckRun.Runtime.Firing
import DuckRun.Runtime.LoopFailures
import DuckRun.Runtime.Releases
import DuckRun.Stores.Interchange
