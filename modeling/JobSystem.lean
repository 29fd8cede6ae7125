import JobSystem.Lifecycle
import JobSystem.Lib.RoundTrip
import JobSystem.Lib.Separated
import JobSystem.Server.Step
import JobSystem.Server.View
import JobSystem.Server.Locks
import JobSystem.Server.Records
import JobSystem.Server.Registry
import JobSystem.Server.Sockets
import JobSystem.Server.Routing
import JobSystem.Server.Supersede
import JobSystem.Server.Dispatch
import JobSystem.Server.Acknowledge
import JobSystem.Server.Capacity
import JobSystem.Server.Progress
import JobSystem.Server.Stranded
import JobSystem.Server.Attempts
import JobSystem.Server.Tasks
import JobSystem.Server.StaleScan
import JobSystem.Server.Reports
import JobSystem.Server.Audit
import JobSystem.Server.CancelOrder
import JobSystem.Agent.State
import JobSystem.Agent.Step
import JobSystem.Agent.View
import JobSystem.Agent.Open
import JobSystem.Agent.Listen
import JobSystem.Agent.Session
import JobSystem.Agent.Outcome
import JobSystem.System.Step
import JobSystem.System.Tracked
import JobSystem.System.Execution
import JobSystem.System.Results
import JobSystem.System.WriteFirst
import JobSystem.Logs.Broker
import JobSystem.Logs.Windows
import JobSystem.Logs.Live
import JobSystem.Logs.Durable
import JobSystem.Logs.Framing
import JobSystem.Repository.Ledger
import JobSystem.Repository.Refinement
import JobSystem.Repository.Equivalence
import JobSystem.Repository.Events
import JobSystem.Repository.Idempotency
import JobSystem.Repository.WellFormed
import JobSystem.Repository.Listing
import JobSystem.Repository.Encoding
import JobSystem.Agent.OnJob
import JobSystem.Agent.StreamLogs
import JobSystem.Agent.Simulation
import JobSystem.Agent.Endings
import JobSystem.Agent.Reconciling
import JobSystem.Agent.Isolation
import JobSystem.Server.CancelResponse
import JobSystem.Server.Retry
import JobSystem.Server.Timeout
import JobSystem.Server.Order
import JobSystem.Server.Heartbeat
import JobSystem.Server.Connection
import JobSystem.Server.Entries
import JobSystem.Server.Quiescence
import JobSystem.Server.Restart
import JobSystem.Server.Api
import JobSystem.Repository.Statements
import JobSystem.Server.Database
import JobSystem.Server.Wire
import JobSystem.Server.WireRuns
import JobSystem.Server.LogRows
import JobSystem.System.Containers
import JobSystem.System.Outcomes
