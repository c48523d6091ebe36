import FlowRule.Rules.Agreement
import FlowRule.Rules.Comparison
import FlowRule.Rules.Commitment
import FlowRule.Rules.Interpolation
import FlowRule.Rules.Payloads
import FlowRule.Rules.Contracts
import FlowRule.Nats.Durables
import FlowRule.Nats.Fairness
import FlowRule.Outbox.Interop
import FlowRule.Outbox.Lifecycle
import FlowRule.Outbox.Producers
import FlowRule.Outbox.Endpoints
import FlowRule.KeyQueue.Episodes
import FlowRule.KeyQueue.Statistics
import FlowRule.Worker.Fetch
import FlowRule.Worker.Converge
import FlowRule.Outbox.Children
import FlowRule.Worker.AckSafety
import FlowRule.Worker.Settlement
import FlowRule.Worker.Evidence
import FlowRule.Worker.Backoff
import FlowRule.Http.Ingestion
import FlowRule.Workflow.Linear
import FlowRule.Workflow.Handlers
import FlowRule.Mongo.Managers
import FlowRule.Activation.Stored
import FlowRule.Activation.Backends
import FlowRule.Events.Deactivation
import FlowRule.Scheduled.Cancellation
import FlowRule.Scheduled.Isolation
import FlowRule.Batches.Identity
import FlowRule.Batches.Membership
