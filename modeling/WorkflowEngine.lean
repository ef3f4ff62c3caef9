import WorkflowEngine.Config.Reader
import WorkflowEngine.Json.Printer
import WorkflowEngine.Json.Reader
import WorkflowEngine.Node
import WorkflowEngine.Proofs.Balance
import WorkflowEngine.Proofs.Delays
import WorkflowEngine.Proofs.DeployHistory
import WorkflowEngine.Proofs.Discarded
import WorkflowEngine.Proofs.Discovery
import WorkflowEngine.Proofs.Emission
import WorkflowEngine.Proofs.FreshKeys
import WorkflowEngine.Proofs.Handles
import WorkflowEngine.Proofs.Isolation
import WorkflowEngine.Proofs.Ledger
import WorkflowEngine.Proofs.Outcomes
import WorkflowEngine.Proofs.Ownership
import WorkflowEngine.Proofs.Placeholders
import WorkflowEngine.Proofs.Recovery
import WorkflowEngine.Proofs.Removal
import WorkflowEngine.Proofs.RoundTrip
import WorkflowEngine.Proofs.Schedules
import WorkflowEngine.Proofs.Scopes
import WorkflowEngine.Proofs.SharedStarts
import WorkflowEngine.Proofs.Sharing
import WorkflowEngine.Proofs.Starts
import WorkflowEngine.Proofs.Stopping
import WorkflowEngine.Proofs.Terminated
import WorkflowEngine.Proofs.Wakeups
import WorkflowEngine.Record.Codec
