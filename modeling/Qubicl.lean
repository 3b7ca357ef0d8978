import Qubicl.Control.Lease.HumanControl
import Qubicl.Cli.StateLock.Exclusion
import Qubicl.Cli.StateLock.Abandoned
import Qubicl.Control.Lease.Queue
import Qubicl.Control.GatewayEpoch
import Qubicl.Cli.BackupArchive.Links
import Qubicl.Control.Process.JournalPages
import Qubicl.Control.Supervision.Freeze
import Qubicl.Gateway.Orphans
import Qubicl.Gateway.Authority
import Qubicl.Cli.Lifecycle.Attempts
import Qubicl.Control.Previews.Capabilities
import Qubicl.Cli.Restore.Outcome
import Qubicl.Cli.BackupCreation.Attempts
import Qubicl.Cli.Dashboard.Targets
import Qubicl.Cli.Ports.Published
import Qubicl.Gateway.Isolation
import Qubicl.Cli.Exposure.Snapshots
import Qubicl.Cli.Publication
import Qubicl.Cli.NetworkPolicy
import Qubicl.Control.Egress.Expiry
import Qubicl.Gateway.PreviewCookies
import Qubicl.Cli.Dashboard.Budget
import Qubicl.Cli.Dashboard.Plans
import Qubicl.Cli.LeaseBridge
import Qubicl.Cli.Retention.Reviewed
import Qubicl.Control.Isolation.Reports
import Qubicl.Control.Pointer.Viewers
import Qubicl.Gateway.ClientIdentity
import Qubicl.Gateway.RouteConvergence
import Qubicl.Cli.Cleanup.Execute
import Qubicl.Core.Reconcile
import Qubicl.Control.OpenTerminal.UploadScan
import Qubicl.Control.Previews.LinkReads
import Qubicl.Control.OpenTerminal.Retries
import Qubicl.Cli.Skills.Overwrites
import Qubicl.Skills.Docx.Replacement
import Qubicl.Skills.Xlsx.Renaming
import Qubicl.Cli.AuditLog
import Qubicl.Control.BrowserReading
import Qubicl.Control.OpenTerminal.Sessions
import Qubicl.Control.Files.EditDiff
import Qubicl.Control.Files.Mutations
import Qubicl.Control.Lease.ActorLabels
import Qubicl.Control.Egress.BrokerTarget
import Qubicl.Control.Egress.Decision
