import Talus.Agent.Delivery
import Talus.Agent.Recovery
import Talus.ApiKey.Validate
import Talus.Deploy.Invariants
import Talus.Exec.Capped
import Talus.Metrics.Budget
import Talus.Metrics.Splitting
import Talus.Monitoring.Series
import Talus.RateLimit.Address
import Talus.Relay.Placeholders
import Talus.Resident.Evidence
import Talus.Resident.Presence
import Talus.Session.Pages
import Talus.Settings.Retention
import Talus.Sftp.Atomic
import Talus.Sftp.Protocol
import Talus.SshPool.Generation
import Talus.SshPool.Ownership
import Talus.Terminal.Output
import Talus.Usage.Conservation
import Talus.Usage.Lease
import Talus.Usage.RetryQueues
import Talus.Usage.Slots
