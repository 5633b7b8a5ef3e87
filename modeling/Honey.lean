import Honey.Master.Lease
import Honey.Master.Converge
import Honey.Credentials
import Honey.Agent.Rollback
import Honey.Agent.Daemons
import Honey.Agent.Interleave
import Honey.Agent.Recovery
import Honey.Chains
import Honey.Cutoff
import Honey.Master.Authority
import Honey.Master.Isolation
import Honey.Master.Rotation
import Honey.Master.AuditChain
import Honey.Master.Upstream
import Honey.Master.Access
import Honey.Master.Schedule
import Honey.Master.Quota
import Honey.Master.History
import Honey.Master.Reach
import Honey.Master.Limiter
import Honey.Master.Budget
import Honey.Agent.Certificates
import Honey.Master.Bridge
