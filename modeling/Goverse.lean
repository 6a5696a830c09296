import Goverse.Object.Stranded
import Goverse.Node.Lifecycle
import Goverse.Util.UniqueId
import Goverse.Consensus.Creation
import Goverse.Consensus.Stuck
import Goverse.Consensus.Deletion
import Goverse.Consensus.Pinned
import Goverse.Util.Cancellation
import Goverse.Consensus.StoreMapping
import Goverse.Object.Mailbox
import Goverse.Object.Release
import Goverse.Cluster.AutoLoad
import Goverse.Cluster.NodeConnections
import Goverse.Cluster.Push
import Goverse.Cluster.SharedLease
import Goverse.Util.TaskPool
import Goverse.Cluster.Deadlock
import Goverse.Node.Rows
import Goverse.Node.Reentrant
import Goverse.Node.Serial
import Goverse.Server.CallIdentity
import Goverse.Server.ClientCreate
import Goverse.Server.ClientDelete
import Goverse.Server.NodeAccess
import Goverse.Gate.Clients
import Goverse.Gate.Server
import Goverse.Gate.HTTPPaths
import Goverse.Gate.NodeRegistrations
import Goverse.Gate.Notifications
import Goverse.Client.Messages
import Goverse.Inspector.Reports
