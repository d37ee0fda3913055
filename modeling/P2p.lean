import P2p.Types
import P2p.BinarySearch
import P2p.RequestManager
import P2p.Run
import P2p.Slots
import P2p.Tracked
import P2p.Steps
import P2p.Loops
import P2p.Invariant
import P2p.Connections
import P2p.WellFormed
import P2p.Outcomes
import P2p.Firewall
import P2p.Approval
import P2p.PeerRule
import P2p.PendingRules
import P2p.Release
import P2p.Lifecycle
import P2p.Isolation
import P2p.Delivery
import P2p.ApprovalOrder
import P2p.Queue
import P2p.Wire
import P2p.Exchange
