import Mathlib.Logic.Function.Basic

/-!
The data model of `behaviour/request_manager.rs`: directions, firewall rules, failures, request
messages and the actions the manager queues for the `NetBehaviour`.

The crate's `firewall` module and `request_manager/connections.rs` are not among the sources.
What the manager calls of them is a parameter here: `Firewall` holds the three functions
`on_peer_rule` applies to a request and a rule, and the class `PeerConnectionManager` the methods
of the connection bookkeeping. Every result about the manager holds for every implementation of
them. The types the manager only matches on are modelled from the spec (section 3):
`RuleDirection` with `is_inbound` and `is_outbound`, `Rule`, `FirewallRules` (one optional rule per
direction), the failure kinds `InboundFailure` and `OutboundFailure`, `ProtocolSupport`, and
`PendingResponses`, the requests in flight on a closed connection.
-/

namespace P2p

abbrev PeerId := Nat
abbrev ConnectionId := Nat
abbrev RequestId := Nat

inductive RequestDirection where
  | inbound
  | outbound
  deriving DecidableEq, Repr

def RequestDirection.flip : RequestDirection → RequestDirection
  | .inbound => .outbound
  | .outbound => .inbound

@[simp] theorem RequestDirection.flip_inbound : RequestDirection.inbound.flip = .outbound := rfl

@[simp] theorem RequestDirection.flip_outbound : RequestDirection.outbound.flip = .inbound := rfl

theorem RequestDirection.eq_flip_of_ne {d d' : RequestDirection} (other : d ≠ d') : d = d'.flip := by
  cases d <;> cases d' <;> simp_all

@[simp] theorem RequestDirection.flip_ne (d : RequestDirection) : d.flip ≠ d := by
  cases d <;> decide

@[simp] theorem RequestDirection.ne_flip (d : RequestDirection) : d ≠ d.flip := by
  cases d <;> decide

inductive RuleDirection where
  | inbound
  | outbound
  | both
  deriving DecidableEq, Repr

def RuleDirection.isInbound : RuleDirection → Bool
  | .outbound => false
  | _ => true

def RuleDirection.isOutbound : RuleDirection → Bool
  | .inbound => false
  | _ => true

/-- The rule direction `dir` covers the request direction `d`. -/
def RuleDirection.covers (dir : RuleDirection) : RequestDirection → Bool
  | .inbound => dir.isInbound
  | .outbound => dir.isOutbound

inductive Rule (Q : Type) where
  | ask
  | permission (permission : Q)
  deriving DecidableEq, Repr

structure FirewallRules (Q : Type) where
  inbound : Option (Rule Q)
  outbound : Option (Rule Q)
  deriving DecidableEq, Repr

/-- The rule of a direction, as the `match dir` in `on_peer_rule` selects it. -/
def FirewallRules.rule (rules : FirewallRules Q) : RequestDirection → Option (Rule Q)
  | .inbound => rules.inbound
  | .outbound => rules.outbound

/-- `to_permissioned`, `permission_value` of the request type and `FirewallPermission::permits`:
what `on_peer_rule` computes of a request and a rule's permission. -/
structure Firewall (Rq P Q V : Type) where
  toPermissioned : Rq → P
  permissionValue : Rq → V
  permits : Q → V → Bool

inductive InboundFailure where
  | notPermitted
  | connectionClosed
  | timeout
  | unsupportedProtocols
  deriving DecidableEq, Repr

inductive OutboundFailure where
  | notPermitted
  | connectionClosed
  | dialFailure
  | timeout
  | unsupportedProtocols
  deriving DecidableEq, Repr

inductive ProtocolSupport where
  | inbound
  | outbound
  | both
  | none
  deriving DecidableEq, Repr

/-- A request and its one-shot response sender, which the manager only moves or drops. -/
structure RequestMessage (Rq Tx : Type) where
  data : Rq
  responseTx : Tx
  deriving DecidableEq, Repr

inductive BehaviourAction (Rq Tx : Type) where
  | inboundReady (requestId : RequestId) (peer : PeerId) (request : RequestMessage Rq Tx)
  | outboundReady (requestId : RequestId) (peer : PeerId) (connection : ConnectionId)
      (request : RequestMessage Rq Tx)
  | requireDialAttempt (peer : PeerId)
  | setProtocolSupport (peer : PeerId) (connection : ConnectionId) (support : ProtocolSupport)
  | outboundFailure (peer : PeerId) (requestId : RequestId) (reason : OutboundFailure)
  | inboundFailure (peer : PeerId) (requestId : RequestId) (reason : InboundFailure)
  deriving DecidableEq, Repr

inductive ApprovalStatus where
  | missingRule
  | missingApproval
  | approved
  | rejected
  deriving DecidableEq, Repr

/-- The `NotPermitted` failure of a direction, as `handle_request_approval` and the `Rejected`
branch of `on_new_request` build it. -/
def notPermitted (direction : RequestDirection) (peer : PeerId) (requestId : RequestId) :
    BehaviourAction Rq Tx :=
  match direction with
  | .outbound => .outboundFailure peer requestId .notPermitted
  | .inbound => .inboundFailure peer requestId .notPermitted

structure PendingResponses where
  outboundRequests : List RequestId
  inboundRequests : List RequestId
  deriving DecidableEq, Repr

/-- The methods of `connections::PeerConnectionManager` that the request manager calls. -/
class PeerConnectionManager (C : Type) where
  new : C
  getConnectedPeers : C → List PeerId
  getConnections : C → PeerId → List ConnectionId
  isConnected : C → PeerId → Bool
  addConnection : C → PeerId → ConnectionId → C
  removeConnection : C → PeerId → ConnectionId → Option PendingResponses × C
  removeAllConnections : C → PeerId → Option (List ConnectionId) × C
  addRequest : C → PeerId → RequestId → RequestDirection → Option ConnectionId × C
  removeRequest : C → ConnectionId → RequestId → RequestDirection → C

end P2p
