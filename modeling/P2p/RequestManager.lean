import P2p.Types
import P2p.BinarySearch

/-!
`RequestManager` of `behaviour/request_manager.rs`, method by method.

A `HashMap` is its lookup function, updated with `Function.update`; `SmallVec` and `VecDeque`
are lists. A `&mut self` method returns the new manager, paired with its result where it has
one. The `expect` in `on_peer_connected` is the one panic of the manager: that method returns
`none` when it fires. The capacity of `actions`, which `take_next_action` shrinks, is not
modelled.
-/

namespace P2p

open PeerConnectionManager

structure RequestManager (Rq Tx C : Type) where
  inboundRequestStore : RequestId → Option (PeerId × RequestMessage Rq Tx)
  outboundRequestStore : RequestId → Option (PeerId × RequestMessage Rq Tx)
  connections : C
  awaitingConnection : PeerId → Option (List RequestId)
  awaitingPeerRule : PeerId → Option (RequestDirection → Option (List RequestId))
  awaitingApproval : List (RequestId × RequestDirection)
  actions : List (BehaviourAction Rq Tx)

/-- `HashMap::is_empty` of the per-direction map in `awaiting_peer_rule`. -/
def isEmpty (awaitRule : RequestDirection → Option (List RequestId)) : Bool :=
  (awaitRule .inbound).isNone && (awaitRule .outbound).isNone

namespace RequestManager

variable {Rq Tx C P Q V : Type} [PeerConnectionManager C]

def new : RequestManager Rq Tx C where
  inboundRequestStore := fun _ => none
  outboundRequestStore := fun _ => none
  connections := PeerConnectionManager.new
  awaitingConnection := fun _ => none
  awaitingPeerRule := fun _ => none
  awaitingApproval := []
  actions := []

def connectedPeers (s : RequestManager Rq Tx C) : List PeerId :=
  getConnectedPeers s.connections

/-- The store `store_request` and `take_stored_request` pick for a direction. -/
def requestStore (s : RequestManager Rq Tx C) :
    RequestDirection → RequestId → Option (PeerId × RequestMessage Rq Tx)
  | .inbound => s.inboundRequestStore
  | .outbound => s.outboundRequestStore

/-- `self.actions.push_back(action)`. -/
def pushBack (s : RequestManager Rq Tx C) (action : BehaviourAction Rq Tx) :
    RequestManager Rq Tx C :=
  { s with actions := s.actions ++ [action] }

def storeRequest (s : RequestManager Rq Tx C) (peer : PeerId) (requestId : RequestId)
    (request : RequestMessage Rq Tx) : RequestDirection → RequestManager Rq Tx C
  | .inbound => { s with
      inboundRequestStore := Function.update s.inboundRequestStore requestId (some (peer, request)) }
  | .outbound => { s with
      outboundRequestStore := Function.update s.outboundRequestStore requestId (some (peer, request)) }

def takeStoredRequest (s : RequestManager Rq Tx C) (requestId : RequestId) :
    RequestDirection → Option (PeerId × RequestMessage Rq Tx) × RequestManager Rq Tx C
  | .inbound => (s.inboundRequestStore requestId,
      { s with inboundRequestStore := Function.update s.inboundRequestStore requestId none })
  | .outbound => (s.outboundRequestStore requestId,
      { s with outboundRequestStore := Function.update s.outboundRequestStore requestId none })

def addDialAttempt (s : RequestManager Rq Tx C) (peer : PeerId) (requestId : RequestId) :
    RequestManager Rq Tx C :=
  { s with
    awaitingConnection := Function.update s.awaitingConnection peer
      (some ((s.awaitingConnection peer).getD [] ++ [requestId]))
    actions := s.actions ++ [.requireDialAttempt peer] }

def addReadyRequest (s : RequestManager Rq Tx C) (peer : PeerId) (requestId : RequestId)
    (connection : ConnectionId) (request : RequestMessage Rq Tx) (direction : RequestDirection) :
    RequestManager Rq Tx C :=
  s.pushBack (match direction with
    | .inbound => .inboundReady requestId peer request
    | .outbound => .outboundReady requestId peer connection request)

def getRequestPeerRef (s : RequestManager Rq Tx C) (requestId : RequestId) : Option PeerId :=
  ((s.inboundRequestStore requestId).or (s.outboundRequestStore requestId)).map Prod.fst

def getRequestValueRef (s : RequestManager Rq Tx C) (requestId : RequestId) : Option Rq :=
  ((s.inboundRequestStore requestId).or (s.outboundRequestStore requestId)).map (·.2.data)

def handleRequestApproval (s : RequestManager Rq Tx C) (requestId : RequestId)
    (direction : RequestDirection) (isAllowed : Bool) : Option Unit × RequestManager Rq Tx C :=
  if !isAllowed then
    match s.takeStoredRequest requestId direction with
    | (none, s) => (none, s)
    | (some (peer, _), s) => (some (), s.pushBack (notPermitted direction peer requestId))
  else
    match s.getRequestPeerRef requestId with
    | none => (none, s)
    | some peer =>
        match addRequest s.connections peer requestId direction with
        | (some connection, connections) =>
            match { s with connections := connections }.takeStoredRequest requestId direction with
            | (none, s) => (none, s)
            | (some (peer, request), s) =>
                (some (), s.addReadyRequest peer requestId connection request direction)
        | (none, connections) =>
            match direction with
            | .inbound =>
                match { s with connections := connections }.takeStoredRequest requestId .inbound with
                | (none, s) => (none, s)
                | (some _, s) => (some (), s.pushBack (.inboundFailure peer requestId .connectionClosed))
            | .outbound => (some (), { s with connections := connections }.addDialAttempt peer requestId)

def onNewRequest (s : RequestManager Rq Tx C) (peer : PeerId) (requestId : RequestId)
    (request : RequestMessage Rq Tx) (approvalStatus : ApprovalStatus)
    (direction : RequestDirection) : RequestManager Rq Tx C :=
  match approvalStatus with
  | .missingRule =>
      let s := s.storeRequest peer requestId request direction
      let awaitRule := (s.awaitingPeerRule peer).getD fun _ => none
      { s with
        awaitingPeerRule := Function.update s.awaitingPeerRule peer
          (some (Function.update awaitRule direction
            (some ((awaitRule direction).getD [] ++ [requestId])))) }
  | .missingApproval =>
      let s := s.storeRequest peer requestId request direction
      { s with awaitingApproval := s.awaitingApproval ++ [(requestId, direction)] }
  | .approved =>
      match addRequest s.connections peer requestId direction with
      | (some connection, connections) =>
          { s with connections := connections }.addReadyRequest peer requestId connection request
            direction
      | (none, connections) =>
          match direction with
          | .outbound =>
              ({ s with connections := connections }.storeRequest peer requestId request
                .outbound).addDialAttempt peer requestId
          | .inbound =>
              { s with connections := connections }.pushBack
                (.inboundFailure peer requestId .connectionClosed)
  | .rejected => s.pushBack (notPermitted direction peer requestId)

/-- The `for_each` closure of `on_peer_connected` over the requests that awaited the connection;
`none` when its `expect` panics. -/
def flushConnection (s : RequestManager Rq Tx C) : List RequestId → Option (RequestManager Rq Tx C)
  | [] => some s
  | requestId :: rest =>
      match s.takeStoredRequest requestId .outbound with
      | (none, s) => flushConnection s rest
      | (some (peer, request), s) =>
          match addRequest s.connections peer requestId .outbound with
          | (none, _) => none
          | (some connection, connections) =>
              flushConnection ({ s with connections := connections }.pushBack
                (.outboundReady requestId peer connection request)) rest

def onPeerConnected (s : RequestManager Rq Tx C) (peer : PeerId) : Option (RequestManager Rq Tx C) :=
  if !isConnected s.connections peer then some s
  else
    match s.awaitingConnection peer with
    | none => some s
    | some requests =>
        flushConnection { s with awaitingConnection := Function.update s.awaitingConnection peer none }
          requests

def onConnectionEstablished (s : RequestManager Rq Tx C) (peer : PeerId)
    (connection : ConnectionId) : RequestManager Rq Tx C :=
  { s with connections := addConnection s.connections peer connection }

def onConnectionClosed (s : RequestManager Rq Tx C) (peer : PeerId) (connection : ConnectionId) :
    RequestManager Rq Tx C :=
  match removeConnection s.connections peer connection with
  | (none, connections) => { s with connections := connections }
  | (some pendingRes, connections) =>
      { s with
        connections := connections
        actions := s.actions
          ++ pendingRes.outboundRequests.map (fun requestId => .outboundFailure peer requestId .connectionClosed)
          ++ pendingRes.inboundRequests.map (fun requestId => .inboundFailure peer requestId .connectionClosed) }

def onPeerDisconnected (s : RequestManager Rq Tx C) (peer : PeerId) : RequestManager Rq Tx C :=
  match removeAllConnections s.connections peer with
  | (none, connections) => { s with connections := connections }
  | (some conns, connections) =>
      conns.foldl (fun s conn => s.onConnectionClosed peer conn) { s with connections := connections }

/-- One turn of the `for_each` closure of `on_dial_failure`. -/
def failDial (peer : PeerId) (s : RequestManager Rq Tx C) (requestId : RequestId) :
    RequestManager Rq Tx C :=
  (s.takeStoredRequest requestId .outbound).2.pushBack (.outboundFailure peer requestId .dialFailure)

def onDialFailure (s : RequestManager Rq Tx C) (peer : PeerId) : RequestManager Rq Tx C :=
  match s.awaitingConnection peer with
  | none => s
  | some requests =>
      requests.foldl (failDial peer)
        { s with awaitingConnection := Function.update s.awaitingConnection peer none }

/-- The `filter_map` closure of `on_peer_rule`, on one affected request. -/
def applyRule (fw : Firewall Rq P Q V) (rules : FirewallRules Q) (s : RequestManager Rq Tx C)
    (requestId : RequestId) (dir : RequestDirection) :
    Option (RequestId × P × RequestDirection) × RequestManager Rq Tx C :=
  match rules.rule dir with
  | some .ask =>
      match s.getRequestValueRef requestId with
      | none => (none, s)
      | some rq =>
          (some (requestId, fw.toPermissioned rq, dir),
            { s with awaitingApproval := s.awaitingApproval ++ [(requestId, dir)] })
  | some (.permission permission) =>
      match s.getRequestValueRef requestId with
      | some rq =>
          (none, (s.handleRequestApproval requestId dir
            (fw.permits permission (fw.permissionValue rq))).2)
      | none => (none, s)
  | none => (none, (s.handleRequestApproval requestId dir false).2)

/-- `filter_map` with that closure, then `collect`: each request sees the manager the ones
before it left. -/
def applyRules (fw : Firewall Rq P Q V) (rules : FirewallRules Q) (s : RequestManager Rq Tx C) :
    List (RequestId × RequestDirection) →
      List (RequestId × P × RequestDirection) × RequestManager Rq Tx C
  | [] => ([], s)
  | (requestId, dir) :: rest =>
      let first := s.applyRule fw rules requestId dir
      let others := applyRules fw rules first.2 rest
      (first.1.toList ++ others.1, others.2)

def onPeerRule (fw : Firewall Rq P Q V) (s : RequestManager Rq Tx C) (peer : PeerId)
    (rules : FirewallRules Q) (direction : RuleDirection) :
    Option (List (RequestId × P × RequestDirection)) × RequestManager Rq Tx C :=
  match s.awaitingPeerRule peer with
  | none => (none, s)
  | some awaitRule =>
      let s := { s with awaitingPeerRule := Function.update s.awaitingPeerRule peer none }
      let inRqs := if direction.isInbound then awaitRule .inbound else none
      let awaitRule := if direction.isInbound then Function.update awaitRule .inbound none else awaitRule
      let outRqs := if direction.isOutbound then awaitRule .outbound else none
      let awaitRule := if direction.isOutbound then Function.update awaitRule .outbound none else awaitRule
      let requests := (inRqs.getD []).map (fun rq => (rq, .inbound))
        ++ (outRqs.getD []).map (fun rq => (rq, .outbound))
      let requireAsk := s.applyRules fw rules requests
      if !isEmpty awaitRule then
        (some requireAsk.1, { requireAsk.2 with
          awaitingPeerRule := Function.update requireAsk.2.awaitingPeerRule peer (some awaitRule) })
      else (some requireAsk.1, requireAsk.2)

/-- The body of both `for` loops of `on_no_peer_rule`. -/
def rejectAwaiting (peer : PeerId) (direction : RequestDirection) (s : RequestManager Rq Tx C)
    (requestId : RequestId) : RequestManager Rq Tx C :=
  (s.takeStoredRequest requestId direction).2.pushBack (notPermitted direction peer requestId)

def onNoPeerRule (s : RequestManager Rq Tx C) (peer : PeerId) (direction : RuleDirection) :
    RequestManager Rq Tx C :=
  match s.awaitingPeerRule peer with
  | none => s
  | some awaitRule =>
      let s := { s with awaitingPeerRule := Function.update s.awaitingPeerRule peer none }
      let s := if direction.isInbound then
        ((awaitRule .inbound).getD []).foldl (rejectAwaiting peer .inbound) s else s
      let awaitRule := if direction.isInbound then Function.update awaitRule .inbound none else awaitRule
      let s := if direction.isOutbound then
        ((awaitRule .outbound).getD []).foldl (rejectAwaiting peer .outbound) s else s
      let awaitRule := if direction.isOutbound then Function.update awaitRule .outbound none else awaitRule
      if !isEmpty awaitRule then
        { s with awaitingPeerRule := Function.update s.awaitingPeerRule peer (some awaitRule) }
      else s

def onRequestApproval (s : RequestManager Rq Tx C) (requestId : RequestId) (isAllowed : Bool) :
    Option Unit × RequestManager Rq Tx C :=
  match binarySearchBy s.awaitingApproval (fun entry => compare entry.1 requestId) with
  | .error _ => (none, s)
  | .ok index =>
      -- An `Ok` index is in bounds (`binarySearchBy_ok`): `remove` does not panic.
      match s.awaitingApproval[index]? with
      | none => (none, s)
      | some (requestId, direction) =>
          { s with awaitingApproval := s.awaitingApproval.eraseIdx index }.handleRequestApproval
            requestId direction isAllowed

/-- `on_res_for_inbound` and `on_res_for_outbound`: forget the request on the connection, then
queue the failure, if any. -/
def onResponse (s : RequestManager Rq Tx C) (connection : ConnectionId) (requestId : RequestId)
    (direction : RequestDirection) (failure : Option (BehaviourAction Rq Tx)) :
    RequestManager Rq Tx C :=
  let s := { s with connections := removeRequest s.connections connection requestId direction }
  match failure with
  | some action => s.pushBack action
  | none => s

def onResForInbound (s : RequestManager Rq Tx C) (peer : PeerId) (connection : ConnectionId)
    (requestId : RequestId) (result : Except InboundFailure Unit) : RequestManager Rq Tx C :=
  s.onResponse connection requestId .inbound
    (match result with
     | .error reason => some (.inboundFailure peer requestId reason)
     | .ok () => none)

def onResForOutbound (s : RequestManager Rq Tx C) (peer : PeerId) (connection : ConnectionId)
    (requestId : RequestId) (result : Except OutboundFailure Unit) : RequestManager Rq Tx C :=
  s.onResponse connection requestId .outbound
    (match result with
     | .error reason => some (.outboundFailure peer requestId reason)
     | .ok () => none)

def pendingRuleRequests (s : RequestManager Rq Tx C) (peer : PeerId) : Option RuleDirection :=
  match s.awaitingPeerRule peer with
  | none => none
  | some awaitRule =>
      let isInboundPending := (awaitRule .inbound).isSome
      let isOutboundPending := (awaitRule .outbound).isSome
      if isInboundPending && isOutboundPending then some .both
      else if isInboundPending then some .inbound
      else if isOutboundPending then some .outbound
      else none

def addPendingRuleRequests (s : RequestManager Rq Tx C) (peer : PeerId) (direction : RuleDirection) :
    RequestManager Rq Tx C :=
  let pending := (s.awaitingPeerRule peer).getD fun _ => none
  let pending := if direction.isInbound && (pending .inbound).isNone then
    Function.update pending .inbound (some []) else pending
  let pending := if direction.isOutbound && (pending .outbound).isNone then
    Function.update pending .outbound (some []) else pending
  { s with awaitingPeerRule := Function.update s.awaitingPeerRule peer (some pending) }

def setProtocolSupport (s : RequestManager Rq Tx C) (peer : PeerId) (connection : Option ConnectionId)
    (protocolSupport : ProtocolSupport) : RequestManager Rq Tx C :=
  let connections := match connection with
    | some c => [c]
    | none => getConnections s.connections peer
  { s with actions := s.actions ++ connections.map fun conn => .setProtocolSupport peer conn protocolSupport }

def takeNextAction (s : RequestManager Rq Tx C) :
    Option (BehaviourAction Rq Tx) × RequestManager Rq Tx C :=
  match s.actions with
  | [] => (none, s)
  | action :: rest => (some action, { s with actions := rest })

end RequestManager

end P2p
