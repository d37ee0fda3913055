import P2p.Invariant
import Mathlib.Data.List.Nodup

/-!
Two connection managers. `request_manager/connections.rs` is not among the sources, so the
manager is a parameter everywhere else; here are a model of it from the spec's description of the
connection bookkeeping (4.5), for concrete runs, and `Recorded`, which wraps any connection
manager and logs the ids of the `add_request` calls that returned `Some`. `Recorded` forwards every
call unchanged: a run over `Recorded C` makes the calls a run over `C` makes, and its log counts
the grants (`Recorded.grantCounter`).

On the spec's bookkeeping a connection keeps its requests in flight until `remove_connection`
returns them, so `on_peer_disconnected`, which closes each connection that
`remove_all_connections` returns, is `on_connection_closed` for every connection of the peer in
turn (spec, section 8).
-/

namespace P2p

open PeerConnectionManager

/-- Modelled from the spec: per peer its connections in order, each once, and per connection the
requests in flight with their direction. -/
@[ext] structure Connections where
  established : List (PeerId × ConnectionId)
  inFlight : List (ConnectionId × RequestId × RequestDirection)
  nodup : established.Nodup

namespace Connections

def connectionsOf (c : Connections) (peer : PeerId) : List ConnectionId :=
  (c.established.filter (·.1 == peer)).map (·.2)

def inFlightOn (c : Connections) (connection : ConnectionId) (direction : RequestDirection) :
    List RequestId :=
  (c.inFlight.filter fun entry => entry.1 == connection && entry.2.2 == direction).map (·.2.1)

/-- Modelled from the spec: `add_request` attaches the request to the peer's first connection, and
returns `None` iff the peer has none; `remove_connection` returns the two in-flight sets of the
connection (empty for one it does not hold); `remove_all_connections` returns the peer's
connections and takes them out of use, their in-flight sets left to `remove_connection`. -/
instance : PeerConnectionManager Connections where
  new := ⟨[], [], List.nodup_nil⟩
  getConnectedPeers c := (c.established.map (·.1)).eraseDups
  getConnections := connectionsOf
  isConnected c peer := !(c.connectionsOf peer).isEmpty
  addConnection c peer connection :=
    if known : (peer, connection) ∈ c.established then c
    else ⟨c.established.concat (peer, connection), c.inFlight, c.nodup.concat known⟩
  removeConnection c peer connection :=
    (some ⟨c.inFlightOn connection .outbound, c.inFlightOn connection .inbound⟩,
      ⟨c.established.erase (peer, connection), c.inFlight.filter (·.1 != connection), c.nodup.erase _⟩)
  removeAllConnections c peer :=
    match c.connectionsOf peer with
    | [] => (none, c)
    | connections => (some connections, ⟨c.established.filter (·.1 != peer), c.inFlight, c.nodup.filter _⟩)
  addRequest c peer requestId direction :=
    match c.connectionsOf peer with
    | [] => (none, c)
    | connection :: _ => (some connection, { c with inFlight := c.inFlight ++ [(connection, requestId, direction)] })
  removeRequest c connection requestId direction :=
    { c with inFlight := c.inFlight.erase (connection, requestId, direction) }

theorem addRequest_eq (c : Connections) (peer : PeerId) (requestId : RequestId) (direction : RequestDirection) :
    addRequest c peer requestId direction =
      match c.connectionsOf peer with
      | [] => (none, c)
      | connection :: _ =>
          (some connection, { c with inFlight := c.inFlight ++ [(connection, requestId, direction)] }) := rfl

theorem addRequest_of_connected (c : Connections) (peer : PeerId) (requestId : RequestId)
    (direction : RequestDirection) (connected : isConnected c peer = true) :
    (addRequest c peer requestId direction).1.isSome ∧
      isConnected (addRequest c peer requestId direction).2 peer = true := by
  change (!(c.connectionsOf peer).isEmpty) = true at connected
  rw [addRequest_eq]
  rcases found : c.connectionsOf peer with _ | ⟨connection, rest⟩
  · simp [found] at connected
  · exact ⟨rfl, by simpa [isConnected, connectionsOf, found] using connected⟩

theorem inFlightOn_removeConnection (c : Connections) (peer : PeerId) {connection other : ConnectionId}
    (apart : other ≠ connection) (direction : RequestDirection) :
    (removeConnection c peer connection).2.inFlightOn other direction = c.inFlightOn other direction := by
  simp only [removeConnection, inFlightOn, List.filter_filter]
  congr 1
  refine List.filter_congr fun entry _ => ?_
  by_cases hit : entry.1 = other
  · simp [hit, apart]
  · simp [hit]

theorem foldl_erase_connectionsOf (c : Connections) (peer : PeerId) :
    (c.connectionsOf peer).foldl (fun l connection => l.erase (peer, connection)) c.established =
      c.established.filter (·.1 != peer) := by
  have erased : ∀ (connections : List ConnectionId) (l : List (PeerId × ConnectionId)), l.Nodup →
      connections.foldl (fun l connection => l.erase (peer, connection)) l =
        l.filter fun entry => !(entry.1 == peer && decide (entry.2 ∈ connections)) := by
    intro connections
    induction connections with
    | nil => intro l _; simp
    | cons connection rest ih =>
        intro l nodup
        rw [List.foldl_cons, nodup.erase_eq_filter, ih _ (nodup.filter _), List.filter_filter]
        refine List.filter_congr fun ⟨p, conn⟩ _ => ?_
        by_cases same : p = peer
        · subst same
          by_cases hit : conn = connection <;> simp [hit]
        · have other : (p == peer) = false := beq_eq_false_iff_ne.mpr same
          simp [other, same]
  rw [erased _ _ c.nodup]
  refine List.filter_congr fun ⟨p, conn⟩ mem => ?_
  by_cases same : p = peer
  · subst same
    simp [connectionsOf, mem]
  · have other : (p == peer) = false := beq_eq_false_iff_ne.mpr same
    simp [other, same]

theorem foldl_removeConnection (peer : PeerId) :
    ∀ (connections : List ConnectionId) (c : Connections),
      (connections.foldl (fun c connection => (removeConnection c peer connection).2) c).established =
          connections.foldl (fun l connection => l.erase (peer, connection)) c.established ∧
        (connections.foldl (fun c connection => (removeConnection c peer connection).2) c).inFlight =
          c.inFlight.filter fun entry => entry.1 ∉ connections
  | [], c => by simp
  | connection :: rest, c => by
      obtain ⟨established, inFlight⟩ := foldl_removeConnection peer rest (removeConnection c peer connection).2
      refine ⟨established, ?_⟩
      rw [List.foldl_cons, inFlight]
      simp only [removeConnection, List.filter_filter, List.mem_cons, not_or]
      congr 1
      funext entry
      by_cases hit : entry.1 = connection <;> simp [hit]

theorem nodup_connectionsOf (c : Connections) (peer : PeerId) : (c.connectionsOf peer).Nodup :=
  (c.nodup.filter _).map_on fun _ mem _ mem' same => by
    simp only [List.mem_filter, beq_iff_eq] at mem mem'
    exact Prod.ext (mem.2.trans mem'.2.symm) same

theorem removeAllConnections_snd (c : Connections) (peer : PeerId) :
    (removeAllConnections c peer).2 = ⟨c.established.filter (·.1 != peer), c.inFlight, c.nodup.filter _⟩ := by
  have erased := foldl_erase_connectionsOf c peer
  rcases found : c.connectionsOf peer with _ | ⟨first, rest⟩
  · rw [found, List.foldl_nil] at erased
    simp only [removeAllConnections, found]
    exact Connections.ext erased rfl
  · simp only [removeAllConnections, found]

/-- Closing the peer's connections one by one ends in the same bookkeeping whether or not
`remove_all_connections` has taken them out of use first. -/
theorem foldl_removeConnection_removeAll (c : Connections) (peer : PeerId) :
    (c.connectionsOf peer).foldl (fun c connection => (removeConnection c peer connection).2)
        (removeAllConnections c peer).2 =
      (c.connectionsOf peer).foldl (fun c connection => (removeConnection c peer connection).2) c := by
  obtain ⟨established, inFlight⟩ := foldl_removeConnection peer (c.connectionsOf peer) c
  obtain ⟨established', inFlight'⟩ :=
    foldl_removeConnection peer (c.connectionsOf peer) (removeAllConnections c peer).2
  ext1
  · rw [established', established, foldl_erase_connectionsOf, removeAllConnections_snd, List.foldl_fixed']
    exact fun _ => List.erase_of_not_mem (by simp)
  · rw [inFlight', inFlight, removeAllConnections_snd]

end Connections

section Disconnect

variable {Rq Tx : Type}

open Connections

/-- What `on_connection_closed(peer, connection)` queues on the spec's bookkeeping: a
`ConnectionClosed` failure for each request in flight on the connection, the outbound ones first. -/
def closedActions (c : Connections) (peer : PeerId) (connection : ConnectionId) : List (BehaviourAction Rq Tx) :=
  (c.inFlightOn connection .outbound).map (fun requestId => .outboundFailure peer requestId .connectionClosed) ++
    (c.inFlightOn connection .inbound).map (fun requestId => .inboundFailure peer requestId .connectionClosed)

theorem onConnectionClosed_eq (s : RequestManager Rq Tx Connections) (peer : PeerId) (connection : ConnectionId) :
    s.onConnectionClosed peer connection =
      { s with connections := (removeConnection s.connections peer connection).2,
               actions := s.actions ++ closedActions s.connections peer connection } := by
  simp only [RequestManager.onConnectionClosed, removeConnection, closedActions, List.append_assoc]

theorem foldl_onConnectionClosed (peer : PeerId) :
    ∀ (connections : List ConnectionId) (s : RequestManager Rq Tx Connections), connections.Nodup →
      connections.foldl (fun t connection => t.onConnectionClosed peer connection) s =
        { s with connections := connections.foldl (fun c connection => (removeConnection c peer connection).2) s.connections,
                 actions := s.actions ++ connections.flatMap (closedActions s.connections peer) }
  | [], s, _ => by simp
  | connection :: rest, s, nodup => by
      rw [List.foldl_cons, onConnectionClosed_eq, foldl_onConnectionClosed peer rest _ (List.nodup_cons.mp nodup).2]
      have others : rest.flatMap (closedActions (removeConnection s.connections peer connection).2 peer) =
          rest.flatMap (closedActions s.connections peer : ConnectionId → List (BehaviourAction Rq Tx)) := by
        refine List.flatMap_congr fun other mem => ?_
        have apart : other ≠ connection := fun same => (List.nodup_cons.mp nodup).1 (same ▸ mem)
        simp only [closedActions, inFlightOn_removeConnection _ _ apart]
      simp [others]

theorem onPeerDisconnected_eq (s : RequestManager Rq Tx Connections) (peer : PeerId) :
    s.onPeerDisconnected peer =
      (s.connections.connectionsOf peer).foldl (fun t connection => t.onConnectionClosed peer connection)
        { s with connections := (removeAllConnections s.connections peer).2 } := by
  unfold RequestManager.onPeerDisconnected
  rcases found : s.connections.connectionsOf peer with _ | ⟨first, rest⟩ <;>
    simp only [removeAllConnections, found, List.foldl_nil]

/-- On the spec's bookkeeping `on_peer_disconnected(peer)` is `on_connection_closed(peer, c)` for
each connection `c` of the peer in turn: it queues one `ConnectionClosed` failure for every request
in flight on them, and leaves the peer with no connection. -/
theorem onPeerDisconnected_eq_foldl (s : RequestManager Rq Tx Connections) (peer : PeerId) :
    s.onPeerDisconnected peer =
        (s.connections.connectionsOf peer).foldl (fun t connection => t.onConnectionClosed peer connection) s ∧
      (s.onPeerDisconnected peer).actions =
        s.actions ++ (s.connections.connectionsOf peer).flatMap (closedActions s.connections peer) ∧
      isConnected (s.onPeerDisconnected peer).connections peer = false := by
  have nodup := nodup_connectionsOf s.connections peer
  have closed := foldl_onConnectionClosed peer _ s nodup
  have same : s.onPeerDisconnected peer =
      (s.connections.connectionsOf peer).foldl (fun t connection => t.onConnectionClosed peer connection) s := by
    rw [onPeerDisconnected_eq, foldl_onConnectionClosed peer _ _ nodup, closed, foldl_removeConnection_removeAll,
      removeAllConnections_snd]
    rfl
  have gone : (s.onPeerDisconnected peer).connections.established = s.connections.established.filter (·.1 != peer) := by
    rw [same, closed]
    exact (foldl_removeConnection peer _ _).1.trans (foldl_erase_connectionsOf _ _)
  refine ⟨same, by rw [same, closed], ?_⟩
  simp only [isConnected, connectionsOf, gone, List.filter_filter]
  simp

/-- A request in flight on the peer's only connection: the peer's disconnecting reports it as
closing the connection does. -/
example :
    let s := ((RequestManager.new : RequestManager Nat Unit Connections).onConnectionEstablished 7 0).onNewRequest
      7 1 ⟨5, ()⟩ .approved .outbound
    (s.onPeerDisconnected 7).actions = (s.onConnectionClosed 7 0).actions := rfl

end Disconnect

/-- A firewall for concrete runs: a request's permission value is its data, and a permission
`q` permits the values up to `q`. -/
def sampleFirewall : Firewall Nat Nat Nat Nat := ⟨id, id, fun q value => decide (value ≤ q)⟩

structure Recorded (C : Type) where
  inner : C
  grants : List RequestId

namespace Recorded

variable {C : Type} [PeerConnectionManager C]

instance : PeerConnectionManager (Recorded C) where
  new := ⟨PeerConnectionManager.new, []⟩
  getConnectedPeers c := getConnectedPeers c.inner
  getConnections c := getConnections c.inner
  isConnected c := isConnected c.inner
  addConnection c peer connection := { c with inner := addConnection c.inner peer connection }
  removeConnection c peer connection :=
    ((removeConnection c.inner peer connection).1, { c with inner := (removeConnection c.inner peer connection).2 })
  removeAllConnections c peer :=
    ((removeAllConnections c.inner peer).1, { c with inner := (removeAllConnections c.inner peer).2 })
  addRequest c peer requestId direction :=
    ((addRequest c.inner peer requestId direction).1,
      ⟨(addRequest c.inner peer requestId direction).2,
        if (addRequest c.inner peer requestId direction).1.isSome then c.grants ++ [requestId] else c.grants⟩)
  removeRequest c connection requestId direction :=
    { c with inner := removeRequest c.inner connection requestId direction }

theorem grantCounter : GrantCounter (fun (c : Recorded C) r => c.grants.count r) where
  new _ := rfl
  addRequest c peer requestId direction r := by
    show List.count r (if (addRequest c.inner peer requestId direction).1.isSome then c.grants ++ [requestId]
      else c.grants) = c.grants.count r +
        if r = requestId ∧ (addRequest c.inner peer requestId direction).1.isSome then 1 else 0
    by_cases same : r = requestId <;> split <;> simp_all
  addConnection _ _ _ _ := rfl
  removeConnection _ _ _ _ := rfl
  removeAllConnections _ _ _ := rfl
  removeRequest _ _ _ _ _ := rfl

end Recorded

end P2p
