import P2p.Run

/-!
Where a request waits. A `Slot` is one waiting list of the manager: `awaiting_connection[peer]`,
`awaiting_peer_rule[peer][direction]`, or the entries of one direction in `awaiting_approval`.
While `on_peer_connected`, `on_dial_failure`, `on_peer_rule` or `on_no_peer_rule` runs, the
requests it took out of a slot and has not handled yet are `taken` from that slot: a `Place` is
a slot or the list the running method holds.

The lemmas say, once for each update the methods make, what becomes of the stores and of the
slots; the invariant's proofs use them and never unfold a method.
-/

namespace P2p

open RequestManager

variable {Rq Tx C : Type}

inductive Slot where
  | connection (peer : PeerId)
  | peerRule (peer : PeerId) (direction : RequestDirection)
  | approval (direction : RequestDirection)
  deriving DecidableEq

/-- The ids waiting in a slot, in order. -/
def waitingAt (s : RequestManager Rq Tx C) : Slot → List RequestId
  | .connection peer => (s.awaitingConnection peer).getD []
  | .peerRule peer direction => ((s.awaitingPeerRule peer).bind (· direction)).getD []
  | .approval direction => (s.awaitingApproval.filter (·.2 == direction)).map Prod.fst

/-- A request of `peer` in `direction` may wait in the slot. -/
def Slot.fits : Slot → PeerId → RequestDirection → Prop
  | .connection p, peer, direction => p = peer ∧ direction = .outbound
  | .peerRule p d, peer, direction => p = peer ∧ d = direction
  | .approval d, _, direction => d = direction

inductive Place where
  | waiting (slot : Slot)
  | taken (origin : Slot)
  deriving DecidableEq

def Place.origin : Place → Slot
  | .waiting slot => slot
  | .taken origin => origin

/-- How often `r` is at a place; `taken` is what the running method holds, with the slots the
ids came from. -/
def occurrences (s : RequestManager Rq Tx C) (taken : List (RequestId × Slot)) (r : RequestId) :
    Place → Nat
  | .waiting slot => (waitingAt s slot).count r
  | .taken origin => taken.count (r, origin)

/-- `r` is at `place`, once, and nowhere else. -/
def OnlyAt (s : RequestManager Rq Tx C) (taken : List (RequestId × Slot)) (r : RequestId)
    (place : Place) : Prop :=
  ∀ other, occurrences s taken r other = if other = place then 1 else 0

/-- `r` waits nowhere. -/
def Nowhere (s : RequestManager Rq Tx C) (taken : List (RequestId × Slot)) (r : RequestId) : Prop :=
  ∀ place, occurrences s taken r place = 0

namespace BehaviourAction

/-- The request an outcome (`*Ready`, `*Failure`) settles, with its peer and direction. -/
def outcome : BehaviourAction Rq Tx → Option (RequestId × PeerId × RequestDirection)
  | inboundReady requestId peer _ => some (requestId, peer, .inbound)
  | outboundReady requestId peer _ _ => some (requestId, peer, .outbound)
  | inboundFailure peer requestId _ => some (requestId, peer, .inbound)
  | outboundFailure peer requestId _ => some (requestId, peer, .outbound)
  | requireDialAttempt _ | setProtocolSupport .. => none

def isReady : BehaviourAction Rq Tx → Bool
  | inboundReady .. | outboundReady .. => true
  | _ => false

/-- The action settles request `r`. -/
def settles (action : BehaviourAction Rq Tx) (r : RequestId) : Bool :=
  action.outcome.map (·.1) == some r

end BehaviourAction

/-- The outcomes of request `r` in a log, in order. -/
def outcomes (log : List (BehaviourAction Rq Tx)) (r : RequestId) : List (BehaviourAction Rq Tx) :=
  log.filter (·.settles r)

@[simp] theorem outcomes_append (log log' : List (BehaviourAction Rq Tx)) (r : RequestId) :
    outcomes (log ++ log') r = outcomes log r ++ outcomes log' r :=
  List.filter_append _ _

/-- The `*Ready` action of a direction, as `add_ready_request` builds it. -/
def readyAction (d : RequestDirection) (r : RequestId) (peer : PeerId) (connection : ConnectionId)
    (request : RequestMessage Rq Tx) : BehaviourAction Rq Tx :=
  match d with
  | .inbound => .inboundReady r peer request
  | .outbound => .outboundReady r peer connection request

@[simp] theorem readyAction_outcome (d : RequestDirection) (r : RequestId) (peer : PeerId)
    (connection : ConnectionId) (request : RequestMessage Rq Tx) :
    (readyAction d r peer connection request).outcome = some (r, peer, d) := by
  cases d <;> rfl

@[simp] theorem readyAction_isReady (d : RequestDirection) (r : RequestId) (peer : PeerId)
    (connection : ConnectionId) (request : RequestMessage Rq Tx) :
    (readyAction d r peer connection request).isReady = true := by
  cases d <;> rfl

theorem RequestManager.addReadyRequest_eq (s : RequestManager Rq Tx C) (peer : PeerId) (r : RequestId)
    (connection : ConnectionId) (request : RequestMessage Rq Tx) (d : RequestDirection) :
    s.addReadyRequest peer r connection request d = s.pushBack (readyAction d r peer connection request) := by
  cases d <;> rfl

namespace RequestManager

@[simp] theorem requestStore_pushBack (s : RequestManager Rq Tx C) (action : BehaviourAction Rq Tx) :
    (s.pushBack action).requestStore = s.requestStore := rfl

@[simp] theorem requestStore_addDialAttempt (s : RequestManager Rq Tx C) (peer : PeerId)
    (requestId : RequestId) : (s.addDialAttempt peer requestId).requestStore = s.requestStore := rfl

theorem requestStore_storeRequest (s : RequestManager Rq Tx C) (peer : PeerId) (requestId : RequestId)
    (request : RequestMessage Rq Tx) (direction d : RequestDirection) (r : RequestId) :
    (s.storeRequest peer requestId request direction).requestStore d r =
      if d = direction ∧ r = requestId then some (peer, request) else s.requestStore d r := by
  cases direction <;> cases d <;> simp [storeRequest, requestStore, Function.update_apply]

@[simp] theorem takeStoredRequest_fst (s : RequestManager Rq Tx C) (requestId : RequestId)
    (direction : RequestDirection) :
    (s.takeStoredRequest requestId direction).1 = s.requestStore direction requestId := by
  cases direction <;> rfl

theorem requestStore_takeStoredRequest (s : RequestManager Rq Tx C) (requestId : RequestId)
    (direction d : RequestDirection) (r : RequestId) :
    (s.takeStoredRequest requestId direction).2.requestStore d r =
      if d = direction ∧ r = requestId then none else s.requestStore d r := by
  cases direction <;> cases d <;> simp [takeStoredRequest, requestStore, Function.update_apply]

@[simp] theorem requestStore_withConnections (s : RequestManager Rq Tx C) (connections : C) :
    ({ s with connections := connections } : RequestManager Rq Tx C).requestStore = s.requestStore := rfl

@[simp] theorem waitingAt_withConnections (s : RequestManager Rq Tx C) (connections : C) :
    waitingAt ({ s with connections := connections } : RequestManager Rq Tx C) = waitingAt s := rfl

@[simp] theorem connections_pushBack (s : RequestManager Rq Tx C) (action : BehaviourAction Rq Tx) :
    (s.pushBack action).connections = s.connections := rfl

@[simp] theorem connections_takeStoredRequest (s : RequestManager Rq Tx C) (requestId : RequestId)
    (direction : RequestDirection) :
    (s.takeStoredRequest requestId direction).2.connections = s.connections := by
  cases direction <;> rfl

theorem actions_takeStoredRequest (s : RequestManager Rq Tx C) (requestId : RequestId)
    (direction : RequestDirection) :
    (s.takeStoredRequest requestId direction).2.actions = s.actions := by
  cases direction <;> rfl

@[simp] theorem connections_storeRequest (s : RequestManager Rq Tx C) (peer : PeerId)
    (requestId : RequestId) (request : RequestMessage Rq Tx) (direction : RequestDirection) :
    (s.storeRequest peer requestId request direction).connections = s.connections := by
  cases direction <;> rfl

@[simp] theorem connections_addDialAttempt (s : RequestManager Rq Tx C) (peer : PeerId)
    (requestId : RequestId) : (s.addDialAttempt peer requestId).connections = s.connections := rfl

theorem lookup_of_stored {s : RequestManager Rq Tx C} {d : RequestDirection} {r : RequestId}
    {peer : PeerId} {request : RequestMessage Rq Tx} (stored : s.requestStore d r = some (peer, request))
    (other : s.requestStore d.flip r = none) :
    (s.inboundRequestStore r).or (s.outboundRequestStore r) = some (peer, request) := by
  cases d <;> simp_all [requestStore]

theorem getRequestPeerRef_of_stored {s : RequestManager Rq Tx C} {d : RequestDirection} {r : RequestId}
    {peer : PeerId} {request : RequestMessage Rq Tx} (stored : s.requestStore d r = some (peer, request))
    (other : s.requestStore d.flip r = none) : s.getRequestPeerRef r = some peer := by
  simp [getRequestPeerRef, lookup_of_stored stored other]

theorem getRequestValueRef_of_stored {s : RequestManager Rq Tx C} {d : RequestDirection} {r : RequestId}
    {peer : PeerId} {request : RequestMessage Rq Tx} (stored : s.requestStore d r = some (peer, request))
    (other : s.requestStore d.flip r = none) : s.getRequestValueRef r = some request.data := by
  simp [getRequestValueRef, lookup_of_stored stored other]

theorem takeStoredRequest_of_stored {s : RequestManager Rq Tx C} {d : RequestDirection} {r : RequestId}
    {entry : PeerId × RequestMessage Rq Tx} (stored : s.requestStore d r = some entry) :
    s.takeStoredRequest r d = (some entry, (s.takeStoredRequest r d).2) :=
  Prod.ext (by simpa using stored) rfl

theorem takeStoredRequest_withConnections (s : RequestManager Rq Tx C) (connections : C)
    (r : RequestId) (d : RequestDirection) :
    ({ s with connections := connections } : RequestManager Rq Tx C).takeStoredRequest r d =
      ((s.takeStoredRequest r d).1, { (s.takeStoredRequest r d).2 with connections := connections }) := by
  cases d <;> rfl

@[simp] theorem waitingAt_pushBack (s : RequestManager Rq Tx C) (action : BehaviourAction Rq Tx) :
    waitingAt (s.pushBack action) = waitingAt s := rfl

@[simp] theorem waitingAt_storeRequest (s : RequestManager Rq Tx C) (peer : PeerId)
    (requestId : RequestId) (request : RequestMessage Rq Tx) (direction : RequestDirection) :
    waitingAt (s.storeRequest peer requestId request direction) = waitingAt s := by
  cases direction <;> rfl

@[simp] theorem waitingAt_takeStoredRequest (s : RequestManager Rq Tx C) (requestId : RequestId)
    (direction : RequestDirection) :
    waitingAt (s.takeStoredRequest requestId direction).2 = waitingAt s := by
  cases direction <;> rfl

theorem waitingAt_addDialAttempt (s : RequestManager Rq Tx C) (peer : PeerId) (requestId : RequestId)
    (slot : Slot) :
    waitingAt (s.addDialAttempt peer requestId) slot =
      if slot = .connection peer then waitingAt s slot ++ [requestId] else waitingAt s slot := by
  cases slot <;> simp [waitingAt, addDialAttempt, Function.update_apply, eq_comm]
  split <;> simp_all

theorem waitingAt_pushApproval (s : RequestManager Rq Tx C) (requestId : RequestId)
    (direction : RequestDirection) (slot : Slot) :
    waitingAt ({ s with awaitingApproval := s.awaitingApproval ++ [(requestId, direction)] } :
        RequestManager Rq Tx C) slot =
      if slot = .approval direction then waitingAt s slot ++ [requestId] else waitingAt s slot := by
  cases slot with
  | approval d =>
      by_cases same : d = direction
      · simp [waitingAt, same]
      · simp [waitingAt, same, Ne.symm same]
  | _ => rfl

/-- The slot update of the `MissingRule` branch of `on_new_request`. -/
theorem waitingAt_pushPeerRule (s : RequestManager Rq Tx C) (peer : PeerId) (requestId : RequestId)
    (direction : RequestDirection) (slot : Slot) :
    waitingAt ({ s with
      awaitingPeerRule := Function.update s.awaitingPeerRule peer
        (some (Function.update ((s.awaitingPeerRule peer).getD fun _ => none) direction
          (some ((((s.awaitingPeerRule peer).getD fun _ => none) direction).getD [] ++ [requestId])))) } :
        RequestManager Rq Tx C) slot =
      if slot = .peerRule peer direction then waitingAt s slot ++ [requestId] else waitingAt s slot := by
  cases slot with
  | peerRule p d =>
      by_cases same : p = peer
      · subst same
        by_cases hit : d = direction
        · subst hit; cases found : s.awaitingPeerRule p <;> simp [waitingAt, found]
        · cases found : s.awaitingPeerRule p <;> simp [waitingAt, found, hit]
      · simp [waitingAt, same]
  | _ => rfl

end RequestManager

end P2p
