import P2p.Connections

/-!
The well-formedness of every reachable state, read off the invariant: the two stores hold disjoint
ids, an id is stored iff it waits, it then waits exactly once, and it waits under its peer and in
the slot of its direction. With it, the `expect` of `on_peer_connected` never fires, provided
`add_request` grants the requests of a connected peer and leaves it connected, as the spec's
connection bookkeeping does; the grant alone is not enough (`Fickle`).
-/

namespace P2p

open PeerConnectionManager RequestManager

variable {Rq Tx C P Q V : Type}

/-- The invariants of the spec's section 8 on the stores and the waiting lists. -/
structure WellFormed (s : RequestManager Rq Tx C) : Prop where
  disjoint : ∀ r, s.inboundRequestStore r = none ∨ s.outboundRequestStore r = none
  stored_iff_waiting : ∀ r, (∃ d entry, s.requestStore d r = some entry) ↔ ∃ slot, r ∈ waitingAt s slot
  waiting_once : ∀ r slot, r ∈ waitingAt s slot →
    ∀ other, (waitingAt s other).count r = if other = slot then 1 else 0
  peerRule_stored : ∀ peer d r, r ∈ waitingAt s (.peerRule peer d) →
    ∃ request, s.requestStore d r = some (peer, request)
  approval_stored : ∀ r d, (r, d) ∈ s.awaitingApproval → ∃ peer request, s.requestStore d r = some (peer, request)
  connection_stored : ∀ peer r, r ∈ waitingAt s (.connection peer) →
    ∃ request, s.outboundRequestStore r = some (peer, request)

theorem mem_waitingAt_approval {s : RequestManager Rq Tx C} {r : RequestId} {d : RequestDirection} :
    r ∈ waitingAt s (.approval d) ↔ (r, d) ∈ s.awaitingApproval := by
  simp [waitingAt]

section Reachable

variable [PeerConnectionManager C] {fw : Firewall Rq P Q V} {ops : List (Op Rq Tx Q)}
  {s : RequestManager Rq Tx C} {log : List (BehaviourAction Rq Tx)}

theorem Tracked.waiting_of_mem {r : RequestId} {slot : Slot} (tracked : Tracked fw ops s log [] r)
    (mem : r ∈ waitingAt s slot) :
    ∃ a post, admissionIn r ops = some (a, post) ∧ s.requestStore a.direction r = some (a.peer, a.request) ∧
      s.requestStore a.direction.flip r = none ∧ slot.fits a.peer a.direction ∧
      SlotHistory fw r a post slot ∧ OnlyAt s [] r (.waiting slot) := by
  have held : occurrences s [] r (.waiting slot) ≠ 0 :=
    Nat.pos_iff_ne_zero.mp (List.count_pos_iff.mpr mem)
  unfold Tracked at tracked
  cases admitted : admissionIn r ops with
  | none => simp only [admitted] at tracked; exact absurd (tracked.2.1 _) held
  | some entry =>
      obtain ⟨a, post⟩ := entry
      simp only [admitted] at tracked
      rcases tracked with ⟨stored, other, -, -, place, fits, only, history⟩ | ⟨-, nowhere, -⟩
      · obtain rfl : place = .waiting slot := by
          by_contra elsewhere
          exact held (by rw [only]; simp [Ne.symm elsewhere])
        exact ⟨a, post, rfl, stored, other, fits, history, only⟩
      · exact absurd (nowhere _) held

theorem Tracked.waiting_of_stored {r : RequestId} {d : RequestDirection}
    {entry : PeerId × RequestMessage Rq Tx} (tracked : Tracked fw ops s log [] r)
    (stored : s.requestStore d r = some entry) : ∃ slot, r ∈ waitingAt s slot := by
  unfold Tracked at tracked
  split at tracked
  · simp [tracked.1 d] at stored
  · rcases tracked with ⟨-, -, -, -, place, -, only, -⟩ | ⟨gone, -⟩
    · cases place with
      | waiting slot =>
          have once := only (.waiting slot)
          simp only [occurrences, if_true] at once
          exact ⟨slot, List.count_pos_iff.mp (by omega)⟩
      | taken origin => simpa [occurrences] using only (.taken origin)
    · simp [gone d] at stored

theorem Invariant.wellFormed (inv : Invariant fw ops s log) : WellFormed s where
  disjoint r := by
    have tracked := inv r
    unfold Tracked at tracked
    split at tracked
    · exact .inl (tracked.1 .inbound)
    · rcases tracked with ⟨-, other, -⟩ | ⟨gone, -⟩
      · rename_i a _ _
        cases direction : a.direction
        · exact .inr (by simpa [direction, requestStore] using other)
        · exact .inl (by simpa [direction, requestStore] using other)
      · exact .inl (gone .inbound)
  stored_iff_waiting r := by
    constructor
    · rintro ⟨d, entry, stored⟩
      exact (inv r).waiting_of_stored stored
    · rintro ⟨slot, mem⟩
      obtain ⟨a, -, -, stored, -⟩ := (inv r).waiting_of_mem mem
      exact ⟨_, _, stored⟩
  waiting_once r slot mem other := by
    obtain ⟨-, -, -, -, -, -, -, only⟩ := (inv r).waiting_of_mem mem
    simpa [occurrences] using only (.waiting other)
  peerRule_stored peer d r mem := by
    obtain ⟨a, -, -, stored, -, ⟨rfl, rfl⟩, -⟩ := (inv r).waiting_of_mem mem
    exact ⟨_, stored⟩
  approval_stored r d mem := by
    obtain ⟨a, -, -, stored, -, rfl, -⟩ := (inv r).waiting_of_mem (mem_waitingAt_approval.mpr mem)
    exact ⟨_, _, stored⟩
  connection_stored peer r mem := by
    obtain ⟨a, -, -, stored, -, ⟨rfl, outbound⟩, -⟩ := (inv r).waiting_of_mem mem
    exact ⟨_, by simpa [outbound, requestStore] using stored⟩

theorem flushConnection_isSome {peer : PeerId}
    (grants : ∀ (c : C) requestId, isConnected c peer = true →
      (addRequest c peer requestId .outbound).1.isSome ∧ isConnected (addRequest c peer requestId .outbound).2 peer = true) :
    ∀ {requests : List RequestId} {s : RequestManager Rq Tx C} {log : List (BehaviourAction Rq Tx)},
      isConnected s.connections peer = true →
      (∀ r, Tracked fw ops s log (requests.map (·, .connection peer)) r) → (s.flushConnection requests).isSome
  | [], _, _, _, _ => rfl
  | r0 :: rest, s, log, connected, tracked => by
      obtain ⟨a, post, admitted, inHand⟩ := (tracked r0).pop
      obtain ⟨rfl, outbound⟩ := inHand.2.2.2.2.1
      have stored : s.requestStore .outbound r0 = some (a.peer, a.request) := outbound ▸ inHand.1
      rw [flushConnection_cons_of_stored stored]
      obtain ⟨granted, still⟩ := grants s.connections r0 connected
      rcases added : addRequest s.connections a.peer r0 .outbound with ⟨_ | connection, connections⟩
      · simp [added] at granted
      · have next : Advances fw ops s ({ (s.takeStoredRequest r0 .outbound).2 with connections := connections }.pushBack
            (.outboundReady r0 a.peer connection a.request)) log (rest.map (·, .connection a.peer)) :=
          Tracked.handle tracked fun a' post' admitted' inHand' => by
            rw [admitted, Option.some.injEq, Prod.mk.injEq] at admitted'
            obtain ⟨rfl, rfl⟩ := admitted'
            obtain ⟨settled, touches⟩ := flush_inHand inHand' added
            exact ⟨_, touches, .inr settled⟩
        obtain ⟨_, _, tracked'⟩ := next
        exact flushConnection_isSome grants (by simpa [added] using still) tracked'

theorem reachable_wellFormed (reach : Reachable fw ops s log) :
    WellFormed s ∧
      ((∀ (c : C) peer requestId, isConnected c peer = true →
          (addRequest c peer requestId .outbound).1.isSome ∧
            isConnected (addRequest c peer requestId .outbound).2 peer = true) →
        ∀ peer, (s.onPeerConnected peer).isSome) := by
  have inv := reach.invariant
  refine ⟨inv.wellFormed, fun grants peer => ?_⟩
  unfold RequestManager.onPeerConnected
  split
  · rfl
  · rename_i connected
    split
    · rfl
    · rename_i requests found
      exact flushConnection_isSome (fun c requestId => grants c peer requestId) (by simpa using connected)
        fun r => (inv r).takeConnection found

end Reachable

theorem busy_run_wellFormed :
    ∃ (s : RequestManager Nat Unit Connections) (log : List (BehaviourAction Nat Unit)),
      Reachable sampleFirewall
        [.onConnectionEstablished 7 0, .onNewRequest 7 1 ⟨5, ()⟩ .approved .inbound,
          .onNewRequest 8 2 ⟨5, ()⟩ .approved .outbound, .onNewRequest 9 3 ⟨5, ()⟩ .missingRule .inbound,
          .onNewRequest 7 4 ⟨5, ()⟩ .missingApproval .outbound, .onNewRequest 7 5 ⟨5, ()⟩ .rejected .inbound,
          .onConnectionEstablished 8 1] s log ∧
      2 ∈ waitingAt s (.connection 8) ∧ 3 ∈ waitingAt s (.peerRule 9 .inbound) ∧
      4 ∈ waitingAt s (.approval .outbound) ∧ isConnected s.connections 8 = true ∧
      WellFormed s ∧ ∀ peer, (s.onPeerConnected peer).isSome := by
  have reach : Reachable sampleFirewall
      [.onConnectionEstablished 7 0, .onNewRequest 7 1 ⟨5, ()⟩ .approved .inbound,
        .onNewRequest 8 2 ⟨5, ()⟩ .approved .outbound, .onNewRequest 9 3 ⟨5, ()⟩ .missingRule .inbound,
        .onNewRequest 7 4 ⟨5, ()⟩ .missingApproval .outbound, .onNewRequest 7 5 ⟨5, ()⟩ .rejected .inbound,
        .onConnectionEstablished 8 1] _ _ :=
    .step (.step (.step (.step (.step (.step (.step (C := Connections) .new
      (fun _ admits => by cases admits)
      (show Op.exec sampleFirewall _ (.onConnectionEstablished 7 0) = some _ from rfl))
      (fun _ admits => by cases admits; decide)
      (show Op.exec sampleFirewall _ (.onNewRequest 7 1 ⟨5, ()⟩ .approved .inbound) = some _ from rfl))
      (fun _ admits => by cases admits; decide)
      (show Op.exec sampleFirewall _ (.onNewRequest 8 2 ⟨5, ()⟩ .approved .outbound) = some _ from rfl))
      (fun _ admits => by cases admits; decide)
      (show Op.exec sampleFirewall _ (.onNewRequest 9 3 ⟨5, ()⟩ .missingRule .inbound) = some _ from rfl))
      (fun _ admits => by cases admits; decide)
      (show Op.exec sampleFirewall _ (.onNewRequest 7 4 ⟨5, ()⟩ .missingApproval .outbound) = some _ from rfl))
      (fun _ admits => by cases admits; decide)
      (show Op.exec sampleFirewall _ (.onNewRequest 7 5 ⟨5, ()⟩ .rejected .inbound) = some _ from rfl))
      (fun _ admits => by cases admits)
      (show Op.exec sampleFirewall _ (.onConnectionEstablished 8 1) = some _ from rfl)
  have wf := reachable_wellFormed reach
  exact ⟨_, _, reach, by decide, by decide, by decide, rfl, wf.1,
    wf.2 fun c peer requestId connected => Connections.addRequest_of_connected c peer requestId .outbound connected⟩

/-- A connection manager whose `add_request` grants a connected peer's request and then forgets the
peer. -/
structure Fickle where
  connected : List PeerId

instance : PeerConnectionManager Fickle where
  new := ⟨[]⟩
  getConnectedPeers c := c.connected
  getConnections c peer := if peer ∈ c.connected then [0] else []
  isConnected c peer := decide (peer ∈ c.connected)
  addConnection c peer _ := ⟨c.connected ++ [peer]⟩
  removeConnection c _ _ := (none, c)
  removeAllConnections c _ := (none, c)
  addRequest c peer _ _ := if peer ∈ c.connected then (some 0, ⟨c.connected.erase peer⟩) else (none, c)
  removeRequest c _ _ _ := c

/-- `add_request` returning `Some` whenever the peer is connected does not keep the `expect` of
`on_peer_connected` from firing: two requests await a dial, the peer connects, the first request
takes the connection and the second finds none. -/
theorem onPeerConnected_panics_when_add_request_disconnects :
    (∀ (c : Fickle) peer requestId, isConnected c peer = true →
      (addRequest c peer requestId .outbound).1.isSome) ∧
    ∃ (ops : List (Op Nat Unit Nat)) (s : RequestManager Nat Unit Fickle) (log : List (BehaviourAction Nat Unit)),
      Reachable sampleFirewall ops s log ∧
      s.onPeerConnected 7 = none := by
  refine ⟨fun c peer _ connected => ?_, _, _, _,
    .step (.step (.step .new (fun _ admits => by cases admits; decide)
      (show Op.exec sampleFirewall _ (.onNewRequest 7 1 ⟨5, ()⟩ .approved .outbound) = some _ from rfl))
      (fun _ admits => by cases admits; decide)
      (show Op.exec sampleFirewall _ (.onNewRequest 7 2 ⟨5, ()⟩ .approved .outbound) = some _ from rfl))
      (fun _ admits => by cases admits)
      (show Op.exec sampleFirewall _ (.onConnectionEstablished 7 0) = some _ from rfl), rfl⟩
  simp only [isConnected, decide_eq_true_eq] at connected
  simp [addRequest, connected]

end P2p
