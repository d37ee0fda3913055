import P2p.Release

/-!
The success path of a request that awaits a connection, beside `reachable_release` for the
failure path. Once the peer is connected, `on_peer_connected` hands every request awaiting it to
the connection: with a connection bookkeeping that grants the requests of a connected peer and
keeps it connected (the condition under which its `expect` never fires), the call runs, and each
such request leaves the stores and every waiting list, is granted a connection once, and gets its
one outcome, an `OutboundReady` that carries the message it was stored with.
-/

namespace P2p

open PeerConnectionManager RequestManager

variable {Rq Tx C P Q V : Type} [PeerConnectionManager C]

section Flush

variable {t t' : RequestManager Rq Tx C}

omit [PeerConnectionManager C] in
theorem requestStore_of_take {t₁ : RequestManager Rq Tx C} {r0 : RequestId} {d0 : RequestDirection}
    {entry : Option (PeerId × RequestMessage Rq Tx)} (taken : t.takeStoredRequest r0 d0 = (entry, t₁))
    (d : RequestDirection) (r : RequestId) :
    t₁.requestStore d r = if d = d0 ∧ r = r0 then none else t.requestStore d r := by
  rw [← requestStore_takeStoredRequest, taken]

theorem requestStore_flushConnection {requests : List RequestId} (flushed : t.flushConnection requests = some t')
    (d : RequestDirection) (r : RequestId) :
    t'.requestStore d r = if d = .outbound ∧ r ∈ requests then none else t.requestStore d r := by
  induction requests generalizing t with
  | nil => simp [← Option.some.inj flushed]
  | cons r0 rest ih =>
      unfold RequestManager.flushConnection at flushed
      split at flushed
      · rw [ih flushed, requestStore_of_take ‹_›]
        by_cases outbound : d = .outbound <;> by_cases hit : r = r0 <;> simp [outbound, hit]
      · split at flushed
        · cases flushed
        · rw [ih flushed, requestStore_pushBack, requestStore_withConnections, requestStore_of_take ‹_›]
          by_cases outbound : d = .outbound <;> by_cases hit : r = r0 <;> simp [outbound, hit]

omit [PeerConnectionManager C] in
theorem outboundRequestStore_of_take {t₁ : RequestManager Rq Tx C} {r0 : RequestId}
    {entry : Option (PeerId × RequestMessage Rq Tx)} (taken : t.takeStoredRequest r0 .outbound = (entry, t₁))
    {r : RequestId} {held : PeerId × RequestMessage Rq Tx} (stored : t₁.outboundRequestStore r = some held) :
    t.outboundRequestStore r = some held := by
  have kept := requestStore_of_take taken .outbound r
  simp only [requestStore, true_and] at kept
  split at kept
  · simp_all
  · rwa [← kept]

theorem actions_flushConnection {requests : List RequestId} (flushed : t.flushConnection requests = some t') :
    ∃ pushed, t'.actions = t.actions ++ pushed ∧ ∀ action ∈ pushed, ∃ r0 peer connection request,
      action = .outboundReady r0 peer connection request ∧ t.outboundRequestStore r0 = some (peer, request) := by
  induction requests generalizing t with
  | nil => exact ⟨[], by simp [← Option.some.inj flushed], by simp⟩
  | cons r0 rest ih =>
      unfold RequestManager.flushConnection at flushed
      split at flushed
      · rename_i t₁ taken
        obtain ⟨pushed, actions, ready⟩ := ih flushed
        refine ⟨pushed, by rw [actions, ← actions_takeStoredRequest t r0 .outbound, taken], fun action mem => ?_⟩
        obtain ⟨r1, peer, connection, request, rfl, stored⟩ := ready action mem
        exact ⟨r1, peer, connection, request, rfl, outboundRequestStore_of_take taken stored⟩
      · rename_i peer request t₁ taken
        split at flushed
        · cases flushed
        · rename_i connection connections _
          obtain ⟨pushed, actions, ready⟩ := ih flushed
          have first : t.outboundRequestStore r0 = some (peer, request) := by
            simpa using congrArg Prod.fst taken
          refine ⟨.outboundReady r0 peer connection request :: pushed, ?_, fun action mem => ?_⟩
          · rw [actions, ← actions_takeStoredRequest t r0 .outbound, taken]
            simp [pushBack]
          · rcases List.mem_cons.mp mem with rfl | mem
            · exact ⟨r0, peer, connection, request, rfl, first⟩
            · obtain ⟨r1, peer', connection', request', rfl, stored⟩ := ready action mem
              exact ⟨r1, peer', connection', request', rfl, outboundRequestStore_of_take taken stored⟩

end Flush

section Reachable

variable {fw : Firewall Rq P Q V} {ops : List (Op Rq Tx Q)} {s : RequestManager Rq Tx C}
  {log : List (BehaviourAction Rq Tx)} {peer : PeerId} {r : RequestId}

/-- On a reachable manager, once `peer` is connected and the connection bookkeeping grants its
requests and keeps it connected, `on_peer_connected(peer)` runs, and every request awaiting that
connection leaves the stores and every waiting list, is granted a connection once, and gets its
one outcome: an `OutboundReady` to `peer` with the message it was stored with. -/
theorem reachable_delivers (reach : Reachable fw ops s log)
    (grants : ∀ (c : C) requestId, isConnected c peer = true →
      (addRequest c peer requestId .outbound).1.isSome ∧ isConnected (addRequest c peer requestId .outbound).2 peer = true)
    (connected : isConnected s.connections peer = true) (waiting : r ∈ waitingAt s (.connection peer)) :
    ∃ (s' : RequestManager Rq Tx C) (log' : List (BehaviourAction Rq Tx)),
      Reachable fw (ops ++ [.onPeerConnected peer]) s' log' ∧ (∀ d, s'.requestStore d r = none) ∧
        (∀ slot, r ∉ waitingAt s' slot) ∧ Granted s' r 1 ∧
        ∃ request connection, s.outboundRequestStore r = some (peer, request) ∧
          outcomes log' r = [.outboundReady r peer connection request] := by
  have inv := reach.invariant
  obtain ⟨request, stored⟩ := inv.wellFormed.connection_stored peer r waiting
  rcases found : s.awaitingConnection peer with _ | requests
  · simp [waitingAt, found] at waiting
  have mem : r ∈ requests := by simpa [waitingAt, found] using waiting
  obtain ⟨s', flushed⟩ := Option.isSome_iff_exists.mp (flushConnection_isSome (fun c requestId => grants c requestId)
    (s := { s with awaitingConnection := Function.update s.awaitingConnection peer none }) connected
    fun r => (inv r).takeConnection found)
  have exec : (Op.onPeerConnected peer : Op Rq Tx Q).exec fw s = some s' := by
    simpa [Op.exec, onPeerConnected, connected, found] using flushed
  obtain ⟨pushed, actions, ready⟩ := actions_flushConnection flushed
  have reach' := reach.step (fun _ admits => by cases admits) exec
  rw [show (Op.onPeerConnected peer : Op Rq Tx Q).decides = true from rfl, if_pos rfl,
    queued_of_actions (s := s) actions] at reach'
  have gone : ∀ d, s'.requestStore d r = none := fun d => by
    rw [requestStore_flushConnection flushed]
    cases d
    · exact (inv.wellFormed.flip_none (d := .outbound) stored)
    · simp [mem]
  obtain ⟨a, post, admitted, -, -, ⟨rfl, -⟩, -⟩ := (inv r).waiting_of_mem waiting
  have silent : outcomes log r = [] := ((inv r).outcomes_of_admitted admitted).2.1.mpr ⟨.outbound, _, stored⟩
  have tracked := reach'.invariant r
  unfold Tracked at tracked
  rw [admissionIn_append, admitted] at tracked
  rcases tracked with ⟨kept, -⟩ | ⟨-, nowhere, action, single, reports, -, granted⟩
  · simp [gone] at kept
  have fromCall : outcomes pushed r = [action] := by rwa [outcomes_append, silent, List.nil_append] at single
  obtain ⟨r1, peer', connection, request', rfl, held⟩ :=
    ready action (List.mem_filter.mp (fromCall ▸ List.mem_singleton_self _)).1
  obtain ⟨rfl, rfl, -⟩ : r1 = r ∧ peer' = a.peer ∧ RequestDirection.outbound = a.direction := by
    simpa [BehaviourAction.outcome] using reports
  obtain rfl : request' = request := by simp_all
  exact ⟨s', _, reach', gone, fun slot => by simpa [occurrences, List.count_eq_zero] using nowhere (.waiting slot),
    by simpa [BehaviourAction.isReady] using granted, request', connection, stored, single⟩

end Reachable

theorem dialled_request_delivered :
    ∃ (s : RequestManager Nat Unit (Recorded Connections)) (log : List (BehaviourAction Nat Unit)),
      Reachable sampleFirewall [.onNewRequest 7 1 ⟨5, ()⟩ .approved .outbound, .onConnectionEstablished 7 3] s log ∧
      (∀ (c : Recorded Connections) requestId, isConnected c 7 = true →
        (addRequest c 7 requestId .outbound).1.isSome ∧ isConnected (addRequest c 7 requestId .outbound).2 7 = true) ∧
      isConnected s.connections 7 = true ∧ 1 ∈ waitingAt s (.connection 7) ∧
      ∃ (s' : RequestManager Nat Unit (Recorded Connections)) (log' : List (BehaviourAction Nat Unit)),
        Reachable sampleFirewall
          ([.onNewRequest 7 1 ⟨5, ()⟩ .approved .outbound, .onConnectionEstablished 7 3] ++ [.onPeerConnected 7]) s' log' ∧
        (∀ d, s'.requestStore d 1 = none) ∧ (∀ slot, 1 ∉ waitingAt s' slot) ∧ Granted s' 1 1 ∧
        ∃ request connection, s.outboundRequestStore 1 = some (7, request) ∧
          outcomes log' 1 = [.outboundReady 1 7 connection request] := by
  have admitted : Reachable sampleFirewall [.onNewRequest 7 1 ⟨5, ()⟩ .approved .outbound] _ _ :=
    .step (C := Recorded Connections) .new (fun _ admits => by cases admits; decide) rfl
  have reach : Reachable sampleFirewall
      ([.onNewRequest 7 1 ⟨5, ()⟩ .approved .outbound] ++ [.onConnectionEstablished 7 3]) _ _ :=
    .step admitted (fun _ admits => by cases admits) rfl
  have grants : ∀ (c : Recorded Connections) requestId, isConnected c 7 = true →
      (addRequest c 7 requestId .outbound).1.isSome ∧ isConnected (addRequest c 7 requestId .outbound).2 7 = true :=
    fun c requestId connected => Connections.addRequest_of_connected c.inner 7 requestId .outbound connected
  exact ⟨_, _, reach, grants, rfl, by decide, reachable_delivers reach grants rfl (by decide)⟩

end P2p
