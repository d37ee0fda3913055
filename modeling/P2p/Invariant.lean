import P2p.Loops

/-!
The invariant of the request manager over whole runs. Each call keeps every request tracked
(`invariant_step`), so every state reachable from `RequestManager::new()` satisfies `Invariant`
(`Reachable.invariant`). The calls that decide no request change no store, no slot and no grant
(`Frame`); the six deciding calls are taken one by one, from the step and loop lemmas.
-/

namespace P2p

open PeerConnectionManager RequestManager

variable {Rq Tx C P Q V : Type} [PeerConnectionManager C] {fw : Firewall Rq P Q V}
  {ops : List (Op Rq Tx Q)}

/-- `s'` holds every request as `s` does. -/
structure Frame (s s' : RequestManager Rq Tx C) : Prop where
  store : s'.requestStore = s.requestStore
  slots : waitingAt s' = waitingAt s
  granted : ∀ granted, GrantCounter granted → ∀ r, granted s'.connections r = granted s.connections r

namespace Frame

variable {s s' s'' : RequestManager Rq Tx C}

theorem refl (s : RequestManager Rq Tx C) : Frame s s := ⟨rfl, rfl, fun _ _ _ => rfl⟩

theorem trans (first : Frame s s') (second : Frame s' s'') : Frame s s'' :=
  ⟨second.store.trans first.store, second.slots.trans first.slots,
    fun g counter r => (second.granted g counter r).trans (first.granted g counter r)⟩

theorem foldl {α : Type} (step : RequestManager Rq Tx C → α → RequestManager Rq Tx C)
    (frame : ∀ s x, Frame s (step s x)) (items : List α) (s : RequestManager Rq Tx C) :
    Frame s (items.foldl step s) := by
  induction items generalizing s with
  | nil => exact refl s
  | cons x items ih => exact (frame s x).trans (ih _)

theorem tracked (frame : Frame s s') {log : List (BehaviourAction Rq Tx)} {taken : List (RequestId × Slot)}
    {r : RequestId} (tracked : Tracked fw ops s log taken r) : Tracked fw ops s' log taken r :=
  tracked.congr ⟨fun d => by rw [frame.store], fun place => by cases place <;> simp [occurrences, frame.slots],
    rfl, fun g counter => frame.granted g counter r⟩

end Frame

theorem frame_onConnectionEstablished (s : RequestManager Rq Tx C) (peer : PeerId)
    (connection : ConnectionId) : Frame s (s.onConnectionEstablished peer connection) :=
  ⟨rfl, rfl, fun _ counter r => counter.addConnection _ _ _ r⟩

theorem frame_onConnectionClosed (s : RequestManager Rq Tx C) (peer : PeerId) (connection : ConnectionId) :
    Frame s (s.onConnectionClosed peer connection) := by
  unfold onConnectionClosed
  rcases closed : removeConnection s.connections peer connection with ⟨_ | _, connections⟩ <;>
    exact ⟨rfl, rfl, fun _ counter r => by simpa [closed] using counter.removeConnection s.connections peer connection r⟩

theorem frame_onPeerDisconnected (s : RequestManager Rq Tx C) (peer : PeerId) :
    Frame s (s.onPeerDisconnected peer) := by
  unfold onPeerDisconnected
  rcases closed : removeAllConnections s.connections peer with ⟨_ | connectionIds, connections⟩
  all_goals
    have removed : Frame s { s with connections := connections } :=
      ⟨rfl, rfl, fun _ counter r => by simpa [closed] using counter.removeAllConnections s.connections peer r⟩
  · exact removed
  · exact removed.trans (Frame.foldl _ (fun s c => frame_onConnectionClosed s peer c) _ _)

theorem frame_onResponse (s : RequestManager Rq Tx C) (connection : ConnectionId) (requestId : RequestId)
    (direction : RequestDirection) (failure : Option (BehaviourAction Rq Tx)) :
    Frame s (s.onResponse connection requestId direction failure) := by
  unfold onResponse
  cases failure <;> exact ⟨rfl, rfl, fun _ counter r => counter.removeRequest _ _ _ _ r⟩

omit [PeerConnectionManager C] in
/-- `add_pending_rule_requests` only adds empty lists. -/
theorem waitingAt_addPendingRuleRequests (s : RequestManager Rq Tx C) (peer : PeerId) (dir : RuleDirection) :
    waitingAt (s.addPendingRuleRequests peer dir) = waitingAt s := by
  have filled : ∀ (awaitRule : RequestDirection → Option (List RequestId)) (d0 d : RequestDirection) (cover : Bool),
      ((if cover && (awaitRule d0).isNone then Function.update awaitRule d0 (some []) else awaitRule) d).getD [] =
        (awaitRule d).getD [] := by
    intro awaitRule d0 d cover
    split
    · rename_i empty
      by_cases same : d = d0
      · subst same; simp_all
      · simp [same]
    · rfl
  funext slot
  cases slot with
  | peerRule p d =>
      by_cases same : p = peer
      · subst same
        simp only [addPendingRuleRequests, waitingAt, Function.update_same, Option.some_bind, filled]
        cases s.awaitingPeerRule p <;> rfl
      · simp [addPendingRuleRequests, waitingAt, same]
  | _ => rfl

theorem frame_addPendingRuleRequests (s : RequestManager Rq Tx C) (peer : PeerId) (dir : RuleDirection) :
    Frame s (s.addPendingRuleRequests peer dir) :=
  ⟨rfl, waitingAt_addPendingRuleRequests s peer dir, fun _ _ _ => rfl⟩

theorem frame_takeNextAction (s : RequestManager Rq Tx C) : Frame s s.takeNextAction.2 := by
  unfold takeNextAction
  split <;> exact ⟨rfl, rfl, fun _ _ _ => rfl⟩

section Decide

variable {s : RequestManager Rq Tx C} {log : List (BehaviourAction Rq Tx)} {r0 : RequestId}

/-- `on_new_request` settles the request it admits at once, or puts it in the slot its status
names; it touches no other request. -/
theorem onNewRequest_admits (fw : Firewall Rq P Q V) (a : Admission Rq Tx) (unseen : ∀ d, s.requestStore d r0 = none)
    (nowhere : Nowhere s [] r0) (silent : outcomes log r0 = []) (granted : Granted s r0 0) :
    ∃ pushed, Touches r0 s (s.onNewRequest a.peer r0 a.request a.status a.direction) pushed ∧
      (Waiting fw (s.onNewRequest a.peer r0 a.request a.status a.direction) (log ++ pushed) [] r0 a [] ∨
        Settled fw (s.onNewRequest a.peer r0 a.request a.status a.direction) (log ++ pushed) [] r0 a []) := by
  obtain ⟨peer, request, status, d⟩ := a
  have kept : ∀ slot, (waitingAt s slot).count r0 = (waitingAt s slot).count r0 := fun _ => rfl
  cases status with
  | missingRule =>
      simp only [RequestManager.onNewRequest]
      have inHand : InHand fw (s.storeRequest peer r0 request d) log [] r0 ⟨peer, request, .missingRule, d⟩ []
          (.peerRule peer d) := InHand.store s _ _ unseen nowhere silent granted ⟨rfl, rfl⟩ rfl
      refine ⟨[], (touches_storeRequest s peer r0 request d).trans (touches_pushPeerRule _ peer r0 d), .inl ?_⟩
      exact inHand.park (.peerRule peer d) ⟨rfl, rfl⟩ rfl (fun _ => rfl)
        (fun other => by rw [waitingAt_pushPeerRule]; split <;> simp_all) rfl
        (fun g counter => by simpa using granted g counter)
  | missingApproval =>
      simp only [RequestManager.onNewRequest]
      have inHand : InHand fw (s.storeRequest peer r0 request d) log [] r0 ⟨peer, request, .missingApproval, d⟩ []
          (.approval d) := InHand.store s _ _ unseen nowhere silent granted rfl (.inl rfl)
      refine ⟨[], (touches_storeRequest s peer r0 request d).trans (touches_pushApproval _ r0 d), .inl ?_⟩
      exact inHand.park (.approval d) rfl (.inl rfl) (fun _ => rfl)
        (fun other => by rw [waitingAt_pushApproval]; split <;> simp_all) rfl
        (fun g counter => by simpa using granted g counter)
  | approved =>
      have added := fun granted (counter : GrantCounter granted) => counter.addRequest s.connections peer r0 d r0
      rcases grant : addRequest s.connections peer r0 d with ⟨_ | connection, connections⟩
      · have base : Touches r0 s { s with connections := connections } [] :=
          touches_addRequest s peer r0 d (by simp [grant])
        have none : Granted { s with connections := connections } r0 0 := fun g counter => by
          simpa [grant, granted g counter] using added g counter
        simp only [RequestManager.onNewRequest, grant]
        cases d with
        | inbound =>
            have reports : (BehaviourAction.inboundFailure peer r0 .connectionClosed : BehaviourAction Rq Tx).outcome =
                some (r0, peer, .inbound) := rfl
            refine ⟨_, base.trans (touches_pushBack _ _ (settles_of_outcome reports)), .inr ?_⟩
            exact settled_of_nowhere silent nowhere unseen kept reports (by simp [BehaviourAction.isReady])
              (by simpa [BehaviourAction.isReady] using none)
        | outbound =>
            have inHand : InHand fw (({ s with connections := connections } : RequestManager Rq Tx C).storeRequest
                peer r0 request .outbound) log [] r0 ⟨peer, request, .approved, .outbound⟩ [] (.connection peer) :=
              InHand.store { s with connections := connections } ⟨peer, request, .approved, .outbound⟩ (.connection peer)
                unseen nowhere silent none ⟨rfl, rfl⟩ (.inl rfl)
            refine ⟨_, (base.trans (touches_storeRequest _ peer r0 request .outbound)).trans
              (touches_addDialAttempt _ peer r0), .inl ?_⟩
            exact inHand.park (.connection peer) ⟨rfl, rfl⟩ (.inl rfl) (fun _ => rfl)
              (fun other => by rw [waitingAt_addDialAttempt]; split <;> simp_all)
              (by simp [outcomes, BehaviourAction.settles, BehaviourAction.outcome])
              (fun g counter => by simpa using none g counter)
      · have reports := readyAction_outcome d r0 peer connection request
        simp only [onNewRequest, grant, addReadyRequest_eq]
        refine ⟨_, (touches_addRequest s peer r0 d (by simp [grant])).trans
          (touches_pushBack _ _ (settles_of_outcome reports)), .inr ?_⟩
        exact settled_of_nowhere silent nowhere unseen kept reports (fun _ => .inl rfl)
          (fun g counter => by simpa [grant, granted g counter] using added g counter)
  | rejected =>
      simp only [RequestManager.onNewRequest]
      refine ⟨_, touches_pushBack s _ (settles_of_outcome (notPermitted_outcome d peer r0)), .inr ?_⟩
      exact settled_of_nowhere silent nowhere unseen kept (notPermitted_outcome d peer r0) (by simp)
        (by simpa using granted)

omit [PeerConnectionManager C] in
theorem admissionIn_eq_none {r : RequestId} {ops : List (Op Rq Tx Q)} (fresh : r ∉ admittedIds ops) :
    admissionIn r ops = none := by
  induction ops with
  | nil => rfl
  | cons op ops ih =>
      have later : r ∉ admittedIds ops := fun mem => fresh (by
        obtain ⟨found, mem, admits⟩ := List.mem_filterMap.mp mem
        exact List.mem_filterMap.mpr ⟨found, .tail _ mem, admits⟩)
      cases op with
      | onNewRequest peer requestId request status d =>
          have other : requestId ≠ r := fun same => fresh (by simp [admittedIds, Op.admits, same])
          simp [admissionIn, Op.admission, other, ih later]
      | _ => exact ih later

theorem Advances.onNewRequest {peer : PeerId} {request : RequestMessage Rq Tx} {status : ApprovalStatus}
    {d : RequestDirection} (tracked : ∀ r, Tracked fw ops s log [] r) (fresh : admissionIn r0 ops = none) :
    Advances fw (ops ++ [.onNewRequest peer r0 request status d]) s (s.onNewRequest peer r0 request status d)
      log [] := by
  have unknown := tracked r0
  unfold Tracked at unknown
  rw [fresh] at unknown
  obtain ⟨unseen, nowhere, silent, granted⟩ := unknown
  obtain ⟨pushed, touches, fate⟩ :=
    onNewRequest_admits fw ⟨peer, request, status, d⟩ unseen nowhere silent granted
  refine ⟨pushed, touches.actions, fun r => ?_⟩
  by_cases same : r = r0
  · subst same
    have admitted : admissionIn r (ops ++ [.onNewRequest peer r request status d]) =
        some (⟨peer, request, status, d⟩, []) := by
      rw [admissionIn_append, fresh]; simp [Op.admission]
    unfold Tracked
    rw [admitted]
    exact fate
  · exact ((tracked r).extend (by simp [Op.admission, Ne.symm same])).congr (touches.agree same fun _ => rfl)

theorem Advances.onPeerConnected {s' : RequestManager Rq Tx C} {peer : PeerId}
    (tracked : ∀ r, Tracked fw ops s log [] r) (connected : s.onPeerConnected peer = some s') :
    Advances fw ops s s' log [] := by
  unfold RequestManager.onPeerConnected at connected
  split at connected
  · cases connected; exact .refl tracked
  · split at connected
    · cases connected; exact .refl tracked
    · rename_i requests found
      exact (Advances.quiet rfl fun r => (tracked r).takeConnection found).trans
        fun _ tracked' => Advances.flushConnection tracked' connected

theorem Advances.onDialFailure {peer : PeerId} (tracked : ∀ r, Tracked fw ops s log [] r) :
    Advances fw ops s (s.onDialFailure peer) log [] := by
  unfold RequestManager.onDialFailure
  split
  · exact .refl tracked
  · rename_i requests found
    refine (Advances.quiet rfl fun r => (tracked r).takeConnection found).trans fun _ tracked' =>
      Advances.foldl (·, .connection peer) (failDial peer) (fun r0 _ s log rest tracked => ?_)
        (by simpa using tracked')
    exact Tracked.handle tracked fun _ _ _ inHand =>
      ⟨_, touches_take_push s r0 .outbound
        (show (BehaviourAction.outboundFailure peer r0 .dialFailure : BehaviourAction Rq Tx).outcome =
          some (r0, peer, .outbound) from rfl), .inr (failDial_inHand inHand)⟩

omit [PeerConnectionManager C] in
theorem covers_of_mem_ruleRequests {awaitRule : RequestDirection → Option (List RequestId)}
    {dir : RuleDirection} {r : RequestId} {d : RequestDirection}
    (mem : (r, d) ∈ ruleRequests (coveredRules awaitRule dir)) : dir.covers d = true := by
  by_contra uncovered
  cases d <;> simp_all [ruleRequests, coveredRules]

/-- A turn of the `filter_map` closure of `on_peer_rule` handles the request it takes from the hand,
letting it through only on the firewall's grounds. -/
theorem Advances.applyRule {peer : PeerId} {rules : FirewallRules Q} {dir : RuleDirection}
    {awaitRule : RequestDirection → Option (List RequestId)} {entry : RequestId × RequestDirection}
    (mem : entry ∈ ruleRequests (coveredRules awaitRule dir)) {rest : List (RequestId × Slot)}
    (tracked : ∀ r, Tracked fw (ops ++ [.onPeerRule peer rules dir]) s log (ruleSlot peer entry :: rest) r) :
    Advances fw (ops ++ [.onPeerRule peer rules dir]) s (s.applyRule fw rules entry.1 entry.2).2 log rest := by
  obtain ⟨r0, d⟩ := entry
  have covered := covers_of_mem_ruleRequests mem
  refine Tracked.handle tracked fun a post admitted inHand => ?_
  obtain ⟨rfl, rfl⟩ := inHand.2.2.2.2.1
  obtain ⟨before, -, rfl⟩ := admissionIn_append_of_none admitted rfl
  have rule := inHand.2.2.2.2.2.1
  exact applyRule_inHand rules inHand (fun ask => .inr ⟨rule, before, rules, dir, [], rfl, covered, ask⟩)
    fun q permission permits => .inr (.inl ⟨rule, rules, dir, q, by simp, covered, permission, permits⟩)

theorem Advances.onPeerRule {peer : PeerId} {rules : FirewallRules Q} {dir : RuleDirection}
    (tracked : ∀ r, Tracked fw (ops ++ [.onPeerRule peer rules dir]) s log [] r) :
    Advances fw (ops ++ [.onPeerRule peer rules dir]) s (s.onPeerRule fw peer rules dir).2 log [] := by
  rw [onPeerRule_eq]
  rcases found : s.awaitingPeerRule peer with _ | awaitRule
  · exact .refl tracked
  · simp only [applyRules_snd]
    have gone : ∀ requests : List (RequestId × RequestDirection),
        (requests.foldl (fun (s : RequestManager Rq Tx C) entry => (s.applyRule fw rules entry.1 entry.2).2)
          { s with awaitingPeerRule := Function.update s.awaitingPeerRule peer none }).awaitingPeerRule peer = none :=
      fun requests => by
        rw [awaitingPeerRule_foldl (fun (s : RequestManager Rq Tx C) (entry : RequestId × RequestDirection) =>
          (s.applyRule fw rules entry.1 entry.2).2) fun s entry => awaitingPeerRule_applyRule fw rules s entry.1 entry.2]
        simp
    exact (Advances.foldl (ruleSlot peer) _ (fun _ mem _ _ _ tracked => Advances.applyRule mem tracked)
      fun r => (tracked r).takePeerRule found dir).trans
        fun _ tracked' => .quiet (actions_restorePeerRule _ _ _) fun r => (tracked' r).restore (gone _)

omit [PeerConnectionManager C] in
theorem awaitingPeerRule_rejectAwaiting (peer : PeerId) (d : RequestDirection) (s : RequestManager Rq Tx C)
    (r : RequestId) : (rejectAwaiting peer d s r).awaitingPeerRule = s.awaitingPeerRule := by
  cases d <;> rfl

/-- A turn of either loop of `on_no_peer_rule` rejects the request it handles. -/
theorem Advances.reject {peer : PeerId} {d : RequestDirection} {s : RequestManager Rq Tx C}
    {rest : List (RequestId × Slot)} (tracked : ∀ r, Tracked fw ops s log ((r0, .peerRule peer d) :: rest) r) :
    Advances fw ops s (rejectAwaiting peer d s r0) log rest :=
  Tracked.handle tracked fun _ _ _ inHand =>
    ⟨_, touches_take_push s r0 d (notPermitted_outcome d peer r0), .inr (rejectAwaiting_inHand inHand)⟩

theorem Advances.onNoPeerRule {peer : PeerId} {dir : RuleDirection} (tracked : ∀ r, Tracked fw ops s log [] r) :
    Advances fw ops s (s.onNoPeerRule peer dir) log [] := by
  rw [onNoPeerRule_eq]
  rcases found : s.awaitingPeerRule peer with _ | awaitRule
  · exact .refl tracked
  · dsimp only
    have start := fun r => (tracked r).takePeerRule found dir
    rw [ruleRequests_map_ruleSlot peer (coveredRules awaitRule dir), List.append_assoc] at start
    have frame : ∀ d (s : RequestManager Rq Tx C) r, (rejectAwaiting peer d s r).awaitingPeerRule = s.awaitingPeerRule :=
      awaitingPeerRule_rejectAwaiting peer
    refine (Advances.foldl (·, .peerRule peer .inbound) (RequestManager.rejectAwaiting peer .inbound)
      (fun _ _ _ _ _ tracked => Advances.reject tracked) start).trans fun _ tracked' =>
        (Advances.foldl (·, .peerRule peer .outbound) (RequestManager.rejectAwaiting peer .outbound)
          (fun _ _ _ _ _ tracked => Advances.reject tracked) tracked').trans
        fun _ tracked'' => .quiet (actions_restorePeerRule _ _ _) fun r => (tracked'' r).restore ?_
    rw [awaitingPeerRule_foldl _ (frame .outbound), awaitingPeerRule_foldl _ (frame .inbound)]
    simp

omit [PeerConnectionManager C] in
theorem eraseIdx_of_getElem? {α : Type} {l : List α} {i : Nat} {x : α} (found : l[i]? = some x) :
    l = l.take i ++ x :: l.drop (i + 1) ∧ l.eraseIdx i = l.take i ++ l.drop (i + 1) := by
  obtain ⟨lt, rfl⟩ := List.getElem?_eq_some_iff.mp found
  exact ⟨by rw [← List.drop_eq_getElem_cons lt, List.take_append_drop], List.eraseIdx_eq_take_drop_succ l i⟩

/-- `on_request_approval` finds nothing and changes nothing, or removes one entry of the id from
`awaiting_approval` and hands its request to `handle_request_approval`; which of the two does not
depend on the decision, since the search reads only the id. -/
theorem onRequestApproval_uniform (s : RequestManager Rq Tx C) (requestId : RequestId) :
    (∀ isAllowed, s.onRequestApproval requestId isAllowed = (none, s)) ∨
      ∃ front back d, s.awaitingApproval = front ++ (requestId, d) :: back ∧ ∀ isAllowed,
        s.onRequestApproval requestId isAllowed =
          { s with awaitingApproval := front ++ back }.handleRequestApproval requestId d isAllowed := by
  unfold RequestManager.onRequestApproval
  split
  · exact .inl fun _ => rfl
  · rename_i index search
    obtain ⟨⟨r1, d1⟩, found, hit⟩ := binarySearchBy_ok _ _ _ search
    obtain rfl : r1 = requestId := Nat.compare_eq_eq.mp hit
    obtain ⟨whole, erased⟩ := eraseIdx_of_getElem? found
    simp only [found, erased]
    exact .inr ⟨_, _, d1, whole, fun _ => rfl⟩

theorem onRequestApproval_cases (s : RequestManager Rq Tx C) (requestId : RequestId) (isAllowed : Bool) :
    s.onRequestApproval requestId isAllowed = (none, s) ∨
      ∃ front back d, s.awaitingApproval = front ++ (requestId, d) :: back ∧
        s.onRequestApproval requestId isAllowed =
          { s with awaitingApproval := front ++ back }.handleRequestApproval requestId d isAllowed :=
  (onRequestApproval_uniform s requestId).imp (· isAllowed)
    fun ⟨front, back, d, whole, call⟩ => ⟨front, back, d, whole, call isAllowed⟩

omit [PeerConnectionManager C] in
theorem count_waitingAt_remove {front back : List (RequestId × RequestDirection)} {r1 : RequestId}
    {d1 : RequestDirection} (whole : s.awaitingApproval = front ++ (r1, d1) :: back) (slot : Slot) (r : RequestId) :
    (waitingAt s slot).count r =
      (waitingAt { s with awaitingApproval := front ++ back } slot).count r +
        if slot = .approval d1 ∧ r = r1 then 1 else 0 := by
  cases slot with
  | approval d =>
      simp only [waitingAt, whole, List.filter_append, List.filter_cons, List.map_append, List.count_append]
      by_cases same : d1 = d
      · subst same
        by_cases hit : r1 = r
        · subst hit; simp; omega
        · simp [hit, Ne.symm hit]
      · simp [same, Ne.symm same]
  | _ => rfl

theorem Tracked.occurrences_le_one {log : List (BehaviourAction Rq Tx)} {taken : List (RequestId × Slot)}
    {r : RequestId} (tracked : Tracked fw ops s log taken r) (place : Place) :
    occurrences s taken r place ≤ 1 := by
  unfold Tracked at tracked
  split at tracked
  · simp [tracked.2.1 place]
  · rcases tracked with ⟨-, -, -, -, _, -, only, -⟩ | ⟨-, nowhere, -⟩
    · rw [only place]; split <;> simp
    · simp [nowhere place]

/-- `on_request_approval` takes the entry it found out of `awaiting_approval` in hand. -/
theorem Tracked.pickApproval {front back : List (RequestId × RequestDirection)} {r1 : RequestId}
    {d1 : RequestDirection} (whole : s.awaitingApproval = front ++ (r1, d1) :: back) {r : RequestId}
    (tracked : Tracked fw ops s log [] r) :
    Tracked fw ops { s with awaitingApproval := front ++ back } log [(r1, .approval d1)] r := by
  have split := count_waitingAt_remove whole
  refine tracked.exchange (fun slot => r == r1 && slot == .approval d1) (fun slot hit => ?_)
    (fun slot miss => ?_) rfl rfl
  · obtain ⟨rfl, rfl⟩ : r = r1 ∧ slot = .approval d1 := by simpa using hit
    have once := tracked.occurrences_le_one (.waiting (.approval d1))
    have moved := split (.approval d1) r
    simp only [occurrences] at once
    simp only [and_self, if_true] at moved
    constructor
    · simp only [List.count_nil]; omega
    · simp only [List.count_singleton, beq_self_eq_true, if_true]; omega
  · have other : ¬(slot = .approval d1 ∧ r = r1) := fun ⟨at_slot, same⟩ => by simp [at_slot, same] at miss
    have differ : ((r1, Slot.approval d1) == (r, slot)) = false := by
      simp only [beq_eq_false_iff_ne, ne_eq, Prod.mk.injEq, not_and]
      exact fun same at_slot => other ⟨at_slot.symm, same.symm⟩
    exact ⟨by rw [split slot r, if_neg other, Nat.add_zero], by simp [List.count_singleton, differ]⟩

theorem Advances.onRequestApproval {requestId : RequestId} {isAllowed : Bool}
    (tracked : ∀ r, Tracked fw (ops ++ [.onRequestApproval requestId isAllowed]) s log [] r) :
    Advances fw (ops ++ [.onRequestApproval requestId isAllowed]) s (s.onRequestApproval requestId isAllowed).2
      log [] := by
  rcases onRequestApproval_cases s requestId isAllowed with same | ⟨front, back, d1, whole, same⟩ <;> rw [same]
  · exact .refl tracked
  · refine (Advances.quiet rfl fun r => (tracked r).pickApproval whole).trans fun _ tracked' =>
      Tracked.handle tracked' fun a post admitted inHand => ?_
    obtain rfl : d1 = a.direction := inHand.2.2.2.2.1
    obtain ⟨before, -, rfl⟩ := admissionIn_append_of_none admitted rfl
    exact (handle_inHand inHand isAllowed fun allowed => by
      subst allowed; exact AskedFor.approve inHand.2.2.2.2.2.1).2

end Decide

theorem invariant_new : Invariant fw [] (RequestManager.new : RequestManager Rq Tx C) [] := fun r =>
  ⟨fun d => by cases d <;> rfl,
    fun place => by cases place with
      | waiting slot => cases slot <;> rfl
      | taken => rfl,
    rfl, fun _ counter => counter.new r⟩

omit [PeerConnectionManager C] in
theorem Op.admission_eq_none {op : Op Rq Tx Q} (quiet : op.admits = none) (r : RequestId) :
    op.admission r = none := by
  cases op <;> simp_all [Op.admits, Op.admission]

/-- Every call keeps every request tracked. -/
theorem invariant_step {s s' : RequestManager Rq Tx C} {log : List (BehaviourAction Rq Tx)} {op : Op Rq Tx Q}
    (inv : Invariant fw ops s log) (fresh : ∀ requestId, op.admits = some requestId → requestId ∉ admittedIds ops)
    (exec : op.exec fw s = some s') :
    Invariant fw (ops ++ [op]) s' (if op.decides then log ++ queued s s' else log) := by
  have extended : op.admits = none → ∀ r, Tracked fw (ops ++ [op]) s log [] r :=
    fun quiet r => (inv r).extend (Op.admission_eq_none quiet r)
  have decided : ∀ {s'}, Advances fw (ops ++ [op]) s s' log [] →
      Invariant fw (ops ++ [op]) s' (log ++ queued s s') :=
    fun ⟨_, actions, tracked⟩ => by rwa [queued_of_actions actions]
  have framed : op.admits = none → Frame s s' → Invariant fw (ops ++ [op]) s' log :=
    fun quiet frame r => frame.tracked (extended quiet r)
  cases op with
  | onNewRequest peer r0 request status d =>
      cases exec
      exact decided (Advances.onNewRequest inv (admissionIn_eq_none (fresh r0 rfl)))
  | onPeerConnected peer => exact decided (Advances.onPeerConnected (extended rfl) exec)
  | onDialFailure peer => cases exec; exact decided (Advances.onDialFailure (extended rfl))
  | onPeerRule peer rules dir => cases exec; exact decided (Advances.onPeerRule (extended rfl))
  | onNoPeerRule peer dir => cases exec; exact decided (Advances.onNoPeerRule (extended rfl))
  | onRequestApproval requestId isAllowed => cases exec; exact decided (Advances.onRequestApproval (extended rfl))
  | onPeerDisconnected peer => cases exec; exact framed rfl (frame_onPeerDisconnected s peer)
  | onConnectionEstablished peer connection =>
      cases exec; exact framed rfl (frame_onConnectionEstablished s peer connection)
  | onConnectionClosed peer connection => cases exec; exact framed rfl (frame_onConnectionClosed s peer connection)
  | onResForInbound peer connection requestId result =>
      cases exec; exact framed rfl (frame_onResponse s connection requestId .inbound _)
  | onResForOutbound peer connection requestId result =>
      cases exec; exact framed rfl (frame_onResponse s connection requestId .outbound _)
  | addPendingRuleRequests peer dir => cases exec; exact framed rfl (frame_addPendingRuleRequests s peer dir)
  | setProtocolSupport peer connection support => cases exec; exact framed rfl ⟨rfl, rfl, fun _ _ _ => rfl⟩
  | takeNextAction => cases exec; exact framed rfl (frame_takeNextAction s)

/-- Every state reachable from `RequestManager::new()` keeps every request tracked. -/
theorem Reachable.invariant {s : RequestManager Rq Tx C} {log : List (BehaviourAction Rq Tx)}
    (reach : Reachable fw ops s log) : Invariant fw ops s log := by
  induction reach with
  | new => exact invariant_new
  | step _ fresh exec inv => exact invariant_step inv fresh exec

end P2p
