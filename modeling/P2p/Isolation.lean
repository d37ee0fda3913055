import P2p.Lifecycle
import P2p.Firewall

/-!
What a call leaves alone. A call serves some requests (`Op.Serves`): `on_new_request` and
`on_request_approval` the id they name, `on_peer_connected` and `on_dial_failure` the requests
awaiting a connection to their peer, `on_peer_rule` and `on_no_peer_rule` the requests awaiting the
peer's rule in a direction the rule covers. Every other request keeps its store entries, its places
and what the connection bookkeeping granted it, and a deciding call queues no outcome for it. This
holds on every manager, reachable or not: each turn of the loops handles an id of the lists the
call empties, and `Touches` says what a turn leaves of the other ids.
-/

namespace P2p

open PeerConnectionManager RequestManager

variable {Rq Tx C P Q V : Type} [PeerConnectionManager C]

/-- The requests a call serves; the calls that decide no request serve none. -/
def Op.Serves (s : RequestManager Rq Tx C) (r : RequestId) : Op Rq Tx Q → Prop
  | .onNewRequest _ requestId _ _ _ | .onRequestApproval requestId _ => r = requestId
  | .onPeerConnected peer | .onDialFailure peer => r ∈ waitingAt s (.connection peer)
  | .onPeerRule peer _ dir | .onNoPeerRule peer dir =>
      ∃ d, dir.covers d = true ∧ r ∈ waitingAt s (.peerRule peer d)
  | _ => False

/-- From `s` to `s'` nothing of request `r` changed, and the actions queued meanwhile hold no
outcome for it. -/
structure Apart (s s' : RequestManager Rq Tx C) (r : RequestId) : Prop where
  store : ∀ d, s'.requestStore d r = s.requestStore d r
  slots : ∀ slot, (waitingAt s' slot).count r = (waitingAt s slot).count r
  granted : ∀ granted, GrantCounter granted → granted s'.connections r = granted s.connections r
  quiet : ∃ pushed, s'.actions = s.actions ++ pushed ∧ outcomes pushed r = []

namespace Apart

variable {s t t' : RequestManager Rq Tx C} {r : RequestId}

theorem refl (s : RequestManager Rq Tx C) (r : RequestId) : Apart s s r :=
  ⟨fun _ => rfl, fun _ => rfl, fun _ _ => rfl, [], by simp, rfl⟩

theorem trans (first : Apart s t r) (second : Apart t t' r) : Apart s t' r where
  store d := (second.store d).trans (first.store d)
  slots slot := (second.slots slot).trans (first.slots slot)
  granted g counter := (second.granted g counter).trans (first.granted g counter)
  quiet := by
    obtain ⟨pushed, actions, quiet⟩ := first.quiet
    obtain ⟨more, actions', quiet'⟩ := second.quiet
    exact ⟨pushed ++ more, by rw [actions', actions, List.append_assoc], by simp [quiet, quiet']⟩

theorem foldl {α : Type} (step : RequestManager Rq Tx C → α → RequestManager Rq Tx C) (items : List α)
    (turn : ∀ t, ∀ x ∈ items, Apart t (step t x) r) : Apart t (items.foldl step t) r := by
  induction items generalizing t with
  | nil => exact refl t r
  | cons x items ih => exact (turn t x (.head _)).trans (ih fun t y mem => turn t y (.tail _ mem))

end Apart

theorem Touches.apart {r0 : RequestId} {s s' : RequestManager Rq Tx C} {pushed : List (BehaviourAction Rq Tx)}
    (touches : Touches r0 s s' pushed) {r : RequestId} (other : r ≠ r0) : Apart s s' r :=
  ⟨touches.store r other, touches.slots r other, touches.granted r other, pushed, touches.actions,
    touches.concerns r other⟩

section Steps

variable {s t : RequestManager Rq Tx C}

theorem touches_take_eq {r0 : RequestId} {d : RequestDirection} {entry : Option (PeerId × RequestMessage Rq Tx)}
    (taken : s.takeStoredRequest r0 d = (entry, t)) : Touches r0 s t [] := by
  have touches := touches_takeStoredRequest s r0 d
  rw [taken] at touches
  exact touches

theorem touches_handleRequestApproval (s : RequestManager Rq Tx C) (r0 : RequestId) (d : RequestDirection)
    (isAllowed : Bool) : ∃ pushed, Touches r0 s (s.handleRequestApproval r0 d isAllowed).2 pushed := by
  unfold RequestManager.handleRequestApproval
  split
  · split
    · exact ⟨[], touches_take_eq ‹_›⟩
    · rename_i peer _ _ _
      exact ⟨_, (touches_take_eq ‹_›).trans
        (touches_pushBack _ _ (settles_of_outcome (notPermitted_outcome d peer r0)))⟩
  · split
    · exact ⟨[], .refl r0 s⟩
    · rename_i peer _
      split
      · rename_i connection connections added
        have base := touches_addRequest s peer r0 d (by rw [added])
        split
        · exact ⟨[], base.trans (touches_take_eq ‹_›)⟩
        · rename_i peer' request _ _
          rw [addReadyRequest_eq]
          exact ⟨_, (base.trans (touches_take_eq ‹_›)).trans
            (touches_pushBack _ _ (settles_of_outcome (readyAction_outcome d r0 peer' connection request)))⟩
      · rename_i connections added
        have base := touches_addRequest s peer r0 d (by rw [added])
        split
        · split
          · exact ⟨[], base.trans (touches_take_eq ‹_›)⟩
          · exact ⟨_, (base.trans (touches_take_eq ‹_›)).trans (touches_pushBack _ _ (settles_of_outcome
              (show (BehaviourAction.inboundFailure peer r0 .connectionClosed : BehaviourAction Rq Tx).outcome =
                some (r0, peer, .inbound) from rfl)))⟩
        · exact ⟨_, base.trans (touches_addDialAttempt _ peer r0)⟩

theorem touches_applyRule (fw : Firewall Rq P Q V) (rules : FirewallRules Q) (s : RequestManager Rq Tx C)
    (r0 : RequestId) (d : RequestDirection) : ∃ pushed, Touches r0 s (s.applyRule fw rules r0 d).2 pushed := by
  unfold RequestManager.applyRule
  split
  · split
    · exact ⟨[], .refl r0 s⟩
    · exact ⟨[], touches_pushApproval s r0 d⟩
  · split
    · exact touches_handleRequestApproval s r0 d _
    · exact ⟨[], .refl r0 s⟩
  · exact touches_handleRequestApproval s r0 d false

theorem touches_onNewRequest (s : RequestManager Rq Tx C) (peer : PeerId) (r0 : RequestId)
    (request : RequestMessage Rq Tx) (status : ApprovalStatus) (d : RequestDirection) :
    ∃ pushed, Touches r0 s (s.onNewRequest peer r0 request status d) pushed := by
  cases status with
  | missingRule =>
      simp only [RequestManager.onNewRequest]
      exact ⟨[], (touches_storeRequest s peer r0 request d).trans (touches_pushPeerRule _ peer r0 d)⟩
  | missingApproval =>
      simp only [RequestManager.onNewRequest]
      exact ⟨[], (touches_storeRequest s peer r0 request d).trans (touches_pushApproval _ r0 d)⟩
  | approved =>
      rcases grant : addRequest s.connections peer r0 d with ⟨_ | connection, connections⟩
      · have base : Touches r0 s { s with connections := connections } [] :=
          touches_addRequest s peer r0 d (by simp [grant])
        simp only [RequestManager.onNewRequest, grant]
        cases d with
        | inbound =>
            exact ⟨_, base.trans (touches_pushBack _ _ (settles_of_outcome
              (show (BehaviourAction.inboundFailure peer r0 .connectionClosed : BehaviourAction Rq Tx).outcome =
                some (r0, peer, .inbound) from rfl)))⟩
        | outbound =>
            exact ⟨_, (base.trans (touches_storeRequest _ peer r0 request .outbound)).trans
              (touches_addDialAttempt _ peer r0)⟩
      · simp only [RequestManager.onNewRequest, grant, addReadyRequest_eq]
        exact ⟨_, (touches_addRequest s peer r0 d (by simp [grant])).trans
          (touches_pushBack _ _ (settles_of_outcome (readyAction_outcome d r0 peer connection request)))⟩
  | rejected => exact ⟨_, touches_pushBack s _ (settles_of_outcome (notPermitted_outcome d peer r0))⟩

end Steps

section Calls

variable {s : RequestManager Rq Tx C} {r : RequestId}

theorem apart_dropConnection (s : RequestManager Rq Tx C) (peer : PeerId)
    (absent : r ∉ waitingAt s (.connection peer)) :
    Apart s { s with awaitingConnection := Function.update s.awaitingConnection peer none } r := by
  refine ⟨fun _ => rfl, fun slot => ?_, fun _ _ => rfl, [], by simp, rfl⟩
  rw [waitingAt_dropConnection]
  split
  · subst_vars
    exact (List.count_eq_zero.mpr absent).symm
  · rfl

theorem apart_restorePeerRule {t : RequestManager Rq Tx C} {peer : PeerId}
    {awaitRule : RequestDirection → Option (List RequestId)} {dir : RuleDirection}
    (found : s.awaitingPeerRule peer = some awaitRule)
    (loop : Apart { s with awaitingPeerRule := Function.update s.awaitingPeerRule peer none } t r)
    (gone : t.awaitingPeerRule peer = none)
    (uncovered : ∀ d, dir.covers d = true → r ∉ waitingAt s (.peerRule peer d)) :
    Apart s (restorePeerRule t peer (remnantRules awaitRule dir)) r where
  store d := by rw [requestStore_restorePeerRule]; exact loop.store d
  granted g counter := by unfold restorePeerRule; split <;> exact loop.granted g counter
  quiet := by
    obtain ⟨pushed, actions, quiet⟩ := loop.quiet
    exact ⟨pushed, by rw [actions_restorePeerRule, actions], quiet⟩
  slots slot := by
    cases own : slot.ofPeerRule peer
    · rw [waitingAt_restorePeerRule_of_not _ _ _ own, loop.slots, waitingAt_dropPeerRule, own]
      rfl
    · obtain ⟨d, rfl⟩ := Slot.eq_of_ofPeerRule own
      have original : waitingAt s (.peerRule peer d) = (awaitRule d).getD [] := by simp [waitingAt, found]
      rw [waitingAt_restorePeerRule gone, original]
      unfold remnantRules
      split
      · rename_i covered
        exact (List.count_eq_zero.mpr (original ▸ uncovered d covered)).symm
      · rfl

theorem apart_onPeerRule (fw : Firewall Rq P Q V) (s : RequestManager Rq Tx C) (peer : PeerId)
    (rules : FirewallRules Q) (dir : RuleDirection)
    (uncovered : ∀ d, dir.covers d = true → r ∉ waitingAt s (.peerRule peer d)) :
    Apart s (s.onPeerRule fw peer rules dir).2 r := by
  rw [onPeerRule_eq]
  rcases found : s.awaitingPeerRule peer with _ | awaitRule
  · exact .refl s r
  · dsimp only
    rw [applyRules_snd]
    refine apart_restorePeerRule found (Apart.foldl _ _ fun t entry mem => ?_) ?_ uncovered
    · obtain ⟨_, touches⟩ := touches_applyRule fw rules t entry.1 entry.2
      exact touches.apart fun same => uncovered entry.2 (covers_of_mem_ruleRequests mem)
        (same ▸ mem_waitingAt_of_found found (mem_of_mem_ruleRequests mem))
    · rw [awaitingPeerRule_foldl _ fun t (entry : RequestId × RequestDirection) =>
        awaitingPeerRule_applyRule fw rules t entry.1 entry.2]
      simp

theorem apart_onNoPeerRule (s : RequestManager Rq Tx C) (peer : PeerId) (dir : RuleDirection)
    (uncovered : ∀ d, dir.covers d = true → r ∉ waitingAt s (.peerRule peer d)) :
    Apart s (s.onNoPeerRule peer dir) r := by
  rw [onNoPeerRule_eq]
  rcases found : s.awaitingPeerRule peer with _ | awaitRule
  · exact .refl s r
  · have reject : ∀ d (t : RequestManager Rq Tx C),
        Apart t (((coveredRules awaitRule dir d).getD []).foldl (rejectAwaiting peer d) t) r :=
      fun d _ => Apart.foldl _ _ fun t r0 mem => by
        have covered : dir.covers d = true := by
          by_contra uncovers
          simp [coveredRules, uncovers] at mem
        have waits : r0 ∈ (awaitRule d).getD [] := by simpa [coveredRules, covered] using mem
        exact (touches_take_push t r0 d (notPermitted_outcome d peer r0)).apart fun same =>
          uncovered d covered (same ▸ mem_waitingAt_of_found found waits)
    refine apart_restorePeerRule found ((reject .inbound _).trans (reject .outbound _)) ?_ uncovered
    rw [awaitingPeerRule_foldl _ (awaitingPeerRule_rejectAwaiting peer .outbound),
      awaitingPeerRule_foldl _ (awaitingPeerRule_rejectAwaiting peer .inbound)]
    simp

theorem apart_onDialFailure (s : RequestManager Rq Tx C) (peer : PeerId)
    (absent : r ∉ waitingAt s (.connection peer)) : Apart s (s.onDialFailure peer) r := by
  unfold RequestManager.onDialFailure
  split
  · exact .refl s r
  · rename_i requests found
    refine (apart_dropConnection s peer absent).trans (Apart.foldl _ _ fun t r0 mem => ?_)
    exact (touches_take_push t r0 .outbound
      (show (BehaviourAction.outboundFailure peer r0 .dialFailure : BehaviourAction Rq Tx).outcome =
        some (r0, peer, .outbound) from rfl)).apart fun same => absent (by simp [waitingAt, found, same ▸ mem])

/-- The closure of `on_peer_connected` over ids other than `r`. -/
theorem apart_flushConnection {requests : List RequestId} {t t' : RequestManager Rq Tx C}
    (absent : r ∉ requests) (flushed : t.flushConnection requests = some t') : Apart t t' r := by
  induction requests generalizing t with
  | nil => exact Option.some.inj flushed ▸ .refl t r
  | cons r0 rest ih =>
      have other : r ≠ r0 := fun same => absent (same ▸ .head _)
      have later : r ∉ rest := fun mem => absent (.tail _ mem)
      unfold RequestManager.flushConnection at flushed
      split at flushed
      · exact ((touches_take_eq ‹_›).apart other).trans (ih later flushed)
      · rename_i peer request _ _
        split at flushed
        · cases flushed
        · rename_i connection connections added
          have turn := ((touches_take_eq ‹_›).trans (touches_addRequest _ peer r0 .outbound (by rw [added]))).trans
            (touches_pushBack _ (.outboundReady r0 peer connection request) (settles_of_outcome
              (show (BehaviourAction.outboundReady r0 peer connection request : BehaviourAction Rq Tx).outcome =
                some (r0, peer, .outbound) from rfl)))
          exact (turn.apart other).trans (ih later flushed)

theorem apart_onPeerConnected {peer : PeerId} {s' : RequestManager Rq Tx C}
    (exec : s.onPeerConnected peer = some s') (absent : r ∉ waitingAt s (.connection peer)) : Apart s s' r := by
  unfold RequestManager.onPeerConnected at exec
  split at exec
  · exact Option.some.inj exec ▸ .refl s r
  · split at exec
    · exact Option.some.inj exec ▸ .refl s r
    · rename_i requests found
      exact (apart_dropConnection s peer absent).trans
        (apart_flushConnection (fun mem => absent (by simp [waitingAt, found, mem])) exec)

theorem apart_onRequestApproval (s : RequestManager Rq Tx C) (requestId : RequestId) (isAllowed : Bool)
    (other : r ≠ requestId) : Apart s (s.onRequestApproval requestId isAllowed).2 r := by
  rcases onRequestApproval_cases s requestId isAllowed with same | ⟨front, back, d, whole, same⟩ <;> rw [same]
  · exact .refl s r
  · obtain ⟨_, touches⟩ := touches_handleRequestApproval { s with awaitingApproval := front ++ back } requestId d
      isAllowed
    have removed : Apart s { s with awaitingApproval := front ++ back } r :=
      ⟨fun _ => rfl, fun slot => by rw [count_waitingAt_remove whole slot r, if_neg fun hit => other hit.2,
        Nat.add_zero], fun _ _ => rfl, [], by simp, rfl⟩
    exact removed.trans (touches.apart other)

end Calls

/-- A call changes only the requests it serves: every other request keeps its store entries, its
places and what the connection bookkeeping granted it, and a deciding call queues no outcome for
it. -/
theorem exec_apart {fw : Firewall Rq P Q V} {op : Op Rq Tx Q} {s s' : RequestManager Rq Tx C}
    (exec : op.exec fw s = some s') {r : RequestId} (apart : ¬ op.Serves s r) :
    (∀ d, s'.requestStore d r = s.requestStore d r) ∧
      (∀ slot, (waitingAt s' slot).count r = (waitingAt s slot).count r) ∧
      (∀ granted, GrantCounter granted → granted s'.connections r = granted s.connections r) ∧
      (op.decides = true → outcomes (queued s s') r = []) := by
  refine (show Apart s s' r ∨ (Frame s s' ∧ op.decides = false) from ?_).elim
    (fun ⟨store, slots, granted, _, actions, quiet⟩ =>
      ⟨store, slots, granted, fun _ => by rwa [queued_of_actions actions]⟩)
    (fun ⟨frame, quiet⟩ => ⟨fun d => by rw [frame.store], fun slot => by rw [frame.slots],
      fun g counter => frame.granted g counter r, fun decides => absurd decides (by simp [quiet])⟩)
  cases op with
  | onNewRequest peer r0 request status d =>
      cases exec
      obtain ⟨_, touches⟩ := touches_onNewRequest s peer r0 request status d
      exact .inl (touches.apart apart)
  | onPeerConnected peer => exact .inl (apart_onPeerConnected exec apart)
  | onDialFailure peer => cases exec; exact .inl (apart_onDialFailure s peer apart)
  | onPeerRule peer rules dir =>
      cases exec; exact .inl (apart_onPeerRule fw s peer rules dir fun d covered mem => apart ⟨d, covered, mem⟩)
  | onNoPeerRule peer dir =>
      cases exec; exact .inl (apart_onNoPeerRule s peer dir fun d covered mem => apart ⟨d, covered, mem⟩)
  | onRequestApproval requestId isAllowed =>
      cases exec; exact .inl (apart_onRequestApproval s requestId isAllowed apart)
  | onPeerDisconnected peer => cases exec; exact .inr ⟨frame_onPeerDisconnected s peer, rfl⟩
  | onConnectionEstablished peer connection =>
      cases exec; exact .inr ⟨frame_onConnectionEstablished s peer connection, rfl⟩
  | onConnectionClosed peer connection => cases exec; exact .inr ⟨frame_onConnectionClosed s peer connection, rfl⟩
  | onResForInbound peer connection requestId result =>
      cases exec; exact .inr ⟨frame_onResponse s connection requestId .inbound _, rfl⟩
  | onResForOutbound peer connection requestId result =>
      cases exec; exact .inr ⟨frame_onResponse s connection requestId .outbound _, rfl⟩
  | addPendingRuleRequests peer dir => cases exec; exact .inr ⟨frame_addPendingRuleRequests s peer dir, rfl⟩
  | setProtocolSupport peer connection support =>
      cases exec
      exact .inr ⟨⟨rfl, rfl, fun _ _ _ => rfl⟩, rfl⟩
  | takeNextAction => cases exec; exact .inr ⟨frame_takeNextAction s, rfl⟩

theorem approval_leaves_other :
    ∃ (s s' : RequestManager Nat Unit (Recorded Connections)),
      (Op.onRequestApproval 1 true : Op Nat Unit Nat).exec sampleFirewall s = some s' ∧
      ¬ (Op.onRequestApproval 1 true : Op Nat Unit Nat).Serves s 2 ∧
      (∀ d, s'.requestStore d 2 = s.requestStore d 2) ∧
      (∀ slot, (waitingAt s' slot).count 2 = (waitingAt s slot).count 2) ∧
      (∀ granted, GrantCounter granted → granted s'.connections 2 = granted s.connections 2) ∧
      ((Op.onRequestApproval 1 true : Op Nat Unit Nat).decides = true → outcomes (queued s s') 2 = []) := by
  have exec : (Op.onRequestApproval 1 true : Op Nat Unit Nat).exec sampleFirewall
      (((RequestManager.new : RequestManager Nat Unit (Recorded Connections)).onNewRequest 7 1 ⟨5, ()⟩ .missingApproval
        .inbound).onNewRequest 8 2 ⟨6, ()⟩ .missingApproval .inbound) = some _ := rfl
  have apart : ¬ (Op.onRequestApproval 1 true : Op Nat Unit Nat).Serves
      (((RequestManager.new : RequestManager Nat Unit (Recorded Connections)).onNewRequest 7 1 ⟨5, ()⟩ .missingApproval
        .inbound).onNewRequest 8 2 ⟨6, ()⟩ .missingApproval .inbound) 2 := by
    simp [Op.Serves]
  exact ⟨_, _, exec, apart, exec_apart exec apart⟩

end P2p
