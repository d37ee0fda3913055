import P2p.PeerRule

/-!
The rule queries of the facade. `pending_rule_requests(peer)` reports the directions of `peer` whose
requests wait for a rule, and the facade installs a placeholder with `add_pending_rule_requests`
before it asks for one. Over any run a direction is reported exactly when the last call that bears
on it opened it: an admission `MissingRule` of that direction or a placeholder covering it opens
it, `on_peer_rule` and `on_no_peer_rule` for a direction covering it close it, and no other call
touches `awaiting_peer_rule`.
-/

namespace P2p

open PeerConnectionManager RequestManager

variable {Rq Tx C P Q V : Type} [PeerConnectionManager C]

/-- The rule query of `peer` for `d` is open: `awaiting_peer_rule[peer][d]` is `Some`. -/
def rulePending (s : RequestManager Rq Tx C) (peer : PeerId) (d : RequestDirection) : Bool :=
  ((s.awaitingPeerRule peer).bind (· d)).isSome

/-- How a call bears on the rule query of `peer` for `d`: `some true` opens it, `some false`
closes it, `none` leaves it as it is. -/
def Op.ruleQuery (peer : PeerId) (d : RequestDirection) : Op Rq Tx Q → Option Bool
  | .onNewRequest p _ _ .missingRule direction => if p = peer ∧ direction = d then some true else none
  | .addPendingRuleRequests p dir => if p = peer ∧ dir.covers d then some true else none
  | .onPeerRule p _ dir => if p = peer ∧ dir.covers d then some false else none
  | .onNoPeerRule p dir => if p = peer ∧ dir.covers d then some false else none
  | _ => none

/-- The last call of `ops` that bears on the rule query of `peer` for `d` opened it. -/
def queryOpen (peer : PeerId) (d : RequestDirection) (ops : List (Op Rq Tx Q)) : Bool :=
  ((ops.filterMap (Op.ruleQuery peer d)).getLast?).getD false

theorem queryOpen_append (peer : PeerId) (d : RequestDirection) (ops : List (Op Rq Tx Q)) (op : Op Rq Tx Q) :
    queryOpen peer d (ops ++ [op]) = (op.ruleQuery peer d).getD (queryOpen peer d ops) := by
  unfold queryOpen
  cases bears : op.ruleQuery peer d <;> simp [List.filterMap_append, bears]

omit [PeerConnectionManager C] in
theorem pendingRuleRequests_covers (s : RequestManager Rq Tx C) (peer : PeerId) (d : RequestDirection) :
    ((s.pendingRuleRequests peer).map (·.covers d)).getD false = rulePending s peer d := by
  unfold pendingRuleRequests rulePending
  rcases s.awaitingPeerRule peer with _ | awaitRule
  · rfl
  · cases inbound : awaitRule .inbound <;> cases outbound : awaitRule .outbound <;> cases d <;>
      simp [inbound, outbound, RuleDirection.covers, RuleDirection.isInbound, RuleDirection.isOutbound]

omit [PeerConnectionManager C] in
theorem rulePending_of_awaitingPeerRule {s s' : RequestManager Rq Tx C}
    (same : s'.awaitingPeerRule = s.awaitingPeerRule) (peer : PeerId) (d : RequestDirection) :
    rulePending s' peer d = rulePending s peer d := by
  simp [rulePending, same]

theorem awaitingPeerRule_flushConnection :
    ∀ {requests : List RequestId} {s s' : RequestManager Rq Tx C},
      s.flushConnection requests = some s' → s'.awaitingPeerRule = s.awaitingPeerRule
  | [], s, s', flushed => by
      obtain rfl : s = s' := by simpa [flushConnection] using flushed
      rfl
  | r :: rest, s, s', flushed => by
      unfold flushConnection at flushed
      split at flushed
      · rename_i taken
        rw [awaitingPeerRule_flushConnection flushed, awaitingPeerRule_of_take taken]
      · rename_i taken
        split at flushed
        · cases flushed
        · have kept := awaitingPeerRule_of_take taken
          exact (awaitingPeerRule_flushConnection flushed).trans kept

omit [PeerConnectionManager C] in
theorem awaitingPeerRule_onDialFailure (s : RequestManager Rq Tx C) (peer : PeerId) :
    (s.onDialFailure peer).awaitingPeerRule = s.awaitingPeerRule := by
  unfold onDialFailure
  split
  · rfl
  · exact awaitingPeerRule_foldl (failDial peer) (fun _ _ => rfl) _ _

theorem awaitingPeerRule_onConnectionClosed (s : RequestManager Rq Tx C) (peer : PeerId)
    (connection : ConnectionId) : (s.onConnectionClosed peer connection).awaitingPeerRule = s.awaitingPeerRule := by
  unfold onConnectionClosed
  split <;> rfl

theorem awaitingPeerRule_onRequestApproval (s : RequestManager Rq Tx C) (requestId : RequestId)
    (isAllowed : Bool) : (s.onRequestApproval requestId isAllowed).2.awaitingPeerRule = s.awaitingPeerRule := by
  rcases onRequestApproval_cases s requestId isAllowed with same | ⟨front, back, d, -, same⟩ <;> rw [same]
  exact awaitingPeerRule_handleRequestApproval _ _ _ _

theorem awaitingPeerRule_onNewRequest (s : RequestManager Rq Tx C) (peer : PeerId) (r : RequestId)
    (request : RequestMessage Rq Tx) {status : ApprovalStatus} (other : status ≠ .missingRule)
    (d : RequestDirection) : (s.onNewRequest peer r request status d).awaitingPeerRule = s.awaitingPeerRule := by
  unfold onNewRequest
  cases status with
  | missingRule => exact absurd rfl other
  | missingApproval => cases d <;> rfl
  | approved => rcases addRequest s.connections peer r d with ⟨_ | _, _⟩ <;> cases d <;> rfl
  | rejected => rfl

theorem awaitingPeerRule_onPeerConnected {s s' : RequestManager Rq Tx C} {peer : PeerId}
    (connected : s.onPeerConnected peer = some s') : s'.awaitingPeerRule = s.awaitingPeerRule := by
  unfold onPeerConnected at connected
  split at connected
  · cases connected; rfl
  · split at connected
    · cases connected; rfl
    · exact (awaitingPeerRule_flushConnection connected).trans rfl

theorem awaitingPeerRule_onPeerDisconnected (s : RequestManager Rq Tx C) (peer : PeerId) :
    (s.onPeerDisconnected peer).awaitingPeerRule = s.awaitingPeerRule := by
  unfold onPeerDisconnected
  split
  · rfl
  · exact awaitingPeerRule_foldl _ (fun s c => awaitingPeerRule_onConnectionClosed s peer c) _ _

theorem awaitingPeerRule_onResponse (s : RequestManager Rq Tx C) (connection : ConnectionId) (requestId : RequestId)
    (direction : RequestDirection) (failure : Option (BehaviourAction Rq Tx)) :
    (s.onResponse connection requestId direction failure).awaitingPeerRule = s.awaitingPeerRule := by
  unfold onResponse
  split <;> rfl

omit [PeerConnectionManager C] in
theorem awaitingPeerRule_takeNextAction (s : RequestManager Rq Tx C) :
    s.takeNextAction.2.awaitingPeerRule = s.awaitingPeerRule := by
  unfold takeNextAction
  split <;> rfl

theorem rulePending_missingRule (s : RequestManager Rq Tx C) (p : PeerId) (r : RequestId)
    (request : RequestMessage Rq Tx) (direction : RequestDirection) (peer : PeerId) (d : RequestDirection) :
    rulePending (s.onNewRequest p r request .missingRule direction) peer d =
      if p = peer ∧ direction = d then true else rulePending s peer d := by
  have kept : (s.storeRequest p r request direction).awaitingPeerRule = s.awaitingPeerRule := by
    cases direction <;> rfl
  simp only [rulePending, onNewRequest, kept]
  by_cases same : p = peer
  · subst same
    by_cases hit : direction = d
    · subst hit; simp
    · cases found : s.awaitingPeerRule p <;> simp [found, hit, Function.update_apply, Ne.symm hit]
  · simp [same, Function.update_apply, Ne.symm same]

omit [PeerConnectionManager C] in
theorem isSome_fill (awaitRule : RequestDirection → Option (List RequestId)) (d0 d : RequestDirection)
    (cover : Bool) :
    ((if cover && (awaitRule d0).isNone then Function.update awaitRule d0 (some []) else awaitRule) d).isSome =
      (cover && d == d0 || (awaitRule d).isSome) := by
  by_cases same : d = d0
  · subst same
    split <;> cases cover <;> simp_all [Option.isSome_iff_ne_none]
  · split <;> simp [Function.update_apply, same]

omit [PeerConnectionManager C] in
theorem rulePending_addPendingRuleRequests (s : RequestManager Rq Tx C) (p : PeerId) (dir : RuleDirection)
    (peer : PeerId) (d : RequestDirection) :
    rulePending (s.addPendingRuleRequests p dir) peer d = if p = peer ∧ dir.covers d then true else rulePending s peer d := by
  unfold addPendingRuleRequests rulePending
  by_cases same : p = peer
  · subst same
    simp only [Function.update_same, Option.some_bind, isSome_fill]
    cases found : s.awaitingPeerRule p <;> cases dir <;> cases d <;>
      simp [RuleDirection.covers, RuleDirection.isInbound, RuleDirection.isOutbound]
  · simp [same, Function.update_apply, Ne.symm same]

omit [PeerConnectionManager C] in
/-- `on_peer_rule` and `on_no_peer_rule` end by putting back under `peer` the lists of the
directions the rule does not cover: the queries of the covered directions are closed. -/
theorem rulePending_restorePeerRule {s t : RequestManager Rq Tx C} {p : PeerId}
    {awaitRule : RequestDirection → Option (List RequestId)} (found : s.awaitingPeerRule p = some awaitRule)
    (cleared : t.awaitingPeerRule = Function.update s.awaitingPeerRule p none) (dir : RuleDirection)
    (peer : PeerId) (d : RequestDirection) :
    rulePending (restorePeerRule t p (remnantRules awaitRule dir)) peer d =
      if p = peer ∧ dir.covers d then false else rulePending s peer d := by
  unfold restorePeerRule rulePending
  by_cases same : p = peer
  · subst same
    split
    · simp [found, remnantRules]
      split <;> simp_all
    · rename_i empty
      have none : remnantRules awaitRule dir d = none := by cases d <;> simp_all [isEmpty]
      simp only [remnantRules] at none
      by_cases covered : dir.covers d <;> simp_all
  · split <;> simp [cleared, Function.update_apply, Ne.symm same, same]

theorem rulePending_onPeerRule (fw : Firewall Rq P Q V) (s : RequestManager Rq Tx C) (p : PeerId)
    (rules : FirewallRules Q) (dir : RuleDirection) (peer : PeerId) (d : RequestDirection) :
    rulePending (s.onPeerRule fw p rules dir).2 peer d = if p = peer ∧ dir.covers d then false else rulePending s peer d := by
  rw [onPeerRule_eq]
  rcases found : s.awaitingPeerRule p with _ | awaitRule
  · by_cases same : p = peer
    · subst same; simp [rulePending, found]
    · simp [same]
  · refine rulePending_restorePeerRule found ?_ dir peer d
    rw [applyRules_snd, awaitingPeerRule_foldl
      (fun (t : RequestManager Rq Tx C) (entry : RequestId × RequestDirection) => (t.applyRule fw rules entry.1 entry.2).2)
      (fun t entry => awaitingPeerRule_applyRule fw rules t entry.1 entry.2)]

omit [PeerConnectionManager C] in
theorem rulePending_onNoPeerRule (s : RequestManager Rq Tx C) (p : PeerId) (dir : RuleDirection) (peer : PeerId)
    (d : RequestDirection) :
    rulePending (s.onNoPeerRule p dir) peer d = if p = peer ∧ dir.covers d then false else rulePending s peer d := by
  rw [onNoPeerRule_eq]
  rcases found : s.awaitingPeerRule p with _ | awaitRule
  · by_cases same : p = peer
    · subst same; simp [rulePending, found]
    · simp [same]
  · refine rulePending_restorePeerRule found ?_ dir peer d
    rw [awaitingPeerRule_foldl _ (awaitingPeerRule_rejectAwaiting p .outbound),
      awaitingPeerRule_foldl _ (awaitingPeerRule_rejectAwaiting p .inbound)]

theorem getD_ite (c : Prop) [Decidable c] (b x : Bool) : (if c then some b else none).getD x = if c then b else x := by
  split <;> rfl

/-- A call opens, closes or leaves the rule query of `peer` for `d` as `Op.ruleQuery` says. -/
theorem rulePending_exec (fw : Firewall Rq P Q V) {s s' : RequestManager Rq Tx C} {op : Op Rq Tx Q}
    (exec : op.exec fw s = some s') (peer : PeerId) (d : RequestDirection) :
    rulePending s' peer d = (op.ruleQuery peer d).getD (rulePending s peer d) := by
  cases op with
  | onNewRequest p r request status direction =>
      cases exec
      by_cases rule : status = .missingRule
      · subst rule
        rw [rulePending_missingRule]
        simp only [Op.ruleQuery, getD_ite]
      · rw [rulePending_of_awaitingPeerRule (awaitingPeerRule_onNewRequest s p r request rule direction)]
        cases status <;> simp_all [Op.ruleQuery]
  | onPeerConnected p =>
      exact rulePending_of_awaitingPeerRule (awaitingPeerRule_onPeerConnected exec) peer d
  | onPeerDisconnected p =>
      cases exec
      exact rulePending_of_awaitingPeerRule (awaitingPeerRule_onPeerDisconnected s p) peer d
  | onConnectionClosed p connection =>
      cases exec
      exact rulePending_of_awaitingPeerRule (awaitingPeerRule_onConnectionClosed s p connection) peer d
  | onDialFailure p =>
      cases exec
      exact rulePending_of_awaitingPeerRule (awaitingPeerRule_onDialFailure s p) peer d
  | onPeerRule p rules dir =>
      cases exec
      rw [rulePending_onPeerRule]
      simp only [Op.ruleQuery, getD_ite]
  | onNoPeerRule p dir =>
      cases exec
      rw [rulePending_onNoPeerRule]
      simp only [Op.ruleQuery, getD_ite]
  | onRequestApproval requestId isAllowed =>
      cases exec
      exact rulePending_of_awaitingPeerRule (awaitingPeerRule_onRequestApproval s requestId isAllowed) peer d
  | addPendingRuleRequests p dir =>
      cases exec
      rw [rulePending_addPendingRuleRequests]
      simp only [Op.ruleQuery, getD_ite]
  | onResForInbound p connection requestId result =>
      cases exec
      exact rulePending_of_awaitingPeerRule (awaitingPeerRule_onResponse s connection requestId .inbound _) peer d
  | onResForOutbound p connection requestId result =>
      cases exec
      exact rulePending_of_awaitingPeerRule (awaitingPeerRule_onResponse s connection requestId .outbound _) peer d
  | onConnectionEstablished p connection => cases exec; rfl
  | setProtocolSupport p connection support => cases exec; rfl
  | takeNextAction =>
      cases exec
      exact rulePending_of_awaitingPeerRule (awaitingPeerRule_takeNextAction s) peer d

theorem reachable_pendingRuleRequests {fw : Firewall Rq P Q V} {ops : List (Op Rq Tx Q)} {s : RequestManager Rq Tx C}
    {log : List (BehaviourAction Rq Tx)} (reach : Reachable fw ops s log) (peer : PeerId) (d : RequestDirection) :
    ((s.pendingRuleRequests peer).map (·.covers d)).getD false = queryOpen peer d ops := by
  rw [pendingRuleRequests_covers]
  induction reach with
  | new => rfl
  | step _ _ exec ih => rw [rulePending_exec fw exec, ih, queryOpen_append]

theorem placeholder_pendingRuleRequests :
    ∃ (s : RequestManager Nat Unit Connections) (log : List (BehaviourAction Nat Unit)),
      Reachable sampleFirewall [.onNewRequest 7 1 ⟨5, ()⟩ .missingRule .inbound, .addPendingRuleRequests 7 .outbound]
        s log ∧
      ((s.pendingRuleRequests 7).map (·.covers .outbound)).getD false =
        queryOpen 7 .outbound [(.onNewRequest 7 1 ⟨5, ()⟩ .missingRule .inbound : Op Nat Unit Nat),
          .addPendingRuleRequests 7 .outbound] := by
  have reach : Reachable sampleFirewall
      [(.onNewRequest 7 1 ⟨5, ()⟩ .missingRule .inbound : Op Nat Unit Nat), .addPendingRuleRequests 7 .outbound] _ _ :=
    .step (C := Connections) (.step .new (fun _ admits => by cases admits; decide)
      (show Op.exec sampleFirewall _ (.onNewRequest 7 1 ⟨5, ()⟩ .missingRule .inbound) = some _ from rfl))
      (fun _ admits => by cases admits) rfl
  exact ⟨_, _, reach, reachable_pendingRuleRequests reach 7 .outbound⟩

end P2p
