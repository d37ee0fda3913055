import P2p.Approval
import Mathlib.Data.List.Nodup

/-!
Every request a reachable manager holds can be brought to its outcome by one call. A request waits
for a connection, for its peer's rule or for its own approval. The transport ends a dial that fails
with `on_dial_failure`, and the spec (4.6) lets the host end the two queries when no answer comes,
by synthesising `on_no_peer_rule` or `on_request_approval(id, false)`. The call that fits the
request's place takes it from its store and queues the failure of that place, `DialFailure` or
`NotPermitted`, so the request gets its one outcome, that failure. `on_request_approval` reaches
the request only if its search finds the id: for a request awaiting approval the result asks
`awaiting_approval` sorted by id.

No rule is a refusal. `on_no_peer_rule` takes each id waiting for the rule from its store and
queues `NotPermitted` for it. `on_peer_rule` with no rule for a direction hands each id to
`handle_request_approval(id, d, false)`, which queues `NotPermitted` only for an id it finds stored,
under the peer it finds there. On a reachable manager every waiting id is stored once, under the
peer whose rule it waits for, so the two calls leave the same manager.
-/

namespace P2p

open PeerConnectionManager RequestManager

variable {Rq Tx C P Q V : Type} [PeerConnectionManager C]

/-- Modelled from the spec (4.6): the call that ends the wait of request `r` at `slot` when what it
waits for does not come: its dial fails, no rule comes for its direction, or its approval is
refused. -/
def Slot.release (r : RequestId) : Slot → Op Rq Tx Q
  | .connection peer => .onDialFailure peer
  | .peerRule peer .inbound => .onNoPeerRule peer .inbound
  | .peerRule peer .outbound => .onNoPeerRule peer .outbound
  | .approval _ => .onRequestApproval r false

/-- Modelled from the spec (4.5): the failure that call queues for request `r` of `peer`:
`DialFailure` when its dial fails, `NotPermitted` when no rule comes or its approval is refused. -/
def Slot.failure (r : RequestId) (peer : PeerId) : Slot → BehaviourAction Rq Tx
  | .connection _ => .outboundFailure peer r .dialFailure
  | .peerRule _ d | .approval d => notPermitted d peer r

omit [PeerConnectionManager C] in
theorem requestStore_foldl_take (f : RequestManager Rq Tx C → RequestId → RequestManager Rq Tx C)
    (direction : RequestDirection)
    (takes : ∀ s requestId, (f s requestId).requestStore = (s.takeStoredRequest requestId direction).2.requestStore)
    (d : RequestDirection) (r : RequestId) :
    ∀ (requests : List RequestId) (s : RequestManager Rq Tx C),
      (requests.foldl f s).requestStore d r = if d = direction ∧ r ∈ requests then none else s.requestStore d r
  | [], s => by simp
  | requestId :: requests, s => by
      rw [List.foldl_cons, requestStore_foldl_take f direction takes d r requests, takes,
        requestStore_takeStoredRequest]
      by_cases same : d = direction <;> by_cases hit : r = requestId <;> simp [same, hit]

omit [PeerConnectionManager C] in
theorem actions_foldl_failDial (peer : PeerId) (requests : List RequestId) (s : RequestManager Rq Tx C) :
    (requests.foldl (failDial peer) s).actions =
      s.actions ++ requests.map fun requestId => .outboundFailure peer requestId .dialFailure := by
  induction requests generalizing s with
  | nil => simp
  | cons requestId requests ih =>
      rw [List.foldl_cons, ih]
      simp [failDial, pushBack, takeStoredRequest]

section Release

variable {s : RequestManager Rq Tx C} {r : RequestId}

/-- From `s` to `s'` request `r` left the stores, and every action queued meanwhile that settles
`r` is `failure`. -/
structure Released (s s' : RequestManager Rq Tx C) (r : RequestId) (failure : BehaviourAction Rq Tx) : Prop where
  gone : ∀ d, s'.requestStore d r = none
  failures : ∃ pushed, s'.actions = s.actions ++ pushed ∧ ∀ action ∈ pushed, action.settles r = true → action = failure

omit [PeerConnectionManager C] in
theorem WellFormed.flip_none (wf : WellFormed s) {d : RequestDirection} {entry : PeerId × RequestMessage Rq Tx}
    (stored : s.requestStore d r = some entry) : s.requestStore d.flip r = none := by
  cases d <;> simp only [requestStore, RequestDirection.flip] at stored ⊢ <;> simpa [stored] using wf.disjoint r

omit [PeerConnectionManager C] in
theorem WellFormed.slot_eq (wf : WellFormed s) {slot slot' : Slot} (mem : r ∈ waitingAt s slot)
    (mem' : r ∈ waitingAt s slot') : slot' = slot := by
  have once := wf.waiting_once r slot mem slot'
  by_contra other
  rw [if_neg other] at once
  exact List.count_eq_zero.mp once mem'

omit [PeerConnectionManager C] in
theorem coveredRules_getD {peer : PeerId} {awaitRule : RequestDirection → Option (List RequestId)}
    (found : s.awaitingPeerRule peer = some awaitRule) (dir : RuleDirection) (d : RequestDirection) :
    (coveredRules awaitRule dir d).getD [] = if dir.covers d = true then waitingAt s (.peerRule peer d) else [] := by
  unfold coveredRules
  split <;> simp [waitingAt, found]

omit [PeerConnectionManager C] in
theorem releases_connection (wf : WellFormed s) {peer : PeerId} (waiting : r ∈ waitingAt s (.connection peer)) :
    Released s (s.onDialFailure peer) r ((Slot.connection peer).failure r peer) := by
  obtain ⟨request, stored⟩ := wf.connection_stored peer r waiting
  have inbound := wf.flip_none (d := .outbound) stored
  rcases found : s.awaitingConnection peer with _ | requests
  · simp [waitingAt, found] at waiting
  · have mem : r ∈ requests := by simpa [waitingAt, found] using waiting
    simp only [onDialFailure, found]
    refine ⟨fun d => ?_, _, actions_foldl_failDial peer requests _, fun action pushed settles => ?_⟩
    · rw [requestStore_foldl_take (failDial peer) .outbound (fun _ _ => rfl)]
      cases d
      · exact inbound
      · simp [mem]
    · obtain ⟨r0, -, rfl⟩ := List.mem_map.mp pushed
      have reports : (BehaviourAction.outboundFailure peer r0 .dialFailure : BehaviourAction Rq Tx).outcome =
          some (r0, peer, .outbound) := rfl
      obtain rfl := settles_of_outcome reports r settles
      rfl

omit [PeerConnectionManager C] in
theorem releases_peerRule (wf : WellFormed s) {peer : PeerId} {d : RequestDirection}
    (waiting : r ∈ waitingAt s (.peerRule peer d)) {dir : RuleDirection} (covered : dir.covers d = true) :
    Released s (s.onNoPeerRule peer dir) r ((Slot.peerRule peer d).failure r peer) := by
  obtain ⟨request, stored⟩ := wf.peerRule_stored peer d r waiting
  have other := wf.flip_none stored
  rcases found : s.awaitingPeerRule peer with _ | awaitRule
  · simp [waitingAt, found] at waiting
  · have mem : r ∈ (awaitRule d).getD [] := by simpa [waitingAt, found] using waiting
    have listed : ∀ d', r ∈ (coveredRules awaitRule dir d').getD [] → d' = d := fun d' mem' => by
      rw [coveredRules_getD found] at mem'
      split at mem'
      · exact (Slot.peerRule.inj (wf.slot_eq waiting mem')).2
      · simp at mem'
    rw [onNoPeerRule_eq]
    simp only [found]
    refine ⟨fun d' => ?_, _, by rw [actions_restorePeerRule, actions_foldl_rejectAwaiting,
      actions_foldl_rejectAwaiting, List.append_assoc], fun action pushed settles => ?_⟩
    · rw [requestStore_restorePeerRule, requestStore_foldl_take (rejectAwaiting peer .outbound) .outbound
        (fun _ _ => rfl), requestStore_foldl_take (rejectAwaiting peer .inbound) .inbound (fun _ _ => rfl)]
      cases d <;> cases d' <;> simp_all [coveredRules, requestStore, RequestDirection.flip]
    · obtain ⟨d', r0, taken, rfl⟩ : ∃ d' r0, r0 ∈ (coveredRules awaitRule dir d').getD [] ∧
          action = notPermitted d' peer r0 := by
        rcases List.mem_append.mp pushed with pushed | pushed <;> obtain ⟨r0, taken, rfl⟩ := List.mem_map.mp pushed
        exacts [⟨_, r0, taken, rfl⟩, ⟨_, r0, taken, rfl⟩]
      obtain rfl := settles_of_outcome (notPermitted_outcome d' peer r0) r settles
      obtain rfl := listed d' taken
      rfl

theorem releases_approval (wf : WellFormed s) (sorted : s.awaitingApproval.Pairwise (·.1 < ·.1))
    {d : RequestDirection} (waiting : r ∈ waitingAt s (.approval d)) {peer : PeerId} {request : RequestMessage Rq Tx}
    (stored : s.requestStore d r = some (peer, request)) :
    Released s (s.onRequestApproval r false).2 r ((Slot.approval d).failure r peer) := by
  have mem := mem_waitingAt_approval.mp waiting
  have other := wf.flip_none stored
  obtain ⟨index, found⟩ := List.mem_iff_getElem?.mp mem
  rw [onRequestApproval_of_search (binarySearchBy_of_sorted sorted found) found,
    handleRequestApproval_false (s := { s with awaitingApproval := s.awaitingApproval.eraseIdx index }) stored]
  refine ⟨fun d' => ?_, [notPermitted d peer r], by cases d <;> rfl, fun action pushed _ => List.mem_singleton.mp pushed⟩
  simp only [requestStore_pushBack, requestStore_takeStoredRequest]
  by_cases same : d' = d
  · simp [same]
  · obtain rfl : d' = d.flip := RequestDirection.eq_flip_of_ne same
    simpa using other

/-- The call that ends the wait of `r` at its place runs, takes `r` from its store and queues the
failure of that place for it, under the peer it is stored with. -/
theorem releases (wf : WellFormed s) {slot : Slot} (waiting : r ∈ waitingAt s slot)
    (sorted : ∀ d, slot = .approval d → s.awaitingApproval.Pairwise (·.1 < ·.1)) (fw : Firewall Rq P Q V) :
    ∃ s' peer d request, (slot.release r : Op Rq Tx Q).exec fw s = some s' ∧
      s.requestStore d r = some (peer, request) ∧ Released s s' r (slot.failure r peer) := by
  cases slot with
  | connection peer =>
      obtain ⟨request, stored⟩ := wf.connection_stored peer r waiting
      exact ⟨_, peer, .outbound, request, rfl, stored, releases_connection wf waiting⟩
  | peerRule peer d =>
      obtain ⟨request, stored⟩ := wf.peerRule_stored peer d r waiting
      cases d <;> exact ⟨_, peer, _, request, rfl, stored, releases_peerRule wf waiting rfl⟩
  | approval d =>
      obtain ⟨peer, request, stored⟩ := wf.approval_stored r d (mem_waitingAt_approval.mp waiting)
      exact ⟨_, peer, d, request, rfl, stored, releases_approval wf (sorted d rfl) waiting stored⟩

omit [PeerConnectionManager C] in
theorem Slot.release_decides (r : RequestId) (slot : Slot) : (slot.release r : Op Rq Tx Q).decides = true := by
  cases slot with
  | peerRule _ d => cases d <;> rfl
  | _ => rfl

omit [PeerConnectionManager C] in
theorem Slot.release_admits (r : RequestId) (slot : Slot) : (slot.release r : Op Rq Tx Q).admits = none := by
  cases slot with
  | peerRule _ d => cases d <;> rfl
  | _ => rfl

/-- Every request a reachable manager holds, at any place, is taken from its store and from every
waiting list by the call that ends its wait, and gets its one outcome, the failure of that place
under the peer it is stored with: `DialFailure` for a connection, `NotPermitted` for a rule or an
approval; for a request awaiting approval, on an `awaiting_approval` sorted by id. -/
theorem reachable_release {fw : Firewall Rq P Q V} {ops : List (Op Rq Tx Q)} {log : List (BehaviourAction Rq Tx)}
    (reach : Reachable fw ops s log) {slot : Slot} (waiting : r ∈ waitingAt s slot)
    (sorted : ∀ d, slot = .approval d → s.awaitingApproval.Pairwise (·.1 < ·.1)) :
    ∃ (s' : RequestManager Rq Tx C) (log' : List (BehaviourAction Rq Tx)),
      Reachable fw (ops ++ [slot.release r]) s' log' ∧ (∀ d, s'.requestStore d r = none) ∧
        (∀ slot', r ∉ waitingAt s' slot') ∧
        ∃ peer d request, s.requestStore d r = some (peer, request) ∧ outcomes log' r = [slot.failure r peer] := by
  have inv := reach.invariant
  obtain ⟨s', peer, d, request, exec, held, gone, pushed, actions, failures⟩ := releases inv.wellFormed waiting sorted fw
  have reach' := reach.step (fun _ admits => by simp [Slot.release_admits] at admits) exec
  rw [Slot.release_decides, if_pos rfl, queued_of_actions actions] at reach'
  obtain ⟨a, post, admitted, stored, -⟩ := (inv r).waiting_of_mem waiting
  have silent : outcomes log r = [] := ((inv r).outcomes_of_admitted admitted).2.1.mpr ⟨_, _, stored⟩
  have tracked := reach'.invariant r
  unfold Tracked at tracked
  rw [admissionIn_append, admitted] at tracked
  rcases tracked with ⟨kept, -⟩ | ⟨-, nowhere, action, single, -⟩
  · simp [gone] at kept
  · have fromCall : outcomes pushed r = [action] := by rwa [outcomes_append, silent, List.nil_append] at single
    have mem := List.mem_filter.mp (fromCall ▸ List.mem_singleton_self action)
    refine ⟨s', _, reach', gone, fun slot' => ?_, peer, d, request, held, by rw [single, failures action mem.1 mem.2]⟩
    simpa [occurrences, List.count_eq_zero] using nowhere (.waiting slot')

end Release

theorem refused_release :
    ∃ (s : RequestManager Nat Unit Connections) (log : List (BehaviourAction Nat Unit)),
      Reachable sampleFirewall [.onNewRequest 7 1 ⟨5, ()⟩ .missingApproval .inbound] s log ∧
      1 ∈ waitingAt s (.approval .inbound) ∧
      ∃ (s' : RequestManager Nat Unit Connections) (log' : List (BehaviourAction Nat Unit)),
        Reachable sampleFirewall
          ([.onNewRequest 7 1 ⟨5, ()⟩ .missingApproval .inbound] ++ [(Slot.approval .inbound).release 1]) s' log' ∧
        (∀ d, s'.requestStore d 1 = none) ∧ (∀ slot', 1 ∉ waitingAt s' slot') ∧
        ∃ peer d request, s.requestStore d 1 = some (peer, request) ∧
          outcomes log' 1 = [(Slot.approval .inbound).failure 1 peer] := by
  have reach : Reachable sampleFirewall [.onNewRequest 7 1 ⟨5, ()⟩ .missingApproval .inbound] _ _ :=
    .step (C := Connections) .new (fun _ admits => by cases admits; decide) rfl
  exact ⟨_, _, reach, by decide, reachable_release reach (by decide) (fun _ _ => by decide)⟩

section NoRule

variable {s : RequestManager Rq Tx C}

theorem applyRules_noRule_fst (fw : Firewall Rq P Q V) (t : RequestManager Rq Tx C) :
    ∀ requests : List (RequestId × RequestDirection), (t.applyRules fw ⟨none, none⟩ requests).1 = []
  | [] => rfl
  | (r0, d) :: rest => by
      have quiet : (t.applyRule fw ⟨none, none⟩ r0 d).1 = none := by cases d <;> rfl
      simp only [applyRules, quiet, Option.toList_none, List.nil_append]
      exact applyRules_noRule_fst fw _ rest

theorem foldl_applyRule_noRule (fw : Firewall Rq P Q V) (peer : PeerId) (d : RequestDirection) :
    ∀ (ids : List RequestId) (t : RequestManager Rq Tx C), ids.Nodup →
      (∀ r0 ∈ ids, ∃ request, t.requestStore d r0 = some (peer, request)) →
        ids.foldl (fun t r0 => (t.applyRule fw ⟨none, none⟩ r0 d).2) t = ids.foldl (rejectAwaiting peer d) t
  | [], _, _, _ => rfl
  | r0 :: rest, t, nodup, stored => by
      obtain ⟨request, held⟩ := stored r0 (.head _)
      have turn : (t.applyRule fw ⟨none, none⟩ r0 d).2 = rejectAwaiting peer d t r0 := by
        have noRule : (⟨none, none⟩ : FirewallRules Q).rule d = none := by cases d <;> rfl
        simp only [applyRule, noRule, handleRequestApproval_false held]
        rfl
      rw [List.foldl_cons, List.foldl_cons, turn]
      refine foldl_applyRule_noRule fw peer d rest _ (List.nodup_cons.mp nodup).2 fun r1 mem => ?_
      have other : r1 ≠ r0 := fun same => (List.nodup_cons.mp nodup).1 (same ▸ mem)
      obtain ⟨request1, held1⟩ := stored r1 (.tail _ mem)
      exact ⟨request1, by simp [rejectAwaiting, requestStore_takeStoredRequest, other, held1]⟩

omit [PeerConnectionManager C] in
theorem WellFormed.nodup_waitingAt (wf : WellFormed s) (slot : Slot) : (waitingAt s slot).Nodup :=
  List.nodup_iff_count_le_one.mpr fun r0 => by
    by_cases mem : r0 ∈ waitingAt s slot
    · rw [wf.waiting_once r0 slot mem slot, if_pos rfl]
    · rw [List.count_eq_zero.mpr mem]
      exact Nat.zero_le 1

/-- On a reachable manager, `on_no_peer_rule(peer, dir)` leaves the manager as
`on_peer_rule(peer, rules, dir)` does when `rules` has no rule for either direction, and that call
reports no request for approval. -/
theorem reachable_onNoPeerRule_eq {fw : Firewall Rq P Q V} {ops : List (Op Rq Tx Q)}
    {log : List (BehaviourAction Rq Tx)} (reach : Reachable fw ops s log) (peer : PeerId) (dir : RuleDirection) :
    s.onPeerRule fw peer ⟨none, none⟩ dir = ((s.awaitingPeerRule peer).map fun _ => [], s.onNoPeerRule peer dir) := by
  have wf := reach.invariant.wellFormed
  rw [onPeerRule_eq, onNoPeerRule_eq]
  rcases found : s.awaitingPeerRule peer with _ | awaitRule
  · rfl
  · have covered := coveredRules_getD found dir
    have nodup : ∀ d, ((coveredRules awaitRule dir d).getD []).Nodup := fun d => by
      rw [covered]
      split
      · exact wf.nodup_waitingAt _
      · exact List.nodup_nil
    have stored : ∀ d, ∀ r0 ∈ (coveredRules awaitRule dir d).getD [],
        ∃ request, s.requestStore d r0 = some (peer, request) := fun d r0 mem => by
      rw [covered] at mem
      split at mem
      · exact wf.peerRule_stored peer d r0 mem
      · simp at mem
    dsimp only
    rw [applyRules_noRule_fst, applyRules_snd]
    simp only [Option.map_some', ruleRequests, List.foldl_append, List.foldl_map]
    rw [foldl_applyRule_noRule fw peer .inbound _ { s with awaitingPeerRule := Function.update s.awaitingPeerRule peer none }
        (nodup .inbound) (stored .inbound),
      foldl_applyRule_noRule fw peer .outbound _ _ (nodup .outbound) fun r0 mem => ?_]
    rw [requestStore_foldl_take (rejectAwaiting peer .inbound) .inbound (fun _ _ => rfl)]
    exact stored .outbound r0 mem

end NoRule

theorem no_rule_refuses :
    ∃ (s : RequestManager Nat Unit Connections) (log : List (BehaviourAction Nat Unit)),
      Reachable sampleFirewall [.onNewRequest 7 1 ⟨5, ()⟩ .missingRule .inbound] s log ∧
      s.onPeerRule sampleFirewall 7 ⟨none, none⟩ .inbound =
        ((s.awaitingPeerRule 7).map fun _ => [], s.onNoPeerRule 7 .inbound) := by
  have reach : Reachable sampleFirewall [.onNewRequest 7 1 ⟨5, ()⟩ .missingRule .inbound] _ _ :=
    .step (C := Connections) .new (fun _ admits => by cases admits; decide) rfl
  exact ⟨_, _, reach, reachable_onNoPeerRule_eq reach 7 .inbound⟩

end P2p
