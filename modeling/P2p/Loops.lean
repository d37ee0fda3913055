import P2p.Steps

/-!
The loops of the deciding methods: the `for_each` closure of `on_peer_connected`, the `foldl`s of
`on_dial_failure` and `on_no_peer_rule`, and the `filter_map` of `on_peer_rule`. A loop first takes
the requests of the slots it empties in hand; each turn handles the request at the head of the
hand (`Tracked.handle`); `on_peer_rule` and `on_no_peer_rule` end by putting the lists of the
directions the rule does not cover back under the peer (`restorePeerRule`).
-/

namespace P2p

open PeerConnectionManager RequestManager

variable {Rq Tx C P Q V : Type} [PeerConnectionManager C] {fw : Firewall Rq P Q V}
  {ops : List (Op Rq Tx Q)}

/-- From `s` to `s'` the running method queued actions; with them in the log every request is
tracked, `taken` being what the method still holds. -/
def Advances (fw : Firewall Rq P Q V) (ops : List (Op Rq Tx Q)) (s s' : RequestManager Rq Tx C)
    (log : List (BehaviourAction Rq Tx)) (taken : List (RequestId × Slot)) : Prop :=
  ∃ pushed, s'.actions = s.actions ++ pushed ∧ ∀ r, Tracked fw ops s' (log ++ pushed) taken r

namespace Advances

variable {s s' s'' : RequestManager Rq Tx C} {log : List (BehaviourAction Rq Tx)}
  {taken taken' : List (RequestId × Slot)}

theorem trans (first : Advances fw ops s s' log taken)
    (second : ∀ log', (∀ r, Tracked fw ops s' log' taken r) → Advances fw ops s' s'' log' taken') :
    Advances fw ops s s'' log taken' := by
  obtain ⟨pushed, actions, tracked⟩ := first
  obtain ⟨more, actions', tracked'⟩ := second _ tracked
  exact ⟨pushed ++ more, by rw [actions', actions, List.append_assoc], by simpa using tracked'⟩

theorem quiet (actions : s'.actions = s.actions) (tracked : ∀ r, Tracked fw ops s' log taken r) :
    Advances fw ops s s' log taken :=
  ⟨[], by simp [actions], by simpa using tracked⟩

theorem refl (tracked : ∀ r, Tracked fw ops s log taken r) : Advances fw ops s s log taken :=
  quiet rfl tracked

end Advances

omit [PeerConnectionManager C] in
theorem queued_of_actions {s s' : RequestManager Rq Tx C} {pushed : List (BehaviourAction Rq Tx)}
    (actions : s'.actions = s.actions ++ pushed) : queued s s' = pushed := by
  simp [queued, actions]

/-- The running method handles the request at the head of its hand and touches no other. -/
theorem Tracked.handle {s s' : RequestManager Rq Tx C} {log : List (BehaviourAction Rq Tx)}
    {r0 : RequestId} {origin : Slot} {rest : List (RequestId × Slot)}
    (tracked : ∀ r, Tracked fw ops s log ((r0, origin) :: rest) r)
    (moved : ∀ a post, admissionIn r0 ops = some (a, post) → InHand fw s log rest r0 a post origin →
      ∃ pushed, Touches r0 s s' pushed ∧
        (Waiting fw s' (log ++ pushed) rest r0 a post ∨ Settled fw s' (log ++ pushed) rest r0 a post)) :
    Advances fw ops s s' log rest := by
  obtain ⟨a, post, admitted, inHand⟩ := (tracked r0).pop
  obtain ⟨pushed, touches, fate⟩ := moved a post admitted inHand
  refine ⟨pushed, touches.actions, fun r => ?_⟩
  by_cases same : r = r0
  · subst same
    unfold Tracked
    rw [admitted]
    exact fate
  · exact (tracked r).congr (touches.agree same fun _ => by simp [List.count_cons, Ne.symm same])

/-- A loop over `items` whose turn handles the request its item names. -/
theorem Advances.foldl {α : Type} (key : α → RequestId × Slot)
    (step : RequestManager Rq Tx C → α → RequestManager Rq Tx C) {items : List α}
    (turn : ∀ x ∈ items, ∀ s log rest, (∀ r, Tracked fw ops s log (key x :: rest) r) →
      Advances fw ops s (step s x) log rest) :
    ∀ {s log rest}, (∀ r, Tracked fw ops s log (items.map key ++ rest) r) →
      Advances fw ops s (items.foldl step s) log rest := by
  induction items with
  | nil => exact fun tracked => .refl (by simpa using tracked)
  | cons x items ih =>
      intro s log rest tracked
      exact (turn x (.head _) s log _ tracked).trans fun _ tracked' =>
        ih (fun y mem => turn y (.tail _ mem)) tracked'

/-- Both methods take every request awaiting a connection to `peer` in hand. -/
theorem Tracked.takeConnection {s : RequestManager Rq Tx C} {log : List (BehaviourAction Rq Tx)}
    {r : RequestId} {peer : PeerId} {requests : List RequestId}
    (found : s.awaitingConnection peer = some requests) (tracked : Tracked fw ops s log [] r) :
    Tracked fw ops { s with awaitingConnection := Function.update s.awaitingConnection peer none } log
      (requests.map (·, .connection peer)) r := by
  refine tracked.exchange (· == .connection peer) (fun slot hit => ?_) (fun slot miss => ?_) rfl rfl
  · obtain rfl : slot = .connection peer := by simpa using hit
    simp [waitingAt, found, count_map_pair]
  · have other : slot ≠ .connection peer := by simpa using miss
    refine ⟨?_, by simp [count_map_pair, other]⟩
    cases slot with
    | connection p => simp [waitingAt, Function.update_apply, show p ≠ peer by simpa using other]
    | _ => rfl

/-- The `for_each` closure of `on_peer_connected` settles every request it holds. -/
theorem Advances.flushConnection {peer : PeerId} :
    ∀ {requests : List RequestId} {s s' : RequestManager Rq Tx C} {log : List (BehaviourAction Rq Tx)},
      (∀ r, Tracked fw ops s log (requests.map (·, .connection peer)) r) →
      s.flushConnection requests = some s' → Advances fw ops s s' log []
  | [], s, s', log, tracked, flushed => by
      obtain rfl : s = s' := by simpa [RequestManager.flushConnection] using flushed
      exact .refl tracked
  | r0 :: rest, s, s', log, tracked, flushed => by
      obtain ⟨a, post, admitted, inHand⟩ := (tracked r0).pop
      obtain ⟨rfl, outbound⟩ := inHand.2.2.2.2.1
      have stored : s.requestStore .outbound r0 = some (a.peer, a.request) := outbound ▸ inHand.1
      rw [flushConnection_cons_of_stored stored] at flushed
      rcases added : addRequest s.connections a.peer r0 .outbound with ⟨_ | connection, connections⟩
      · simp [added] at flushed
      · simp only [added] at flushed
        refine (Tracked.handle tracked fun a' post' admitted' inHand' => ?_).trans
          fun _ tracked' => Advances.flushConnection tracked' flushed
        obtain ⟨rfl, rfl⟩ : a = a' ∧ post = post' := by simpa [admitted] using admitted'
        obtain ⟨settled, touches⟩ := flush_inHand inHand' added
        exact ⟨_, touches, .inr settled⟩

/-- The lists of `awaitRule` in the directions `dir` covers. -/
def coveredRules (awaitRule : RequestDirection → Option (List RequestId)) (dir : RuleDirection) :
    RequestDirection → Option (List RequestId) :=
  fun d => if dir.covers d then awaitRule d else none

/-- The lists of `awaitRule` in the directions `dir` does not cover. -/
def remnantRules (awaitRule : RequestDirection → Option (List RequestId)) (dir : RuleDirection) :
    RequestDirection → Option (List RequestId) :=
  fun d => if dir.covers d then none else awaitRule d

/-- The ids of a per-direction map with their direction, the inbound list first. -/
def ruleRequests (awaitRule : RequestDirection → Option (List RequestId)) :
    List (RequestId × RequestDirection) :=
  ((awaitRule .inbound).getD []).map (·, .inbound) ++ ((awaitRule .outbound).getD []).map (·, .outbound)

/-- The slot of `awaiting_peer_rule[peer]` an id of a direction waits in. -/
def ruleSlot (peer : PeerId) (entry : RequestId × RequestDirection) : RequestId × Slot :=
  (entry.1, .peerRule peer entry.2)

def Slot.ofPeerRule (peer : PeerId) : Slot → Bool
  | .peerRule p _ => p == peer
  | _ => false

/-- The end of `on_peer_rule` and `on_no_peer_rule`: the lists in `awaitRule` go back under `peer`,
and the entry stays removed if there is none. -/
def restorePeerRule (s : RequestManager Rq Tx C) (peer : PeerId)
    (awaitRule : RequestDirection → Option (List RequestId)) : RequestManager Rq Tx C :=
  if !isEmpty awaitRule then
    { s with awaitingPeerRule := Function.update s.awaitingPeerRule peer (some awaitRule) }
  else s

omit [PeerConnectionManager C] in
theorem remnantRules_eq (awaitRule : RequestDirection → Option (List RequestId)) (dir : RuleDirection) :
    (if dir.isOutbound then Function.update
        (if dir.isInbound then Function.update awaitRule .inbound none else awaitRule) .outbound none
      else if dir.isInbound then Function.update awaitRule .inbound none else awaitRule) =
      remnantRules awaitRule dir := by
  funext d
  cases dir <;> cases d <;> rfl

theorem onPeerRule_eq (s : RequestManager Rq Tx C) (peer : PeerId) (rules : FirewallRules Q)
    (dir : RuleDirection) :
    s.onPeerRule fw peer rules dir =
      match s.awaitingPeerRule peer with
      | none => (none, s)
      | some awaitRule =>
          let requireAsk := { s with awaitingPeerRule := Function.update s.awaitingPeerRule peer none }.applyRules
            fw rules (ruleRequests (coveredRules awaitRule dir))
          (some requireAsk.1, restorePeerRule requireAsk.2 peer (remnantRules awaitRule dir)) := by
  rw [onPeerRule]
  rcases s.awaitingPeerRule peer with _ | awaitRule
  · rfl
  · have requests : ((if dir.isInbound then awaitRule .inbound else none).getD []).map (·, .inbound) ++
        ((if dir.isOutbound then (if dir.isInbound then Function.update awaitRule .inbound none
          else awaitRule) .outbound else none).getD []).map (·, .outbound) =
        ruleRequests (coveredRules awaitRule dir) := by
      cases dir <;> rfl
    simp only [requests, remnantRules_eq]
    unfold restorePeerRule
    split <;> rfl

omit [PeerConnectionManager C] in
theorem onNoPeerRule_eq (s : RequestManager Rq Tx C) (peer : PeerId) (dir : RuleDirection) :
    s.onNoPeerRule peer dir =
      match s.awaitingPeerRule peer with
      | none => s
      | some awaitRule =>
          restorePeerRule (((coveredRules awaitRule dir .outbound).getD []).foldl (rejectAwaiting peer .outbound)
            (((coveredRules awaitRule dir .inbound).getD []).foldl (rejectAwaiting peer .inbound)
              { s with awaitingPeerRule := Function.update s.awaitingPeerRule peer none }))
            peer (remnantRules awaitRule dir) := by
  rw [onNoPeerRule]
  rcases s.awaitingPeerRule peer with _ | awaitRule
  · rfl
  · simp only [remnantRules_eq]
    cases dir <;> rfl

omit [PeerConnectionManager C] in
theorem awaitingPeerRule_of_take {s s' : RequestManager Rq Tx C} {r : RequestId} {d : RequestDirection}
    {entry : Option (PeerId × RequestMessage Rq Tx)} (taken : s.takeStoredRequest r d = (entry, s')) :
    s'.awaitingPeerRule = s.awaitingPeerRule := by
  cases d <;> simp only [takeStoredRequest, Prod.mk.injEq] at taken <;> rw [← taken.2]

theorem awaitingPeerRule_handleRequestApproval (s : RequestManager Rq Tx C) (r : RequestId)
    (d : RequestDirection) (isAllowed : Bool) :
    (s.handleRequestApproval r d isAllowed).2.awaitingPeerRule = s.awaitingPeerRule := by
  unfold handleRequestApproval
  split
  · split <;> rename_i taken <;> have frame := awaitingPeerRule_of_take taken <;> exact frame
  · split
    · rfl
    · split
      · split <;> rename_i taken <;> have frame := awaitingPeerRule_of_take taken <;> exact frame
      · split
        · split <;> rename_i taken <;> have frame := awaitingPeerRule_of_take taken <;> exact frame
        · rfl

theorem awaitingPeerRule_applyRule (fw : Firewall Rq P Q V) (rules : FirewallRules Q) (s : RequestManager Rq Tx C) (r : RequestId)
    (d : RequestDirection) : (s.applyRule fw rules r d).2.awaitingPeerRule = s.awaitingPeerRule := by
  unfold applyRule
  split <;> (try split) <;> simp [awaitingPeerRule_handleRequestApproval]

theorem applyRules_snd (rules : FirewallRules Q) (s : RequestManager Rq Tx C)
    (requests : List (RequestId × RequestDirection)) :
    (s.applyRules fw rules requests).2 =
      requests.foldl (fun s entry => (s.applyRule fw rules entry.1 entry.2).2) s := by
  induction requests generalizing s with
  | nil => rfl
  | cons entry requests ih => exact ih _

omit [PeerConnectionManager C] in
theorem awaitingPeerRule_foldl {α : Type} (step : RequestManager Rq Tx C → α → RequestManager Rq Tx C)
    (frame : ∀ s x, (step s x).awaitingPeerRule = s.awaitingPeerRule) (items : List α)
    (s : RequestManager Rq Tx C) : (items.foldl step s).awaitingPeerRule = s.awaitingPeerRule := by
  induction items generalizing s with
  | nil => rfl
  | cons x items ih => rw [List.foldl_cons, ih, frame]

omit [PeerConnectionManager C] in
theorem ruleRequests_map_ruleSlot (peer : PeerId) (awaitRule : RequestDirection → Option (List RequestId)) :
    (ruleRequests awaitRule).map (ruleSlot peer) =
      ((awaitRule .inbound).getD []).map (·, .peerRule peer .inbound) ++
        ((awaitRule .outbound).getD []).map (·, .peerRule peer .outbound) := by
  simp [ruleRequests, ruleSlot, Function.comp_def]

omit [PeerConnectionManager C] in
theorem count_ruleRequests (peer : PeerId) (awaitRule : RequestDirection → Option (List RequestId))
    (r : RequestId) (d : RequestDirection) :
    ((ruleRequests awaitRule).map (ruleSlot peer)).count (r, .peerRule peer d) = ((awaitRule d).getD []).count r := by
  cases d <;> simp [ruleRequests_map_ruleSlot, count_map_pair]

omit [PeerConnectionManager C] in
theorem count_ruleRequests_of_not (peer : PeerId) (awaitRule : RequestDirection → Option (List RequestId))
    (r : RequestId) {slot : Slot} (other : slot.ofPeerRule peer = false) :
    ((ruleRequests awaitRule).map (ruleSlot peer)).count (r, slot) = 0 := by
  have inbound : slot ≠ .peerRule peer .inbound := by rintro rfl; simp [Slot.ofPeerRule] at other
  have outbound : slot ≠ .peerRule peer .outbound := by rintro rfl; simp [Slot.ofPeerRule] at other
  simp [ruleRequests_map_ruleSlot, count_map_pair, inbound, outbound]

omit [PeerConnectionManager C] in
theorem count_covered_add_remnant (awaitRule : RequestDirection → Option (List RequestId)) (dir : RuleDirection)
    (d : RequestDirection) (r : RequestId) :
    ((coveredRules awaitRule dir d).getD []).count r + ((remnantRules awaitRule dir d).getD []).count r =
      ((awaitRule d).getD []).count r := by
  unfold coveredRules remnantRules
  split <;> simp

omit [PeerConnectionManager C] in
theorem Slot.eq_of_ofPeerRule {peer : PeerId} {slot : Slot} (hit : slot.ofPeerRule peer = true) :
    ∃ d, slot = .peerRule peer d := by
  cases slot <;> simp_all [Slot.ofPeerRule]

omit [PeerConnectionManager C] in
theorem waitingAt_dropPeerRule (s : RequestManager Rq Tx C) (peer : PeerId) (slot : Slot) :
    waitingAt { s with awaitingPeerRule := Function.update s.awaitingPeerRule peer none } slot =
      if slot.ofPeerRule peer then [] else waitingAt s slot := by
  cases slot with
  | peerRule p d =>
      by_cases same : p = peer
      · subst same; simp [waitingAt, Slot.ofPeerRule]
      · simp [waitingAt, Slot.ofPeerRule, same]
  | _ => rfl

omit [PeerConnectionManager C] in
theorem waitingAt_restorePeerRule {s : RequestManager Rq Tx C} {peer : PeerId}
    (gone : s.awaitingPeerRule peer = none) (awaitRule : RequestDirection → Option (List RequestId))
    (d : RequestDirection) : waitingAt (restorePeerRule s peer awaitRule) (.peerRule peer d) = (awaitRule d).getD [] := by
  unfold restorePeerRule
  split
  · simp [waitingAt]
  · rename_i empty
    have none : awaitRule d = none := by
      cases d <;> simp_all [isEmpty]
    simp [waitingAt, gone, none]

omit [PeerConnectionManager C] in
theorem waitingAt_restorePeerRule_of_not (s : RequestManager Rq Tx C) (peer : PeerId)
    (awaitRule : RequestDirection → Option (List RequestId)) {slot : Slot} (other : slot.ofPeerRule peer = false) :
    waitingAt (restorePeerRule s peer awaitRule) slot = waitingAt s slot := by
  unfold restorePeerRule
  split
  · cases slot with
    | peerRule p d => simp_all [waitingAt, Slot.ofPeerRule, Function.update_apply]
    | _ => rfl
  · rfl

theorem Tracked.takePeerRule {s : RequestManager Rq Tx C} {log : List (BehaviourAction Rq Tx)}
    {r : RequestId} {peer : PeerId} {awaitRule : RequestDirection → Option (List RequestId)}
    (found : s.awaitingPeerRule peer = some awaitRule) (dir : RuleDirection)
    (tracked : Tracked fw ops s log [] r) :
    Tracked fw ops { s with awaitingPeerRule := Function.update s.awaitingPeerRule peer none } log
      ((ruleRequests (coveredRules awaitRule dir)).map (ruleSlot peer) ++
        (ruleRequests (remnantRules awaitRule dir)).map (ruleSlot peer)) r := by
  refine tracked.exchange (Slot.ofPeerRule peer) (fun slot hit => ?_) (fun slot miss => ?_) rfl rfl
  · obtain ⟨d, rfl⟩ := Slot.eq_of_ofPeerRule hit
    simp [waitingAt_dropPeerRule, hit, count_ruleRequests, count_covered_add_remnant, waitingAt, found]
  · simp [waitingAt_dropPeerRule, miss, count_ruleRequests_of_not _ _ _ miss]

theorem Tracked.restore {s : RequestManager Rq Tx C} {log : List (BehaviourAction Rq Tx)}
    {r : RequestId} {peer : PeerId} {awaitRule : RequestDirection → Option (List RequestId)}
    (gone : s.awaitingPeerRule peer = none)
    (tracked : Tracked fw ops s log ((ruleRequests awaitRule).map (ruleSlot peer)) r) :
    Tracked fw ops (restorePeerRule s peer awaitRule) log [] r := by
  refine tracked.exchange (Slot.ofPeerRule peer) (fun slot hit => ?_) (fun slot miss => ?_)
    (by unfold restorePeerRule; split <;> rfl) (by unfold restorePeerRule; split <;> rfl)
  · obtain ⟨d, rfl⟩ := Slot.eq_of_ofPeerRule hit
    rw [waitingAt_restorePeerRule gone, count_ruleRequests]
    simp [waitingAt, gone]
  · simp [waitingAt_restorePeerRule_of_not _ _ _ miss, count_ruleRequests_of_not _ _ _ miss]

omit [PeerConnectionManager C] in
theorem actions_restorePeerRule (s : RequestManager Rq Tx C) (peer : PeerId)
    (awaitRule : RequestDirection → Option (List RequestId)) :
    (restorePeerRule s peer awaitRule).actions = s.actions := by
  unfold restorePeerRule; split <;> rfl

omit [PeerConnectionManager C] in
theorem requestStore_restorePeerRule (s : RequestManager Rq Tx C) (peer : PeerId)
    (awaitRule : RequestDirection → Option (List RequestId)) :
    (restorePeerRule s peer awaitRule).requestStore = s.requestStore := by
  unfold restorePeerRule; split <;> rfl

end P2p
