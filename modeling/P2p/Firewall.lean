import P2p.Outcomes

/-!
The firewall over whole runs. A request reaches `awaiting_connection` or a `*Ready` action only in one
of the three ways `Permitted` names; this is read off the invariant. Conversely a call that denies a
request (`Denies`) queues the request's `NotPermitted` failure, and in every longer run that failure
stays the request's only outcome.
-/

namespace P2p

open PeerConnectionManager RequestManager

variable {Rq Tx C P Q V : Type} [PeerConnectionManager C] {fw : Firewall Rq P Q V}
  {ops : List (Op Rq Tx Q)} {s : RequestManager Rq Tx C} {log : List (BehaviourAction Rq Tx)}

/-- The call `op`, made in state `s`, denies request `r` on one of the firewall's paths: `r` is
admitted `Rejected`; while `r` awaits the rule, the rule found for its direction is none, or a
permission that does not permit it, or `on_no_peer_rule` covers its direction; or
`on_request_approval(r, false)` resolves it. -/
def Denies (fw : Firewall Rq P Q V) (s : RequestManager Rq Tx C) (r : RequestId) : Op Rq Tx Q → Prop
  | .onNewRequest _ requestId _ status _ => requestId = r ∧ status = .rejected
  | .onPeerRule peer rules dir => ∃ d, r ∈ waitingAt s (.peerRule peer d) ∧ dir.covers d ∧
      (rules.rule d = none ∨ ∃ q entry, rules.rule d = some (.permission q) ∧ s.requestStore d r = some entry ∧
        fw.permits q (fw.permissionValue entry.2.data) = false)
  | .onNoPeerRule peer dir => ∃ d, r ∈ waitingAt s (.peerRule peer d) ∧ dir.covers d
  | .onRequestApproval requestId isAllowed =>
      requestId = r ∧ isAllowed = false ∧ (s.onRequestApproval r false).1 = some ()
  | _ => False

theorem Tracked.outcomes_length_le {r : RequestId} (tracked : Tracked fw ops s log [] r) :
    (outcomes log r).length ≤ 1 := by
  unfold Tracked at tracked
  split at tracked
  · simp [tracked.2.2.1]
  · rcases tracked with ⟨-, -, silent, -⟩ | ⟨-, -, action, single, -⟩
    · simp [silent]
    · simp [single]

theorem Advances.foldl_event {α : Type} (key : α → RequestId × Slot)
    (step : RequestManager Rq Tx C → α → RequestManager Rq Tx C) {front back : List α} {x : α}
    (turn : ∀ y ∈ front ++ x :: back, ∀ s log rest, (∀ r, Tracked fw ops s log (key y :: rest) r) →
      Advances fw ops s (step s y) log rest)
    {action : BehaviourAction Rq Tx}
    (event : ∀ s log rest, (∀ r, Tracked fw ops s log (key x :: rest) r) → (step s x).actions = s.actions ++ [action])
    {rest : List (RequestId × Slot)} (tracked : ∀ r, Tracked fw ops s log ((front ++ x :: back).map key ++ rest) r) :
    action ∈ queued s ((front ++ x :: back).foldl step s) := by
  rw [List.foldl_append, List.foldl_cons]
  have split : ∀ r, Tracked fw ops s log (front.map key ++ (key x :: (back.map key ++ rest))) r := by
    simpa using tracked
  obtain ⟨before, actions, tracked₁⟩ :=
    Advances.foldl key step (fun y mem => turn y (by simp [mem])) split
  have hit := event _ _ _ tracked₁
  obtain ⟨_, -, tracked₂⟩ := turn x (by simp) _ _ _ tracked₁
  have later : Advances fw ops _ (back.foldl step (step (front.foldl step s) x)) _ rest :=
    Advances.foldl key step (fun y mem => turn y (by simp [mem])) tracked₂
  obtain ⟨after, actions', -⟩ := later
  simp [queued, actions', hit, actions]

omit [PeerConnectionManager C] in
theorem actions_foldl_rejectAwaiting (peer : PeerId) (d : RequestDirection) (requests : List RequestId)
    (s : RequestManager Rq Tx C) :
    (requests.foldl (rejectAwaiting peer d) s).actions = s.actions ++ requests.map (notPermitted d peer) := by
  induction requests generalizing s with
  | nil => simp
  | cons r requests ih =>
      rw [List.foldl_cons, ih]
      cases d <;> simp [rejectAwaiting, pushBack, takeStoredRequest]

omit [PeerConnectionManager C] in
theorem awaitRule_of_waiting {peer : PeerId} {d : RequestDirection} {r : RequestId}
    (waiting : r ∈ waitingAt s (.peerRule peer d)) :
    ∃ awaitRule, s.awaitingPeerRule peer = some awaitRule ∧ r ∈ (awaitRule d).getD [] := by
  simp only [waitingAt] at waiting
  cases found : s.awaitingPeerRule peer with
  | none => simp [found] at waiting
  | some awaitRule => exact ⟨awaitRule, rfl, by simpa [found] using waiting⟩

omit [PeerConnectionManager C] in
theorem mem_coveredRules {awaitRule : RequestDirection → Option (List RequestId)} {dir : RuleDirection}
    {d : RequestDirection} {r : RequestId} (mem : r ∈ (awaitRule d).getD []) (covered : dir.covers d = true) :
    r ∈ (coveredRules awaitRule dir d).getD [] := by
  simpa [coveredRules, covered] using mem

omit [PeerConnectionManager C] in
theorem mem_ruleRequests {awaitRule : RequestDirection → Option (List RequestId)} {d : RequestDirection}
    {r : RequestId} (mem : r ∈ (awaitRule d).getD []) : (r, d) ∈ ruleRequests awaitRule := by
  cases d <;> simp [ruleRequests, mem]

theorem onPeerRule_queues {peer : PeerId} {rules : FirewallRules Q} {dir : RuleDirection} {r : RequestId}
    {d : RequestDirection} (tracked : ∀ r, Tracked fw (ops ++ [.onPeerRule peer rules dir]) s log [] r)
    (waiting : r ∈ waitingAt s (.peerRule peer d)) (covered : dir.covers d = true)
    (denied : rules.rule d = none ∨ ∃ q entry, rules.rule d = some (.permission q) ∧ s.requestStore d r = some entry ∧
      fw.permits q (fw.permissionValue entry.2.data) = false) :
    notPermitted d peer r ∈ queued s (s.onPeerRule fw peer rules dir).2 := by
  obtain ⟨a, post, admitted, stored, -, ⟨rfl, rfl⟩, -⟩ := (tracked r).waiting_of_mem waiting
  obtain ⟨awaitRule, found, mem⟩ := awaitRule_of_waiting waiting
  obtain ⟨front, back, split⟩ := List.append_of_mem (mem_ruleRequests (mem_coveredRules mem covered))
  rw [onPeerRule_eq, found]
  simp only [applyRules_snd, queued, actions_restorePeerRule]
  rw [split]
  refine Advances.foldl_event (ruleSlot a.peer) _ (fun _ mem _ _ _ tracked => Advances.applyRule (split ▸ mem) tracked)
    (fun t log' rest tracked' => ?_) (by rw [← split]; exact fun r => (tracked r).takePeerRule found dir)
  obtain ⟨a', post', admitted', inHand⟩ := (tracked' r).pop
  rw [admitted, Option.some.injEq, Prod.mk.injEq] at admitted'
  obtain ⟨rfl, rfl⟩ := admitted'
  have decided : (t.applyRule fw rules r a.direction).2 = (t.handleRequestApproval r a.direction false).2 := by
    rw [applyRule_of_stored rules inHand.1 inHand.2.1]
    rcases denied with none | ⟨q, entry, permission, same, refused⟩
    · rw [none]
    · obtain rfl := Option.some.inj (stored.symm.trans same)
      rw [permission]
      simp only [refused]
  show (t.applyRule fw rules r a.direction).2.actions = _
  rw [decided, handleRequestApproval_false inHand.1]
  simp [pushBack, actions_takeStoredRequest]

theorem Denies.queues {r : RequestId} {op : Op Rq Tx Q} {s' : RequestManager Rq Tx C}
    (tracked : ∀ r, Tracked fw ops s log [] r) (denies : Denies fw s r op) (exec : op.exec fw s = some s') :
    ∃ peer d, notPermitted d peer r ∈ queued s s' := by
  cases op with
  | onNewRequest peer requestId request status d =>
      obtain ⟨rfl, rfl⟩ := denies
      cases exec
      exact ⟨peer, d, by simp [queued, RequestManager.onNewRequest, pushBack]⟩
  | onPeerRule peer rules dir =>
      obtain ⟨d, waiting, covered, denied⟩ := denies
      cases exec
      exact ⟨peer, d, onPeerRule_queues (fun r => (tracked r).extend rfl) waiting covered denied⟩
  | onNoPeerRule peer dir =>
      obtain ⟨d, waiting, covered⟩ := denies
      cases exec
      obtain ⟨awaitRule, found, mem⟩ := awaitRule_of_waiting waiting
      refine ⟨peer, d, ?_⟩
      rw [onNoPeerRule_eq, found]
      simp only [queued, actions_restorePeerRule, actions_foldl_rejectAwaiting, List.append_assoc,
        List.drop_left, List.mem_append, List.mem_map]
      cases d
      · exact .inl ⟨r, mem_coveredRules mem covered, rfl⟩
      · exact .inr ⟨r, mem_coveredRules mem covered, rfl⟩
  | onRequestApproval requestId isAllowed =>
      obtain ⟨rfl, rfl, resolved⟩ := denies
      cases exec
      rcases onRequestApproval_cases s requestId false with same | ⟨front, back, d, whole, same⟩ <;>
        rw [same] at resolved ⊢
      · cases resolved
      · obtain ⟨peer, request, stored⟩ := (Invariant.wellFormed tracked).approval_stored requestId d (by simp [whole])
        rw [handleRequestApproval_false (s := { s with awaitingApproval := front ++ back }) stored]
        exact ⟨peer, d, by simp [queued, pushBack, actions_takeStoredRequest]⟩
  | _ => exact denies.elim

/-- After a call that denies `r`, its `NotPermitted` failure is its one outcome in every longer
run. -/
theorem Denies.final (reach : Reachable fw ops s log) {op : Op Rq Tx Q} {r : RequestId}
    (denies : Denies fw s r op) {more : List (Op Rq Tx Q)} {s'' : RequestManager Rq Tx C}
    {log'' : List (BehaviourAction Rq Tx)} (later : Reachable fw (ops ++ op :: more) s'' log'') :
    ∃ peer d, outcomes log'' r = [notPermitted d peer r] := by
  obtain ⟨s', log', reach', earlier⟩ := later.of_append (ops ++ [op]) more (by simp)
  have run := reach'.runOps_eq
  rw [runOps_append_singleton, reach.runOps_eq] at run
  simp only [runStep, Option.some_bind, Option.map_eq_some', Prod.mk.injEq] at run
  obtain ⟨s₁, exec, rfl, logged⟩ := run
  have decides : op.decides = true := by cases op <;> first | rfl | exact denies.elim
  rw [if_pos decides] at logged
  subst logged
  obtain ⟨peer, d, denied⟩ := Denies.queues reach.invariant denies exec
  have mem : notPermitted d peer r ∈ outcomes (log ++ queued s s₁) r := by
    simp [outcomes, denied, BehaviourAction.settles]
  have one := (reach'.invariant r).outcomes_length_le
  have settled : outcomes (log ++ queued s s₁) r = [notPermitted d peer r] := by
    rcases listed : outcomes (log ++ queued s s₁) r with _ | ⟨a, _ | ⟨b, rest⟩⟩
    · simp [listed] at mem
    · simp_all
    · simp [listed] at one
  obtain ⟨rest, rfl⟩ := earlier
  have only := (later.invariant r).outcomes_length_le
  refine ⟨peer, d, ?_⟩
  rw [outcomes_append, settled] at only ⊢
  simpa using only

/-- Soundness: a request that waits for a connection, or has a `*Ready` outcome, was let through. -/
theorem Tracked.permitted {r : RequestId} {a : Admission Rq Tx} {post : List (Op Rq Tx Q)}
    (tracked : Tracked fw ops s log [] r) (admitted : admissionIn r ops = some (a, post))
    (through : (∃ peer, r ∈ waitingAt s (.connection peer)) ∨ ∃ action ∈ outcomes log r, action.isReady) :
    Permitted fw r a post := by
  unfold Tracked at tracked
  rw [admitted] at tracked
  rcases tracked with ⟨-, -, silent, -, place, -, only, history⟩ | ⟨-, nowhere, action, single, -, ready, -⟩
  · rcases through with ⟨peer, waiting⟩ | ⟨action, mem, -⟩
    · obtain rfl : place = .waiting (.connection peer) := by
        by_contra elsewhere
        have once := only (.waiting (.connection peer))
        simp only [occurrences, Ne.symm elsewhere, if_false] at once
        exact absurd (List.count_pos_iff.mpr waiting) (by omega)
      exact history
    · simp [silent] at mem
  · rcases through with ⟨peer, waiting⟩ | ⟨action', mem, isReady⟩
    · have none := nowhere (.waiting (.connection peer))
      simp only [occurrences] at none
      exact absurd (List.count_pos_iff.mpr waiting) (by omega)
    · rw [single, List.mem_singleton] at mem
      subst mem
      exact ready isReady

theorem reachable_firewall (reach : Reachable fw ops s log) :
    (∀ r peer request status d post, admissionIn r ops = some (⟨peer, request, status, d⟩, post) →
      (∃ p, r ∈ waitingAt s (.connection p)) ∨ (∃ action ∈ outcomes log r, action.isReady) →
        Permitted fw r ⟨peer, request, status, d⟩ post) ∧
    (∀ op r, Denies fw s r op → ∀ more (s'' : RequestManager Rq Tx C) log'',
      Reachable fw (ops ++ op :: more) s'' log'' → ∃ peer d, outcomes log'' r = [notPermitted d peer r]) :=
  ⟨fun r _ _ _ _ _ admitted through => (reach.invariant r).permitted admitted through,
    fun _ _ denies _ _ _ later => denies.final reach later⟩

theorem rule_permits_and_denies :
    ∃ (s : RequestManager Nat Unit Connections) (log : List (BehaviourAction Nat Unit)) (post : List (Op Nat Unit Nat)),
      Reachable sampleFirewall
        [.onConnectionEstablished 7 0, .onNewRequest 7 1 ⟨5, ()⟩ .missingRule .inbound,
          .onPeerRule 7 ⟨some (.permission 9), none⟩ .inbound, .onNewRequest 7 2 ⟨5, ()⟩ .missingRule .outbound]
        s log ∧
      admissionIn 1 ([.onConnectionEstablished 7 0, .onNewRequest 7 1 ⟨5, ()⟩ .missingRule .inbound,
          .onPeerRule 7 ⟨some (.permission 9), none⟩ .inbound, .onNewRequest 7 2 ⟨5, ()⟩ .missingRule .outbound] :
          List (Op Nat Unit Nat)) = some (⟨7, ⟨5, ()⟩, .missingRule, .inbound⟩, post) ∧
      (∃ action ∈ outcomes log 1, action.isReady) ∧
      Permitted sampleFirewall 1 ⟨7, ⟨5, ()⟩, .missingRule, .inbound⟩ post ∧
      Denies sampleFirewall s 2 (.onPeerRule 7 ⟨none, some (.permission 3)⟩ .outbound) ∧
      ∃ (s' : RequestManager Nat Unit Connections) (log' : List (BehaviourAction Nat Unit)),
        Reachable sampleFirewall
          ([.onConnectionEstablished 7 0, .onNewRequest 7 1 ⟨5, ()⟩ .missingRule .inbound,
            .onPeerRule 7 ⟨some (.permission 9), none⟩ .inbound, .onNewRequest 7 2 ⟨5, ()⟩ .missingRule .outbound] ++
            [.onPeerRule 7 ⟨none, some (.permission 3)⟩ .outbound]) s' log' ∧
        ∃ peer d, outcomes log' 2 = [notPermitted d peer 2] := by
  have reach : Reachable sampleFirewall
      [.onConnectionEstablished 7 0, .onNewRequest 7 1 ⟨5, ()⟩ .missingRule .inbound,
        .onPeerRule 7 ⟨some (.permission 9), none⟩ .inbound, .onNewRequest 7 2 ⟨5, ()⟩ .missingRule .outbound] _ _ :=
    .step (.step (.step (.step (C := Connections) .new
      (fun _ admits => by cases admits)
      (show Op.exec sampleFirewall _ (.onConnectionEstablished 7 0) = some _ from rfl))
      (fun _ admits => by cases admits; decide)
      (show Op.exec sampleFirewall _ (.onNewRequest 7 1 ⟨5, ()⟩ .missingRule .inbound) = some _ from rfl))
      (fun _ admits => by cases admits)
      (show Op.exec sampleFirewall _ (.onPeerRule 7 ⟨some (.permission 9), none⟩ .inbound) = some _ from rfl))
      (fun _ admits => by cases admits; decide)
      (show Op.exec sampleFirewall _ (.onNewRequest 7 2 ⟨5, ()⟩ .missingRule .outbound) = some _ from rfl)
  have reach' := reach.step (fun _ admits => by cases admits)
    (show Op.exec sampleFirewall _ (.onPeerRule 7 ⟨none, some (.permission 3)⟩ .outbound) = some _ from rfl)
  have firewall := reachable_firewall reach
  refine ⟨_, _, _, reach, rfl, ?ready, firewall.1 1 _ _ _ _ _ rfl (.inr ?ready), ?denies, _, _, reach',
    firewall.2 _ 2 ?denies [] _ _ reach'⟩
  case ready => exact ⟨.inboundReady 1 7 ⟨5, ()⟩, by decide, rfl⟩
  case denies => exact ⟨.outbound, by decide, rfl, .inr ⟨3, _, rfl, rfl, rfl⟩⟩

end P2p
