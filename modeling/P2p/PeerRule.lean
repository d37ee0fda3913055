import P2p.Approval

/-!
`on_peer_rule` as the spec's "Rule arrival" describes it, and that the method does just that on
every reachable state. The spec decides each id that waits for the rule by the request its
direction's store holds for it when the call starts. The code looks the request up in both stores
as it goes and skips an id it does not find. On a reachable state the two agree: every waiting id
is stored in its own direction only, and deciding one id leaves the entries of the others alone.
-/

namespace P2p

open PeerConnectionManager RequestManager

variable {Rq Tx C P Q V : Type} [PeerConnectionManager C]

/-- Modelled from the spec: the rule of its direction decides the id of `entry`, whose request
`s` stores: `Ask` appends it to `awaiting_approval` and to the returned list, `Permission(p)` routes
it through `handle_request_approval(id, d, p.permits(value))` and no rule through
`handle_request_approval(id, d, false)`. -/
def decideByRule (fw : Firewall Rq P Q V) (rules : FirewallRules Q) (s : RequestManager Rq Tx C)
    (acc : List (RequestId × P × RequestDirection) × RequestManager Rq Tx C)
    (entry : RequestId × RequestDirection) : List (RequestId × P × RequestDirection) × RequestManager Rq Tx C :=
  match s.requestStore entry.2 entry.1 with
  | none => acc
  | some (_, request) =>
      match rules.rule entry.2 with
      | some .ask => (acc.1 ++ [(entry.1, fw.toPermissioned request.data, entry.2)],
          { acc.2 with awaitingApproval := acc.2.awaitingApproval ++ [entry] })
      | some (.permission q) =>
          (acc.1, (acc.2.handleRequestApproval entry.1 entry.2 (fw.permits q (fw.permissionValue request.data))).2)
      | none => (acc.1, (acc.2.handleRequestApproval entry.1 entry.2 false).2)

/-- Modelled from the spec: `on_peer_rule(peer, rules, dir)`. With no entry for `peer` it returns
`None`. Otherwise it takes the entry of `peer`, decides the ids of each direction `dir` covers,
inbound first and each list in order, and then leaves `peer` out if no list of another direction
remains and restores those lists otherwise. -/
def onPeerRuleSpec (fw : Firewall Rq P Q V) (s : RequestManager Rq Tx C) (peer : PeerId)
    (rules : FirewallRules Q) (dir : RuleDirection) :
    Option (List (RequestId × P × RequestDirection)) × RequestManager Rq Tx C :=
  match s.awaitingPeerRule peer with
  | none => (none, s)
  | some awaitRule =>
      let affected := [RequestDirection.inbound, .outbound].filter dir.covers
      let ids := affected.flatMap fun d => ((awaitRule d).getD []).map (·, d)
      let remnant : RequestDirection → Option (List RequestId) := fun d => if dir.covers d then none else awaitRule d
      let decided := ids.foldl (decideByRule fw rules s)
        ([], { s with awaitingPeerRule := Function.update s.awaitingPeerRule peer none })
      (some decided.1,
        if (remnant .inbound).isNone && (remnant .outbound).isNone then decided.2
        else { decided.2 with awaitingPeerRule := Function.update decided.2.awaitingPeerRule peer (some remnant) })

theorem decideByRule_eq (fw : Firewall Rq P Q V) (rules : FirewallRules Q) {s t : RequestManager Rq Tx C}
    {r : RequestId} {d : RequestDirection} {peer : PeerId} {request : RequestMessage Rq Tx}
    (queries : List (RequestId × P × RequestDirection)) (known : s.requestStore d r = some (peer, request))
    (stored : t.requestStore d r = some (peer, request)) (other : t.requestStore d.flip r = none) :
    decideByRule fw rules s (queries, t) (r, d) =
      (queries ++ (t.applyRule fw rules r d).1.toList, (t.applyRule fw rules r d).2) := by
  rw [applyRule_of_stored rules stored other]
  simp only [decideByRule, known]
  rcases rules.rule d with _ | _ | q <;> simp

omit [PeerConnectionManager C] in
theorem mem_of_mem_ruleRequests {awaitRule : RequestDirection → Option (List RequestId)} {dir : RuleDirection}
    {r : RequestId} {d : RequestDirection} (mem : (r, d) ∈ ruleRequests (coveredRules awaitRule dir)) :
    r ∈ (awaitRule d).getD [] := by
  by_cases covered : dir.covers d <;> cases d <;> simp_all [ruleRequests, coveredRules]

theorem covered_flatMap_eq_ruleRequests (awaitRule : RequestDirection → Option (List RequestId))
    (dir : RuleDirection) :
    ([RequestDirection.inbound, .outbound].filter dir.covers).flatMap
        (fun d => ((awaitRule d).getD []).map (·, d)) = ruleRequests (coveredRules awaitRule dir) := by
  cases dir <;> simp [ruleRequests, coveredRules, RuleDirection.covers, RuleDirection.isInbound,
    RuleDirection.isOutbound]

section Reachable

variable {fw : Firewall Rq P Q V} {ops : List (Op Rq Tx Q)} {s : RequestManager Rq Tx C}
  {log : List (BehaviourAction Rq Tx)} {peer : PeerId} {rules : FirewallRules Q} {dir : RuleDirection}

theorem foldl_decideByRule {awaitRule : RequestDirection → Option (List RequestId)} :
    ∀ (queries : List (RequestId × P × RequestDirection)) {requests : List (RequestId × RequestDirection)}
      {t : RequestManager Rq Tx C} {log : List (BehaviourAction Rq Tx)} {rest : List (RequestId × Slot)},
      (∀ entry ∈ requests, entry ∈ ruleRequests (coveredRules awaitRule dir)) →
      (∀ entry ∈ requests, ∀ a post, admissionIn entry.1 (ops ++ [.onPeerRule peer rules dir]) = some (a, post) →
        s.requestStore entry.2 entry.1 = some (a.peer, a.request)) →
      (∀ r, Tracked fw (ops ++ [.onPeerRule peer rules dir]) t log (requests.map (ruleSlot peer) ++ rest) r) →
      requests.foldl (decideByRule fw rules s) (queries, t) =
        (queries ++ (t.applyRules fw rules requests).1, (t.applyRules fw rules requests).2)
  | _, [], _, _, _, _, _, _ => by simp [applyRules]
  | queries, (r0, d) :: requests, t, log, rest, covered, known, tracked => by
      obtain ⟨pushed, -, tracked'⟩ := Advances.applyRule (covered _ (.head _)) tracked
      have later := foldl_decideByRule (queries ++ (t.applyRule fw rules r0 d).1.toList)
        (fun entry mem => covered entry (.tail _ mem))
        (fun entry mem => known entry (.tail _ mem)) tracked'
      obtain ⟨a, post, admitted, inHand⟩ := (tracked r0).pop
      obtain ⟨rfl, rfl⟩ := inHand.2.2.2.2.1
      rw [List.foldl_cons, decideByRule_eq fw rules queries (known _ (.head _) a post admitted) inHand.1 inHand.2.1,
        later]
      simp [applyRules]

theorem Invariant.stored_of_ruleRequests (inv : Invariant fw ops s log)
    {awaitRule : RequestDirection → Option (List RequestId)} (found : s.awaitingPeerRule peer = some awaitRule) :
    ∀ entry ∈ ruleRequests (coveredRules awaitRule dir), ∀ a post,
      admissionIn entry.1 (ops ++ [.onPeerRule peer rules dir]) = some (a, post) →
        s.requestStore entry.2 entry.1 = some (a.peer, a.request) := by
  rintro ⟨r, d⟩ mem a post admitted
  have waiting : r ∈ waitingAt s (.peerRule peer d) := by
    simpa [waitingAt, found] using mem_of_mem_ruleRequests mem
  obtain ⟨a', post', admitted', stored, -, ⟨rfl, rfl⟩, -⟩ := (inv r).waiting_of_mem waiting
  rw [admissionIn_append, admitted'] at admitted
  obtain ⟨rfl, -⟩ := Prod.mk.inj (Option.some.inj admitted)
  exact stored

theorem reachable_onPeerRule_spec (reach : Reachable fw ops s log) (peer : PeerId) (rules : FirewallRules Q)
    (dir : RuleDirection) : s.onPeerRule fw peer rules dir = onPeerRuleSpec fw s peer rules dir := by
  have inv := reach.invariant
  rw [onPeerRule_eq]
  unfold onPeerRuleSpec
  rcases found : s.awaitingPeerRule peer with _ | awaitRule
  · rfl
  · have tracked := fun r => ((inv r).extend
      (show (Op.onPeerRule peer rules dir : Op Rq Tx Q).admission r = none from rfl)).takePeerRule found dir
    simp only [covered_flatMap_eq_ruleRequests]
    rw [foldl_decideByRule [] (fun _ mem => mem) (inv.stored_of_ruleRequests found) tracked, List.nil_append]
    have empty : isEmpty (remnantRules awaitRule dir) =
        ((if dir.covers .inbound then none else awaitRule .inbound).isNone &&
          (if dir.covers .outbound then none else awaitRule .outbound).isNone) := rfl
    unfold restorePeerRule
    rw [← empty]
    cases isEmpty (remnantRules awaitRule dir) <;> rfl

end Reachable

theorem one_rule_onPeerRule_spec :
    ∃ (s : RequestManager Nat Unit Connections) (log : List (BehaviourAction Nat Unit)),
      Reachable sampleFirewall [.onNewRequest 7 1 ⟨5, ()⟩ .missingRule .inbound] s log ∧
      s.onPeerRule sampleFirewall 7 ⟨some .ask, none⟩ .inbound =
        onPeerRuleSpec sampleFirewall s 7 ⟨some .ask, none⟩ .inbound := by
  have reach : Reachable sampleFirewall [.onNewRequest 7 1 ⟨5, ()⟩ .missingRule .inbound] _ _ :=
    .step (C := Connections) .new (fun _ admits => by cases admits; decide) rfl
  exact ⟨_, _, reach, reachable_onPeerRule_spec reach 7 ⟨some .ask, none⟩ .inbound⟩

end P2p
