import P2p.Firewall

/-!
Deciding a request later, in `on_request_approval` or `on_peer_rule`, against deciding it at
admission. `on_request_approval` finds its id in `awaiting_approval` with a binary search: on a
list sorted by id every entry is found (`onRequestApproval_of_sorted`), and so is an entry whose id
is greater than all others and stands last, whatever the order of the others. A request admitted
`MissingApproval` with an id greater than every id used so far is such an entry, and deciding it
later leaves the manager as admitting it `Approved` or `Rejected` would; a request admitted
`MissingRule` and then decided by its peer's rule leaves it as admitting it with the status the
rule gives. The ids of a run increasing does not keep `awaiting_approval` sorted, though:
`on_peer_rule` appends the ids its rule asks about after greater ids, and the search then misses an
entry that waits (`onRequestApproval_misses_after_ask`).
-/

namespace P2p

open PeerConnectionManager RequestManager

variable {Rq Tx C P Q V : Type} [PeerConnectionManager C]

omit [PeerConnectionManager C] in
theorem compare_of_sorted {entries : List (RequestId × RequestDirection)} (sorted : entries.Pairwise (·.1 < ·.1))
    {index : Nat} {entry : RequestId × RequestDirection} (found : entries[index]? = some entry) :
    ∀ i other, entries[i]? = some other → compare other.1 entry.1 = compare i index := by
  intro i other probe
  obtain ⟨within, rfl⟩ := List.getElem?_eq_some_iff.mp found
  obtain ⟨inside, rfl⟩ := List.getElem?_eq_some_iff.mp probe
  rcases Nat.lt_trichotomy i index with before | rfl | after
  · rw [Nat.compare_eq_lt.mpr (List.pairwise_iff_getElem.mp sorted i index inside within before),
      Nat.compare_eq_lt.mpr before]
  · rw [Nat.compare_eq_eq.mpr rfl, Nat.compare_eq_eq.mpr rfl]
  · rw [Nat.compare_eq_gt.mpr (List.pairwise_iff_getElem.mp sorted index i within inside after),
      Nat.compare_eq_gt.mpr after]

omit [PeerConnectionManager C] in
theorem binarySearchBy_of_sorted {entries : List (RequestId × RequestDirection)}
    (sorted : entries.Pairwise (·.1 < ·.1)) {index : Nat} {r : RequestId} {d : RequestDirection}
    (found : entries[index]? = some (r, d)) : binarySearchBy entries (fun entry => compare entry.1 r) = .ok index :=
  binarySearchBy_split _ _ index (compare_of_sorted sorted found) (List.getElem?_eq_some_iff.mp found).1

theorem onRequestApproval_of_search {s : RequestManager Rq Tx C} {r : RequestId} {index : Nat}
    {d : RequestDirection} (search : binarySearchBy s.awaitingApproval (fun entry => compare entry.1 r) = .ok index)
    (found : s.awaitingApproval[index]? = some (r, d)) (isAllowed : Bool) :
    s.onRequestApproval r isAllowed =
      { s with awaitingApproval := s.awaitingApproval.eraseIdx index }.handleRequestApproval r d isAllowed := by
  rw [onRequestApproval, search]
  simp only [found]

/-- On an `awaiting_approval` sorted by id, `on_request_approval` finds the entry of a waiting id,
removes exactly it and hands the request to `handle_request_approval`. -/
theorem onRequestApproval_of_sorted {s : RequestManager Rq Tx C} {r : RequestId} {d : RequestDirection}
    (sorted : s.awaitingApproval.Pairwise (·.1 < ·.1)) (mem : (r, d) ∈ s.awaitingApproval) (isAllowed : Bool) :
    ∃ front back, s.awaitingApproval = front ++ (r, d) :: back ∧
      s.onRequestApproval r isAllowed =
        { s with awaitingApproval := front ++ back }.handleRequestApproval r d isAllowed := by
  obtain ⟨index, found⟩ := List.mem_iff_getElem?.mp mem
  obtain ⟨split, erased⟩ := eraseIdx_of_getElem? found
  refine ⟨_, _, split, ?_⟩
  rw [onRequestApproval_of_search (binarySearchBy_of_sorted sorted found) found, erased]

theorem onRequestApproval_sorted_pair :
    ∃ front back, [((1 : RequestId), RequestDirection.inbound), (3, .outbound)] = front ++ (3, .outbound) :: back ∧
      ({ (RequestManager.new : RequestManager Nat Unit Connections) with
          awaitingApproval := [(1, .inbound), (3, .outbound)] }).onRequestApproval 3 true =
        ({ (RequestManager.new : RequestManager Nat Unit Connections) with
          awaitingApproval := front ++ back }).handleRequestApproval 3 .outbound true :=
  onRequestApproval_of_sorted
    (s := { (RequestManager.new : RequestManager Nat Unit Connections) with awaitingApproval := [(1, .inbound), (3, .outbound)] })
    (by decide) (by decide) true

/-- The ids of a run increase, yet `awaiting_approval` ends unsorted: request 1 waits for its
peer's rule while request 2 is admitted `MissingApproval`, and the rule `Ask` then appends 1 after
2. The search for 2 probes 1, goes right and misses it: `on_request_approval(2, _)` returns `None`
and request 2 stays stored. -/
theorem onRequestApproval_misses_after_ask :
    ∃ (s : RequestManager Nat Unit Connections) (log : List (BehaviourAction Nat Unit)),
      Reachable sampleFirewall
        [.onNewRequest 7 1 ⟨5, ()⟩ .missingRule .inbound, .onNewRequest 7 2 ⟨5, ()⟩ .missingApproval .inbound,
          .onPeerRule 7 ⟨some .ask, none⟩ .inbound] s log ∧
      s.awaitingApproval = [(2, .inbound), (1, .inbound)] ∧
      ∀ isAllowed, s.onRequestApproval 2 isAllowed = (none, s) ∧ s.inboundRequestStore 2 = some (7, ⟨5, ()⟩) := by
  refine ⟨_, _, .step (.step (.step .new (fun _ admits => by cases admits; decide)
      (show Op.exec sampleFirewall _ (.onNewRequest 7 1 ⟨5, ()⟩ .missingRule .inbound) = some _ from rfl))
      (fun _ admits => by cases admits; decide)
      (show Op.exec sampleFirewall _ (.onNewRequest 7 2 ⟨5, ()⟩ .missingApproval .inbound) = some _ from rfl))
      (fun _ admits => by cases admits)
      (show Op.exec sampleFirewall _ (.onPeerRule 7 ⟨some .ask, none⟩ .inbound) = some _ from rfl),
    rfl, fun isAllowed => ⟨?_, rfl⟩⟩
  have missed : binarySearchBy [((2 : RequestId), RequestDirection.inbound), (1, .inbound)]
      (fun entry => compare entry.1 2) = .error 2 := by
    simp [binarySearchBy, binarySearchBy.go]
    rfl
  have miss : ∀ t : RequestManager Nat Unit Connections,
      binarySearchBy t.awaitingApproval (fun entry => compare entry.1 2) = .error 2 →
        t.onRequestApproval 2 isAllowed = (none, t) := fun t search => by
    rw [onRequestApproval, search]
  exact miss _ missed

omit [PeerConnectionManager C] in
theorem takeStoredRequest_storeRequest (s : RequestManager Rq Tx C) (peer : PeerId) (r : RequestId)
    (request : RequestMessage Rq Tx) (d : RequestDirection) (unstored : s.requestStore d r = none) :
    (s.storeRequest peer r request d).takeStoredRequest r d = (some (peer, request), s) := by
  cases d <;> simp only [requestStore] at unstored <;> simp only [storeRequest, takeStoredRequest,
    Function.update_same, Function.update_idem] <;> rw [← unstored, Function.update_eq_self]

theorem handleRequestApproval_storeRequest (s : RequestManager Rq Tx C) (peer : PeerId) (r : RequestId)
    (request : RequestMessage Rq Tx) (d : RequestDirection) (isAllowed : Bool)
    (unstored : ∀ d', s.requestStore d' r = none) :
    (s.storeRequest peer r request d).handleRequestApproval r d isAllowed =
      (some (), s.onNewRequest peer r request (if isAllowed then .approved else .rejected) d) := by
  have stored : (s.storeRequest peer r request d).requestStore d r = some (peer, request) := by
    simp [requestStore_storeRequest]
  have taken := takeStoredRequest_storeRequest s peer r request d (unstored d)
  cases isAllowed with
  | false => rw [handleRequestApproval_false stored, taken]; rfl
  | true =>
      have other : (s.storeRequest peer r request d).requestStore d.flip r = none := by
        simp [requestStore_storeRequest, unstored]
      rw [handleRequestApproval_true stored other, connections_storeRequest, if_pos rfl]
      simp only [onNewRequest]
      rcases addRequest s.connections peer r d with ⟨_ | connection, connections⟩
      · cases d
        · simp only [takeStoredRequest_withConnections, taken]
        · rfl
      · simp only [takeStoredRequest_withConnections, taken]

/-- Modelled from the spec: the status that a request of direction `d` with data `data` gets at
admission when its peer's rules are known: `MissingApproval` under `Ask`, `Approved` or `Rejected`
as a permission permits the data, and `Rejected` when there is no rule. -/
def ruleStatus (fw : Firewall Rq P Q V) (rules : FirewallRules Q) (d : RequestDirection) (data : Rq) :
    ApprovalStatus :=
  match rules.rule d with
  | some .ask => .missingApproval
  | some (.permission q) => if fw.permits q (fw.permissionValue data) then .approved else .rejected
  | none => .rejected

theorem onRequestApproval_onNewRequest (s : RequestManager Rq Tx C) (peer : PeerId) (r : RequestId)
    (request : RequestMessage Rq Tx) (d : RequestDirection) (isAllowed : Bool)
    (unstored : ∀ d', s.requestStore d' r = none) (greatest : ∀ entry ∈ s.awaitingApproval, entry.1 < r) :
    (s.onNewRequest peer r request .missingApproval d).onRequestApproval r isAllowed =
      (some (), s.onNewRequest peer r request (if isAllowed then .approved else .rejected) d) := by
  have kept : (s.storeRequest peer r request d).awaitingApproval = s.awaitingApproval := by cases d <;> rfl
  have admitted : s.onNewRequest peer r request .missingApproval d =
      { s.storeRequest peer r request d with awaitingApproval := s.awaitingApproval ++ [(r, d)] } := by
    rw [← kept]; rfl
  have restored : { s.storeRequest peer r request d with awaitingApproval := s.awaitingApproval } =
      s.storeRequest peer r request d := by cases d <;> rfl
  have search := binarySearchBy_last s.awaitingApproval (r, d) (fun entry => compare entry.1 r)
    (fun entry mem => Nat.compare_eq_lt.mpr (greatest entry mem)) (Nat.compare_eq_eq.mpr rfl)
  simp only [admitted, onRequestApproval, search, List.getElem?_concat_length,
    List.eraseIdx_append_of_length_le (Nat.le_refl _), Nat.sub_self, List.eraseIdx_cons_zero, List.append_nil]
  rw [restored, handleRequestApproval_storeRequest s peer r request d isAllowed unstored]

theorem onPeerRule_onNewRequest (fw : Firewall Rq P Q V) (s : RequestManager Rq Tx C) (peer : PeerId)
    (r : RequestId) (request : RequestMessage Rq Tx) (d : RequestDirection) (rules : FirewallRules Q)
    (dir : RuleDirection) (unstored : ∀ d', s.requestStore d' r = none)
    (unruled : s.awaitingPeerRule peer = none) (covered : dir.covers d = true) :
    (s.onNewRequest peer r request .missingRule d).onPeerRule fw peer rules dir =
      (some (if ruleStatus fw rules d request.data = .missingApproval then [(r, fw.toPermissioned request.data, d)]
          else []),
        s.onNewRequest peer r request (ruleStatus fw rules d request.data) d) := by
  have kept : (s.storeRequest peer r request d).awaitingPeerRule = s.awaitingPeerRule := by cases d <;> rfl
  have admitted : s.onNewRequest peer r request .missingRule d =
      { s.storeRequest peer r request d with
        awaitingPeerRule := Function.update s.awaitingPeerRule peer (some (Function.update (fun _ => none) d (some [r]))) } := by
    simp only [onNewRequest, kept, unruled, Option.getD_none, List.nil_append]
  have requests : ruleRequests (coveredRules (Function.update (fun _ => none) d (some [r])) dir) = [(r, d)] := by
    cases d <;> cases dir <;> simp_all [ruleRequests, coveredRules, RuleDirection.covers]
  have remnant : isEmpty (remnantRules (Function.update (fun _ => none) d (some [r])) dir) = true := by
    cases d <;> cases dir <;> simp_all [isEmpty, remnantRules, RuleDirection.covers]
  have cleared : { s.storeRequest peer r request d with
      awaitingPeerRule := Function.update (Function.update s.awaitingPeerRule peer
        (some (Function.update (fun _ => none) d (some [r])))) peer none } = s.storeRequest peer r request d := by
    rw [Function.update_idem, ← unruled, Function.update_eq_self, ← kept]
  have stored : (s.storeRequest peer r request d).requestStore d r = some (peer, request) := by
    simp [requestStore_storeRequest]
  have other : (s.storeRequest peer r request d).requestStore d.flip r = none := by
    simp [requestStore_storeRequest, unstored]
  simp only [admitted, onPeerRule_eq, Function.update_same, requests, cleared, applyRules, restorePeerRule,
    remnant, Bool.not_true, Bool.false_eq_true, if_false]
  rw [applyRule_of_stored rules stored other]
  unfold ruleStatus
  rcases rules.rule d with _ | _ | q
  · simp [handleRequestApproval_storeRequest s peer r request d false unstored]
  · rfl
  · by_cases permits : fw.permits q (fw.permissionValue request.data) = true <;>
      simp [handleRequestApproval_storeRequest s peer r request d _ unstored, permits]

section Reachable

variable {fw : Firewall Rq P Q V} {ops : List (Op Rq Tx Q)} {s : RequestManager Rq Tx C}
  {log : List (BehaviourAction Rq Tx)}

theorem Invariant.admitted_of_stored (inv : Invariant fw ops s log) {r : RequestId} {d : RequestDirection}
    {entry : PeerId × RequestMessage Rq Tx} (stored : s.requestStore d r = some entry) : r ∈ admittedIds ops := by
  by_contra fresh
  have tracked := inv r
  unfold Tracked at tracked
  rw [admissionIn_eq_none fresh] at tracked
  simp [tracked.1 d] at stored

/-- An id greater than every admitted id is in no store and greater than every id awaiting
approval. -/
theorem Invariant.above (inv : Invariant fw ops s log) {r : RequestId} (fresh : ∀ r' ∈ admittedIds ops, r' < r) :
    (∀ d, s.requestStore d r = none) ∧ ∀ entry ∈ s.awaitingApproval, entry.1 < r := by
  refine ⟨fun d => ?_, fun ⟨r', d'⟩ mem => ?_⟩
  · cases stored : s.requestStore d r with
    | none => rfl
    | some entry => exact absurd (fresh r (inv.admitted_of_stored stored)) (Nat.lt_irrefl r)
  · obtain ⟨_, _, stored⟩ := inv.wellFormed.approval_stored r' d' mem
    exact fresh r' (inv.admitted_of_stored stored)

theorem reachable_deferred_decision (reach : Reachable fw ops s log) (r : RequestId)
    (fresh : ∀ r' ∈ admittedIds ops, r' < r) (peer : PeerId) (request : RequestMessage Rq Tx) (d : RequestDirection) :
    (∀ isAllowed, (s.onNewRequest peer r request .missingApproval d).onRequestApproval r isAllowed =
        (some (), s.onNewRequest peer r request (if isAllowed then .approved else .rejected) d)) ∧
    (s.awaitingPeerRule peer = none → ∀ rules dir, dir.covers d = true →
      (s.onNewRequest peer r request .missingRule d).onPeerRule fw peer rules dir =
        (some (if ruleStatus fw rules d request.data = .missingApproval then
            [(r, fw.toPermissioned request.data, d)] else []),
          s.onNewRequest peer r request (ruleStatus fw rules d request.data) d)) := by
  obtain ⟨unstored, greatest⟩ := reach.invariant.above fresh
  exact ⟨fun isAllowed => onRequestApproval_onNewRequest s peer r request d isAllowed unstored greatest,
    fun unruled rules dir covered => onPeerRule_onNewRequest fw s peer r request d rules dir unstored unruled covered⟩

end Reachable

theorem unsorted_deferred_decision :
    ∃ (s : RequestManager Nat Unit Connections) (log : List (BehaviourAction Nat Unit)),
      Reachable sampleFirewall
        [.onNewRequest 7 1 ⟨5, ()⟩ .missingRule .inbound, .onNewRequest 7 2 ⟨5, ()⟩ .missingApproval .inbound,
          .onPeerRule 7 ⟨some .ask, none⟩ .inbound] s log ∧
      s.awaitingApproval = [(2, .inbound), (1, .inbound)] ∧ s.awaitingPeerRule 8 = none ∧
      (∀ isAllowed, (s.onNewRequest 8 3 ⟨6, ()⟩ .missingApproval .outbound).onRequestApproval 3 isAllowed =
          (some (), s.onNewRequest 8 3 ⟨6, ()⟩ (if isAllowed then .approved else .rejected) .outbound)) ∧
      (s.awaitingPeerRule 8 = none → ∀ rules dir, dir.covers .outbound = true →
        (s.onNewRequest 8 3 ⟨6, ()⟩ .missingRule .outbound).onPeerRule sampleFirewall 8 rules dir =
          (some (if ruleStatus sampleFirewall rules .outbound 6 = .missingApproval then
              [(3, sampleFirewall.toPermissioned 6, .outbound)] else []),
            s.onNewRequest 8 3 ⟨6, ()⟩ (ruleStatus sampleFirewall rules .outbound 6) .outbound)) := by
  have reach : Reachable sampleFirewall
      [.onNewRequest 7 1 ⟨5, ()⟩ .missingRule .inbound, .onNewRequest 7 2 ⟨5, ()⟩ .missingApproval .inbound,
        .onPeerRule 7 ⟨some .ask, none⟩ .inbound] _ _ :=
    .step (.step (.step (C := Connections) .new (fun _ admits => by cases admits; decide)
      (show Op.exec sampleFirewall _ (.onNewRequest 7 1 ⟨5, ()⟩ .missingRule .inbound) = some _ from rfl))
      (fun _ admits => by cases admits; decide)
      (show Op.exec sampleFirewall _ (.onNewRequest 7 2 ⟨5, ()⟩ .missingApproval .inbound) = some _ from rfl))
      (fun _ admits => by cases admits)
      (show Op.exec sampleFirewall _ (.onPeerRule 7 ⟨some .ask, none⟩ .inbound) = some _ from rfl)
  exact ⟨_, _, reach, rfl, rfl, reachable_deferred_decision reach 3 (by decide) 8 ⟨6, ()⟩ .outbound⟩

end P2p
