import P2p.Release

/-!
When `awaiting_approval` stays sorted by id. `on_request_approval` finds its entry with
`binary_search_by`, which is right only on a sorted list. Two calls add to the list, both at its
end: `on_new_request` with `MissingApproval`, for the id it admits, and `on_peer_rule`, for each
waiting id whose rule asks. `on_request_approval` removes one entry, and no other call touches the
list (`exec_awaitingApproval`). With increasing ids the first addition keeps the list sorted; the
second appends ids admitted earlier, which can break the order. So on every run with increasing ids
and no rule that asks, the list stays sorted and `on_request_approval` finds each entry.

Sorted or not, an id waits there once on a reachable manager, so a decision the host repeats for
the same id finds nothing the second time and changes nothing.
-/

namespace P2p

open PeerConnectionManager RequestManager

variable {Rq Tx C P Q V : Type} [PeerConnectionManager C]

section Frames

variable {s t : RequestManager Rq Tx C}

omit [PeerConnectionManager C] in
theorem awaitingApproval_of_take {r0 : RequestId} {d : RequestDirection}
    {entry : Option (PeerId × RequestMessage Rq Tx)} (taken : s.takeStoredRequest r0 d = (entry, t)) :
    t.awaitingApproval = s.awaitingApproval := by
  cases d <;> simp only [takeStoredRequest, Prod.mk.injEq] at taken <;> rw [← taken.2]

theorem awaitingApproval_handleRequestApproval (s : RequestManager Rq Tx C) (r0 : RequestId) (d : RequestDirection)
    (isAllowed : Bool) : (s.handleRequestApproval r0 d isAllowed).2.awaitingApproval = s.awaitingApproval := by
  unfold handleRequestApproval
  split
  · split <;> rename_i taken <;> have frame := awaitingApproval_of_take taken <;> exact frame
  · split
    · rfl
    · split
      · split <;> rename_i taken <;> have frame := awaitingApproval_of_take taken <;> exact frame
      · split
        · split <;> rename_i taken <;> have frame := awaitingApproval_of_take taken <;> exact frame
        · rfl

theorem awaitingApproval_applyRule (fw : Firewall Rq P Q V) {rules : FirewallRules Q} (s : RequestManager Rq Tx C)
    (r0 : RequestId) {d : RequestDirection} (noAsk : rules.rule d ≠ some .ask) :
    (s.applyRule fw rules r0 d).2.awaitingApproval = s.awaitingApproval := by
  unfold applyRule
  split
  · contradiction
  · split
    · exact awaitingApproval_handleRequestApproval ..
    · rfl
  · exact awaitingApproval_handleRequestApproval ..

omit [PeerConnectionManager C] in
theorem awaitingApproval_foldl {α : Type} (step : RequestManager Rq Tx C → α → RequestManager Rq Tx C)
    (items : List α) (frame : ∀ t, ∀ x ∈ items, (step t x).awaitingApproval = t.awaitingApproval) :
    (items.foldl step t).awaitingApproval = t.awaitingApproval := by
  induction items generalizing t with
  | nil => rfl
  | cons x items ih => rw [List.foldl_cons, ih fun t y mem => frame t y (.tail _ mem), frame t x (.head _)]

omit [PeerConnectionManager C] in
@[simp] theorem awaitingApproval_restorePeerRule (peer : PeerId) (awaitRule : RequestDirection → Option (List RequestId)) :
    (restorePeerRule t peer awaitRule).awaitingApproval = t.awaitingApproval := by
  unfold restorePeerRule; split <;> rfl

omit [PeerConnectionManager C] in
theorem awaitingApproval_rejectAwaiting (peer : PeerId) (d : RequestDirection) (r0 : RequestId) :
    (rejectAwaiting peer d t r0).awaitingApproval = t.awaitingApproval := by
  cases d <;> rfl

theorem awaitingApproval_flushConnection {requests : List RequestId} (flushed : s.flushConnection requests = some t) :
    t.awaitingApproval = s.awaitingApproval := by
  induction requests generalizing s with
  | nil => rw [← Option.some.inj flushed]
  | cons r0 rest ih =>
      unfold RequestManager.flushConnection at flushed
      split at flushed
      · rw [ih flushed, awaitingApproval_of_take ‹_›]
      · split at flushed
        · cases flushed
        · rename_i taken _ _ _ _
          have frame := awaitingApproval_of_take taken
          rw [ih flushed]
          exact frame

theorem awaitingApproval_onPeerConnected {peer : PeerId} (exec : s.onPeerConnected peer = some t) :
    t.awaitingApproval = s.awaitingApproval := by
  unfold RequestManager.onPeerConnected at exec
  split at exec
  · cases exec; rfl
  · split at exec
    · cases exec; rfl
    · have frame := awaitingApproval_flushConnection exec
      exact frame

omit [PeerConnectionManager C] in
theorem awaitingApproval_onDialFailure (s : RequestManager Rq Tx C) (peer : PeerId) :
    (s.onDialFailure peer).awaitingApproval = s.awaitingApproval := by
  unfold onDialFailure
  split
  · rfl
  · exact awaitingApproval_foldl _ _ fun t r0 _ => rfl

theorem awaitingApproval_onConnectionClosed (s : RequestManager Rq Tx C) (peer : PeerId) (connection : ConnectionId) :
    (s.onConnectionClosed peer connection).awaitingApproval = s.awaitingApproval := by
  unfold onConnectionClosed; split <;> rfl

theorem awaitingApproval_onPeerDisconnected (s : RequestManager Rq Tx C) (peer : PeerId) :
    (s.onPeerDisconnected peer).awaitingApproval = s.awaitingApproval := by
  unfold onPeerDisconnected
  split
  · rfl
  · exact awaitingApproval_foldl _ _ fun t connection _ => awaitingApproval_onConnectionClosed t peer connection

/-- With no rule that asks for a direction it covers, `on_peer_rule` leaves `awaiting_approval` as
it is. -/
theorem awaitingApproval_onPeerRule (fw : Firewall Rq P Q V) (s : RequestManager Rq Tx C) (peer : PeerId)
    {rules : FirewallRules Q} {dir : RuleDirection} (noAsk : ∀ d, dir.covers d = true → rules.rule d ≠ some .ask) :
    (s.onPeerRule fw peer rules dir).2.awaitingApproval = s.awaitingApproval := by
  rw [onPeerRule_eq]
  split
  · rfl
  · simp only [awaitingApproval_restorePeerRule, applyRules_snd]
    exact awaitingApproval_foldl _ _ fun t entry mem =>
      awaitingApproval_applyRule fw t entry.1 (noAsk _ (covers_of_mem_ruleRequests mem))

omit [PeerConnectionManager C] in
theorem awaitingApproval_onNoPeerRule (s : RequestManager Rq Tx C) (peer : PeerId) (dir : RuleDirection) :
    (s.onNoPeerRule peer dir).awaitingApproval = s.awaitingApproval := by
  rw [onNoPeerRule_eq]
  split
  · rfl
  · rw [awaitingApproval_restorePeerRule, awaitingApproval_foldl _ _ fun t r0 _ => awaitingApproval_rejectAwaiting peer _ r0,
      awaitingApproval_foldl _ _ fun t r0 _ => awaitingApproval_rejectAwaiting peer _ r0]

theorem awaitingApproval_onNewRequest (s : RequestManager Rq Tx C) (peer : PeerId) (r0 : RequestId)
    (request : RequestMessage Rq Tx) (status : ApprovalStatus) (d : RequestDirection) :
    (s.onNewRequest peer r0 request status d).awaitingApproval =
      if status = .missingApproval then s.awaitingApproval ++ [(r0, d)] else s.awaitingApproval := by
  cases status with
  | missingApproval => cases d <;> rfl
  | approved =>
      simp only [onNewRequest]
      split
      · rfl
      · split <;> rfl
  | _ => cases d <;> rfl

end Frames

/-- Only `on_new_request`, with `MissingApproval`, and `on_peer_rule`, with a rule that asks, add
to `awaiting_approval`, at its end; every other call keeps a sublist of it. -/
theorem exec_awaitingApproval {fw : Firewall Rq P Q V} {op : Op Rq Tx Q} {s s' : RequestManager Rq Tx C}
    (exec : op.exec fw s = some s')
    (noAsk : ∀ peer rules dir, op = .onPeerRule peer rules dir → ∀ d, dir.covers d = true → rules.rule d ≠ some .ask) :
    s'.awaitingApproval.Sublist s.awaitingApproval ∨
      ∃ r0 d, op.admits = some r0 ∧ s'.awaitingApproval = s.awaitingApproval ++ [(r0, d)] := by
  have kept : s'.awaitingApproval = s.awaitingApproval → s'.awaitingApproval.Sublist s.awaitingApproval :=
    fun same => same ▸ List.Sublist.refl _
  cases op with
  | onNewRequest peer r0 request status d =>
      cases exec
      rw [awaitingApproval_onNewRequest]
      split
      · exact .inr ⟨r0, d, rfl, rfl⟩
      · exact .inl (List.Sublist.refl _)
  | onPeerConnected peer => exact .inl (kept (awaitingApproval_onPeerConnected exec))
  | onDialFailure peer => cases exec; exact .inl (kept (awaitingApproval_onDialFailure s peer))
  | onPeerRule peer rules dir =>
      cases exec; exact .inl (kept (awaitingApproval_onPeerRule fw s peer (noAsk peer rules dir rfl)))
  | onNoPeerRule peer dir => cases exec; exact .inl (kept (awaitingApproval_onNoPeerRule s peer dir))
  | onRequestApproval requestId isAllowed =>
      cases exec
      rcases onRequestApproval_cases s requestId isAllowed with same | ⟨front, back, d, whole, same⟩ <;> rw [same]
      · exact .inl (List.Sublist.refl _)
      · rw [awaitingApproval_handleRequestApproval, whole]
        exact .inl ((List.sublist_cons_self _ back).append_left front)
  | onPeerDisconnected peer => cases exec; exact .inl (kept (awaitingApproval_onPeerDisconnected s peer))
  | onConnectionClosed peer connection =>
      cases exec; exact .inl (kept (awaitingApproval_onConnectionClosed s peer connection))
  | onResForInbound peer connection requestId result =>
      cases exec; exact .inl (kept (by unfold onResForInbound onResponse; split <;> rfl))
  | onResForOutbound peer connection requestId result =>
      cases exec; exact .inl (kept (by unfold onResForOutbound onResponse; split <;> rfl))
  | takeNextAction => cases exec; exact .inl (kept (by unfold takeNextAction; split <;> rfl))
  | _ => cases exec; exact .inl (kept rfl)

omit [PeerConnectionManager C] in
theorem admittedIds_append (ops : List (Op Rq Tx Q)) (op : Op Rq Tx Q) :
    admittedIds (ops ++ [op]) = admittedIds ops ++ op.admits.toList := by
  cases admits : op.admits <;> simp [admittedIds, List.filterMap_append, admits]

/-- On every run from `RequestManager::new()` whose ids increase and whose `on_peer_rule` calls
never find a rule that asks, `awaiting_approval` stays sorted by id; so `on_request_approval` finds
the entry of every id awaiting approval, removes exactly it and hands its request to
`handle_request_approval`. -/
theorem reachable_approval_sorted {fw : Firewall Rq P Q V} {ops : List (Op Rq Tx Q)} {s : RequestManager Rq Tx C}
    {log : List (BehaviourAction Rq Tx)} (reach : Reachable fw ops s log) (increasing : (admittedIds ops).Pairwise (· < ·))
    (noAsk : ∀ peer rules dir, .onPeerRule peer rules dir ∈ ops → ∀ d, dir.covers d = true → rules.rule d ≠ some .ask) :
    s.awaitingApproval.Pairwise (·.1 < ·.1) ∧
      ∀ r d isAllowed, (r, d) ∈ s.awaitingApproval → ∃ front back, s.awaitingApproval = front ++ (r, d) :: back ∧
        s.onRequestApproval r isAllowed = { s with awaitingApproval := front ++ back }.handleRequestApproval r d isAllowed := by
  have sorted : s.awaitingApproval.Pairwise (·.1 < ·.1) := by
    induction reach with
    | new => exact List.Pairwise.nil
    | @step ops s log op s' reach fresh exec ih =>
        rw [admittedIds_append, List.pairwise_append] at increasing
        have earlier := ih increasing.1 fun peer rules dir mem => noAsk peer rules dir (List.mem_append_left _ mem)
        rcases exec_awaitingApproval exec fun peer rules dir same => noAsk peer rules dir (by simp [same]) with
          shrunk | ⟨r0, d, admits, grown⟩
        · exact earlier.sublist shrunk
        · have above := (reach.invariant.above fun r' mem => increasing.2.2 r' mem r0 (by simp [admits])).2
          rw [grown, List.pairwise_append]
          exact ⟨earlier, List.pairwise_singleton _ _, fun entry mem _ last => List.mem_singleton.mp last ▸ above entry mem⟩
  refine ⟨sorted, fun r d isAllowed mem => ?_⟩
  obtain ⟨index, found⟩ := List.mem_iff_getElem?.mp mem
  obtain ⟨whole, erased⟩ := eraseIdx_of_getElem? found
  exact ⟨_, _, whole, by rw [onRequestApproval_of_search (binarySearchBy_of_sorted sorted found) found, erased]⟩

theorem approvals_in_order :
    ∃ (s : RequestManager Nat Unit Connections) (log : List (BehaviourAction Nat Unit)),
      Reachable sampleFirewall [.onNewRequest 7 1 ⟨5, ()⟩ .missingApproval .inbound,
        .onNewRequest 8 2 ⟨6, ()⟩ .missingApproval .outbound] s log ∧
      (admittedIds ([.onNewRequest 7 1 ⟨5, ()⟩ .missingApproval .inbound,
        .onNewRequest 8 2 ⟨6, ()⟩ .missingApproval .outbound] : List (Op Nat Unit Nat))).Pairwise (· < ·) ∧
      s.awaitingApproval.Pairwise (·.1 < ·.1) ∧
      ∀ r d isAllowed, (r, d) ∈ s.awaitingApproval → ∃ front back, s.awaitingApproval = front ++ (r, d) :: back ∧
        s.onRequestApproval r isAllowed = { s with awaitingApproval := front ++ back }.handleRequestApproval r d isAllowed := by
  have first : Reachable sampleFirewall [.onNewRequest 7 1 ⟨5, ()⟩ .missingApproval .inbound] _ _ :=
    .step (C := Connections) .new (fun _ admits => by cases admits; decide) rfl
  have reach : Reachable sampleFirewall
      ([.onNewRequest 7 1 ⟨5, ()⟩ .missingApproval .inbound] ++ [.onNewRequest 8 2 ⟨6, ()⟩ .missingApproval .outbound])
        _ _ :=
    .step first (fun _ admits => by cases admits; decide) rfl
  have increasing : (admittedIds ([.onNewRequest 7 1 ⟨5, ()⟩ .missingApproval .inbound,
      .onNewRequest 8 2 ⟨6, ()⟩ .missingApproval .outbound] : List (Op Nat Unit Nat))).Pairwise (· < ·) := by
    decide
  exact ⟨_, _, reach, increasing,
    reachable_approval_sorted reach increasing fun peer rules dir mem => by simp at mem⟩

section Again

variable {fw : Firewall Rq P Q V} {ops : List (Op Rq Tx Q)} {s : RequestManager Rq Tx C}
  {log : List (BehaviourAction Rq Tx)}

/-- On any manager, `on_request_approval` for an id with no entry in `awaiting_approval` returns
`None` and changes nothing. -/
theorem onRequestApproval_of_absent {r : RequestId} (absent : ∀ d, (r, d) ∉ s.awaitingApproval) (isAllowed : Bool) :
    s.onRequestApproval r isAllowed = (none, s) := by
  rcases onRequestApproval_uniform s r with miss | ⟨front, back, d, whole, -⟩
  · exact miss isAllowed
  · exact absurd (whole ▸ List.mem_append_right front (.head _)) (absent d)

omit [PeerConnectionManager C] in
theorem WellFormed.absent_of_remove (wf : WellFormed s) {r : RequestId} {d : RequestDirection}
    {front back : List (RequestId × RequestDirection)} (whole : s.awaitingApproval = front ++ (r, d) :: back)
    (d' : RequestDirection) : (r, d') ∉ front ++ back := fun kept => by
  have once := wf.waiting_once r _ (mem_waitingAt_approval.mpr (whole ▸ List.mem_append_right front (.head _)))
    (.approval d')
  have still := List.count_pos_iff.mpr
    (mem_waitingAt_approval (s := { s with awaitingApproval := front ++ back }).mpr kept)
  rw [count_waitingAt_remove whole] at once
  simp only [and_true] at once
  split_ifs at once <;> omega

/-- On a reachable manager the host's decision on an id takes effect once: after
`on_request_approval(r, first)`, a second `on_request_approval(r, second)`, with either decision,
returns `None` and changes nothing (no store, waiting list, connection bookkeeping or action). -/
theorem reachable_approval_once (reach : Reachable fw ops s log) (r : RequestId) (first second : Bool) :
    (s.onRequestApproval r first).2.onRequestApproval r second = (none, (s.onRequestApproval r first).2) := by
  rcases onRequestApproval_uniform s r with miss | ⟨front, back, d, whole, call⟩
  · rw [miss first, miss second]
  · rw [call first]
    exact onRequestApproval_of_absent (fun d' => by
      rw [awaitingApproval_handleRequestApproval]
      exact reach.invariant.wellFormed.absent_of_remove whole d') second

end Again

theorem approval_decided_once :
    ∃ (s : RequestManager Nat Unit Connections) (log : List (BehaviourAction Nat Unit)),
      Reachable sampleFirewall [.onNewRequest 7 1 ⟨5, ()⟩ .missingApproval .inbound] s log ∧
      (s.onRequestApproval 1 true).2.onRequestApproval 1 false = (none, (s.onRequestApproval 1 true).2) := by
  have reach : Reachable sampleFirewall [.onNewRequest 7 1 ⟨5, ()⟩ .missingApproval .inbound] _ _ :=
    .step (C := Connections) .new (fun _ admits => by cases admits; decide) rfl
  exact ⟨_, _, reach, reachable_approval_once reach 1 true false⟩

end P2p
