import P2p.Connections

/-!
The queue of `BehaviourAction`s. Every method of the manager but `take_next_action` only adds
actions at the end of `actions`, and `take_next_action` takes the one at its head
(`Op.taken_append_actions`). So along any run, from any manager, what `take_next_action`
returned followed by what is still queued is what was queued before followed by everything the
calls queued, in the order they queued it (`trace_fifo`): no action is lost, repeated or
reordered, the sixth invariant of the spec. The capacity of the `VecDeque` is left out.
-/

namespace P2p

open PeerConnectionManager RequestManager

variable {Rq Tx C P Q V : Type} [PeerConnectionManager C]

section Appends

variable (s : RequestManager Rq Tx C)

omit [PeerConnectionManager C] in
/-- Each turn of a loop only adds actions at the end; so does the loop, from a manager whose queue
extends that of `s`. -/
theorem actions_prefix_foldl {α : Type} (f : RequestManager Rq Tx C → α → RequestManager Rq Tx C)
    (appends : ∀ s a, s.actions <+: (f s a).actions) {s₀ : RequestManager Rq Tx C}
    (start : s.actions <+: s₀.actions) (items : List α) : s.actions <+: (items.foldl f s₀).actions := by
  induction items generalizing s₀ with
  | nil => exact start
  | cons a items ih => exact ih (start.trans (appends s₀ a))

omit [PeerConnectionManager C] in
theorem actions_of_take {requestId : RequestId} {direction : RequestDirection}
    {taken : Option (PeerId × RequestMessage Rq Tx)} {s' : RequestManager Rq Tx C}
    (took : s.takeStoredRequest requestId direction = (taken, s')) : s'.actions = s.actions := by
  simpa [actions_takeStoredRequest] using (congrArg (·.2.actions) took).symm

theorem actions_prefix_handleRequestApproval (requestId : RequestId) (direction : RequestDirection)
    (isAllowed : Bool) : s.actions <+: (s.handleRequestApproval requestId direction isAllowed).2.actions := by
  unfold handleRequestApproval
  split
  · split <;> rename_i took <;> simp only [actions_of_take s took, pushBack, List.prefix_append,
      List.prefix_refl]
  · split
    · exact List.prefix_refl _
    · split
      · split <;> rename_i took <;>
          simp only [actions_of_take _ took, addReadyRequest, pushBack, List.prefix_append, List.prefix_refl]
      · split
        · split <;> rename_i took <;> simp only [actions_of_take _ took, pushBack, List.prefix_append,
            List.prefix_refl]
        · exact List.prefix_append _ _

theorem actions_prefix_onNewRequest (peer : PeerId) (requestId : RequestId) (request : RequestMessage Rq Tx)
    (approvalStatus : ApprovalStatus) (direction : RequestDirection) :
    s.actions <+: (s.onNewRequest peer requestId request approvalStatus direction).actions := by
  cases approvalStatus <;> dsimp only [onNewRequest]
  case missingRule | missingApproval => cases direction <;> exact List.prefix_refl _
  case approved =>
    split
    · exact List.prefix_append _ _
    · cases direction <;> exact List.prefix_append _ _
  case rejected => exact List.prefix_append _ _

theorem actions_prefix_flushConnection :
    ∀ (s : RequestManager Rq Tx C) (requests : List RequestId) {s' : RequestManager Rq Tx C},
      s.flushConnection requests = some s' → s.actions <+: s'.actions
  | s, [], _, flushed => by cases flushed; exact List.prefix_refl _
  | s, requestId :: rest, s', flushed => by
    unfold flushConnection at flushed
    split at flushed
    · rename_i took
      rw [← actions_of_take s took]
      exact actions_prefix_flushConnection _ rest flushed
    · rename_i took
      split at flushed
      · cases flushed
      · rw [← actions_of_take s took]
        exact (List.prefix_append _ _).trans (actions_prefix_flushConnection _ rest flushed)

theorem actions_prefix_onPeerConnected (peer : PeerId) {s' : RequestManager Rq Tx C}
    (connected : s.onPeerConnected peer = some s') : s.actions <+: s'.actions := by
  unfold onPeerConnected at connected
  split at connected
  · cases connected; exact List.prefix_refl _
  · split at connected
    · cases connected; exact List.prefix_refl _
    · have flushed := actions_prefix_flushConnection _ _ connected
      exact flushed

omit [PeerConnectionManager C] in
theorem actions_prefix_onDialFailure (peer : PeerId) : s.actions <+: (s.onDialFailure peer).actions := by
  unfold onDialFailure
  split
  · exact List.prefix_refl _
  · refine actions_prefix_foldl s _ (fun s requestId => ?_) ?_ _
    · simp only [failDial, pushBack, actions_takeStoredRequest, List.prefix_append]
    · exact List.prefix_refl _

theorem actions_prefix_applyRule (fw : Firewall Rq P Q V) (rules : FirewallRules Q) (requestId : RequestId)
    (dir : RequestDirection) : s.actions <+: (s.applyRule fw rules requestId dir).2.actions := by
  unfold applyRule
  split
  · split
    · exact List.prefix_refl _
    · exact List.prefix_refl _
  · split
    · exact actions_prefix_handleRequestApproval s _ _ _
    · exact List.prefix_refl _
  · exact actions_prefix_handleRequestApproval s _ _ _

theorem actions_prefix_onPeerRule (fw : Firewall Rq P Q V) (peer : PeerId) (rules : FirewallRules Q)
    (direction : RuleDirection) : s.actions <+: (s.onPeerRule fw peer rules direction).2.actions := by
  rw [onPeerRule_eq]
  split
  · exact List.prefix_refl _
  · simp only [actions_restorePeerRule, applyRules_snd]
    refine actions_prefix_foldl s _
      (fun s (entry : RequestId × RequestDirection) => actions_prefix_applyRule s fw rules entry.1 entry.2) ?_ _
    exact List.prefix_refl _

omit [PeerConnectionManager C] in
theorem actions_prefix_onNoPeerRule (peer : PeerId) (direction : RuleDirection) :
    s.actions <+: (s.onNoPeerRule peer direction).actions := by
  have rejects : ∀ d s requestId, (s : RequestManager Rq Tx C).actions <+: (rejectAwaiting peer d s requestId).actions :=
    fun d s requestId => by simp only [rejectAwaiting, pushBack, actions_takeStoredRequest, List.prefix_append]
  rw [onNoPeerRule_eq]
  split
  · exact List.prefix_refl _
  · rw [actions_restorePeerRule]
    refine actions_prefix_foldl s _ (rejects .outbound) (actions_prefix_foldl s _ (rejects .inbound) ?_ _) _
    exact List.prefix_refl _

theorem actions_prefix_onRequestApproval (requestId : RequestId) (isAllowed : Bool) :
    s.actions <+: (s.onRequestApproval requestId isAllowed).2.actions := by
  rcases onRequestApproval_cases s requestId isAllowed with same | ⟨front, back, d, -, same⟩
  · simp only [same, List.prefix_refl]
  · rw [same]
    exact actions_prefix_handleRequestApproval { s with awaitingApproval := front ++ back } requestId d isAllowed

theorem actions_prefix_onConnectionClosed (peer : PeerId) (connection : ConnectionId) :
    s.actions <+: (s.onConnectionClosed peer connection).actions := by
  unfold onConnectionClosed
  split
  · exact List.prefix_refl _
  · simp only [List.append_assoc, List.prefix_append]

theorem actions_prefix_onPeerDisconnected (peer : PeerId) : s.actions <+: (s.onPeerDisconnected peer).actions := by
  unfold onPeerDisconnected
  split
  · exact List.prefix_refl _
  · refine actions_prefix_foldl s _ (fun s conn => actions_prefix_onConnectionClosed s peer conn) ?_ _
    exact List.prefix_refl _

theorem actions_prefix_onResponse (connection : ConnectionId) (requestId : RequestId) (direction : RequestDirection)
    (failure : Option (BehaviourAction Rq Tx)) :
    s.actions <+: (s.onResponse connection requestId direction failure).actions := by
  unfold onResponse
  cases failure
  · exact List.prefix_refl _
  · exact List.prefix_append _ _

end Appends

/-- What a call takes from the head of the queue: the action `take_next_action` returns. -/
def Op.taken (s : RequestManager Rq Tx C) : Op Rq Tx Q → List (BehaviourAction Rq Tx)
  | .takeNextAction => s.takeNextAction.1.toList
  | _ => []

omit [PeerConnectionManager C] in
theorem actions_eq_of_prefix {s s' : RequestManager Rq Tx C} (appends : s.actions <+: s'.actions) :
    s'.actions = s.actions ++ queued s s' := by
  obtain ⟨pushed, actions⟩ := appends
  rw [queued_of_actions actions.symm, actions]

/-- A call takes what it returns from the head of the queue and adds what it queues at the end. -/
theorem Op.taken_append_actions (fw : Firewall Rq P Q V) {s s' : RequestManager Rq Tx C} {op : Op Rq Tx Q}
    (exec : op.exec fw s = some s') : op.taken s ++ s'.actions = s.actions ++ queued s s' := by
  have appends : s.actions <+: s'.actions → op.taken s = [] →
      op.taken s ++ s'.actions = s.actions ++ queued s s' :=
    fun appends none => by rw [none, List.nil_append, actions_eq_of_prefix appends]
  cases op
  case onPeerConnected peer => exact appends (actions_prefix_onPeerConnected s peer exec) rfl
  case takeNextAction =>
    cases exec
    unfold Op.taken RequestManager.takeNextAction queued
    rcases queue : s.actions with _ | ⟨action, rest⟩ <;> simp [queue]
  all_goals
    cases exec
    refine appends ?_ rfl
  case onNewRequest => exact actions_prefix_onNewRequest _ _ _ _ _ _
  case onPeerDisconnected => exact actions_prefix_onPeerDisconnected _ _
  case onConnectionClosed => exact actions_prefix_onConnectionClosed _ _ _
  case onDialFailure => exact actions_prefix_onDialFailure _ _
  case onPeerRule => exact actions_prefix_onPeerRule _ _ _ _ _
  case onNoPeerRule => exact actions_prefix_onNoPeerRule _ _ _
  case onRequestApproval => exact actions_prefix_onRequestApproval _ _ _
  case onResForInbound | onResForOutbound => exact actions_prefix_onResponse _ _ _ _ _
  case onConnectionEstablished | addPendingRuleRequests => exact List.prefix_refl _
  case setProtocolSupport => exact List.prefix_append _ _

/-- The calls `ops` from `s`: the manager they leave, what `take_next_action` returned and what
the calls queued, in order; `none` once a call panicked. -/
def Op.trace (fw : Firewall Rq P Q V) (s : RequestManager Rq Tx C) :
    List (Op Rq Tx Q) →
      Option (RequestManager Rq Tx C × List (BehaviourAction Rq Tx) × List (BehaviourAction Rq Tx))
  | [] => some (s, [], [])
  | op :: ops => (op.exec fw s).bind fun s' =>
      (trace fw s' ops).map fun rest => (rest.1, op.taken s ++ rest.2.1, queued s s' ++ rest.2.2)

/-- Along every run from every manager, what `take_next_action` returned followed by what is still
queued is what was queued at the start followed by everything the calls queued, in order. -/
theorem trace_fifo (fw : Firewall Rq P Q V) :
    ∀ {s s' : RequestManager Rq Tx C} {ops : List (Op Rq Tx Q)} {taken pushed : List (BehaviourAction Rq Tx)},
      Op.trace fw s ops = some (s', taken, pushed) → taken ++ s'.actions = s.actions ++ pushed
  | _, _, [], _, _, traced => by cases traced; simp
  | s, _, op :: ops, _, _, traced => by
    simp only [Op.trace, Option.bind_eq_some, Option.map_eq_some'] at traced
    obtain ⟨s₁, exec, rest, traced', same⟩ := traced
    cases same
    calc (op.taken s ++ rest.2.1) ++ rest.1.actions
        = op.taken s ++ (s₁.actions ++ rest.2.2) := by rw [List.append_assoc, trace_fifo fw traced']
      _ = s.actions ++ (queued s s₁ ++ rest.2.2) := by
        rw [← List.append_assoc, Op.taken_append_actions fw exec, List.append_assoc]

theorem rejected_then_taken_fifo :
    ∃ (s : RequestManager Nat Unit Connections) (taken pushed : List (BehaviourAction Nat Unit)),
      Op.trace sampleFirewall .new [.onNewRequest 7 1 ⟨5, ()⟩ .rejected .inbound, .takeNextAction] =
        some (s, taken, pushed) ∧
      taken ++ s.actions = (RequestManager.new : RequestManager Nat Unit Connections).actions ++ pushed :=
  ⟨_, _, _, rfl, trace_fifo sampleFirewall
    (show Op.trace sampleFirewall .new [.onNewRequest 7 1 ⟨5, ()⟩ .rejected .inbound, .takeNextAction] = _ from rfl)⟩

end P2p
