import P2p.RequestManager

/-!
Runs of the request manager from `RequestManager::new()`.

An `Op` is a call of one of the methods that change the manager. `Reachable fw ops s log` says
that the calls `ops`, in order, lead from `new` to `s` without a panic, with a fresh id for every
`on_new_request`. `log` is every action the six deciding methods (`on_new_request`,
`on_peer_connected`, `on_dial_failure`, `on_peer_rule`, `on_no_peer_rule`,
`on_request_approval`) queued: `take_next_action` pops the queue, the log keeps them.
-/

namespace P2p

open RequestManager

variable {Rq Tx C P Q V : Type} [PeerConnectionManager C]

inductive Op (Rq Tx Q : Type) where
  | onNewRequest (peer : PeerId) (requestId : RequestId) (request : RequestMessage Rq Tx)
      (approvalStatus : ApprovalStatus) (direction : RequestDirection)
  | onPeerConnected (peer : PeerId)
  | onPeerDisconnected (peer : PeerId)
  | onConnectionEstablished (peer : PeerId) (connection : ConnectionId)
  | onConnectionClosed (peer : PeerId) (connection : ConnectionId)
  | onDialFailure (peer : PeerId)
  | onPeerRule (peer : PeerId) (rules : FirewallRules Q) (direction : RuleDirection)
  | onNoPeerRule (peer : PeerId) (direction : RuleDirection)
  | onRequestApproval (requestId : RequestId) (isAllowed : Bool)
  | onResForInbound (peer : PeerId) (connection : ConnectionId) (requestId : RequestId)
      (result : Except InboundFailure Unit)
  | onResForOutbound (peer : PeerId) (connection : ConnectionId) (requestId : RequestId)
      (result : Except OutboundFailure Unit)
  | addPendingRuleRequests (peer : PeerId) (direction : RuleDirection)
  | setProtocolSupport (peer : PeerId) (connection : Option ConnectionId) (support : ProtocolSupport)
  | takeNextAction

namespace Op

/-- The call on the manager; `none` when it panics. -/
def exec (fw : Firewall Rq P Q V) (s : RequestManager Rq Tx C) : Op Rq Tx Q → Option (RequestManager Rq Tx C)
  | onNewRequest peer requestId request approvalStatus direction =>
      some (s.onNewRequest peer requestId request approvalStatus direction)
  | onPeerConnected peer => s.onPeerConnected peer
  | onPeerDisconnected peer => some (s.onPeerDisconnected peer)
  | onConnectionEstablished peer connection => some (s.onConnectionEstablished peer connection)
  | onConnectionClosed peer connection => some (s.onConnectionClosed peer connection)
  | onDialFailure peer => some (s.onDialFailure peer)
  | onPeerRule peer rules direction => some (s.onPeerRule fw peer rules direction).2
  | onNoPeerRule peer direction => some (s.onNoPeerRule peer direction)
  | onRequestApproval requestId isAllowed => some (s.onRequestApproval requestId isAllowed).2
  | onResForInbound peer connection requestId result =>
      some (s.onResForInbound peer connection requestId result)
  | onResForOutbound peer connection requestId result =>
      some (s.onResForOutbound peer connection requestId result)
  | addPendingRuleRequests peer direction => some (s.addPendingRuleRequests peer direction)
  | setProtocolSupport peer connection support => some (s.setProtocolSupport peer connection support)
  | takeNextAction => some s.takeNextAction.2

/-- The six methods that decide the fate of waiting requests. -/
def decides : Op Rq Tx Q → Bool
  | onNewRequest .. | onPeerConnected _ | onDialFailure _ | onPeerRule .. | onNoPeerRule ..
  | onRequestApproval .. => true
  | _ => false

def admits : Op Rq Tx Q → Option RequestId
  | onNewRequest _ requestId _ _ _ => some requestId
  | _ => none

end Op

def admittedIds (ops : List (Op Rq Tx Q)) : List RequestId := ops.filterMap Op.admits

/-- What a call queued: the actions past the old end of the queue. -/
def queued (s s' : RequestManager Rq Tx C) : List (BehaviourAction Rq Tx) :=
  s'.actions.drop s.actions.length

inductive Reachable (fw : Firewall Rq P Q V) :
    List (Op Rq Tx Q) → RequestManager Rq Tx C → List (BehaviourAction Rq Tx) → Prop
  | new : Reachable fw [] RequestManager.new []
  | step {ops : List (Op Rq Tx Q)} {s : RequestManager Rq Tx C} {log op s'} :
      Reachable fw ops s log → (∀ requestId, op.admits = some requestId → requestId ∉ admittedIds ops) →
      op.exec fw s = some s' →
      Reachable fw (ops ++ [op]) s' (if op.decides then log ++ queued s s' else log)

def runStep (fw : Firewall Rq P Q V) (acc : Option (RequestManager Rq Tx C × List (BehaviourAction Rq Tx)))
    (op : Op Rq Tx Q) : Option (RequestManager Rq Tx C × List (BehaviourAction Rq Tx)) :=
  acc.bind fun entry => (op.exec fw entry.1).map fun s' =>
    (s', if op.decides then entry.2 ++ queued entry.1 s' else entry.2)

/-- The run of `ops` from `new`, with the log of the deciding calls. -/
def runOps (fw : Firewall Rq P Q V) (ops : List (Op Rq Tx Q)) :
    Option (RequestManager Rq Tx C × List (BehaviourAction Rq Tx)) :=
  ops.foldl (runStep fw) (some (RequestManager.new, []))

variable {fw : Firewall Rq P Q V}

theorem runOps_append_singleton (ops : List (Op Rq Tx Q)) (op : Op Rq Tx Q) :
    (runOps fw (ops ++ [op]) : Option (RequestManager Rq Tx C × _)) = runStep fw (runOps fw ops) op := by
  simp [runOps, List.foldl_append]

theorem Reachable.runOps_eq {ops : List (Op Rq Tx Q)} {s : RequestManager Rq Tx C}
    {log : List (BehaviourAction Rq Tx)} (reach : Reachable fw ops s log) : runOps fw ops = some (s, log) := by
  induction reach with
  | new => rfl
  | step _ _ exec ih => simp [runOps_append_singleton, ih, runStep, exec]

theorem Reachable.of_append {ops' : List (Op Rq Tx Q)} {s : RequestManager Rq Tx C}
    {log : List (BehaviourAction Rq Tx)} (reach : Reachable fw ops' s log) :
    ∀ ops more, ops' = ops ++ more →
      ∃ (s₀ : RequestManager Rq Tx C) (log₀ : List (BehaviourAction Rq Tx)), Reachable fw ops s₀ log₀ ∧ log₀ <+: log := by
  induction reach with
  | new =>
      intro ops more split
      obtain rfl : ops = [] := (List.append_eq_nil.mp split.symm).1
      exact ⟨_, _, .new, List.prefix_refl _⟩
  | step reach fresh exec ih =>
      intro ops more split
      rcases List.eq_nil_or_concat more with rfl | ⟨more, last, rfl⟩
      · rw [List.append_nil] at split
        subst split
        exact ⟨_, _, .step reach fresh exec, List.prefix_refl _⟩
      · rw [List.concat_eq_append, ← List.append_assoc] at split
        obtain ⟨before, -⟩ := List.append_inj' split rfl
        obtain ⟨s₀, log₀, reach₀, earlier⟩ := ih ops more before
        refine ⟨s₀, log₀, reach₀, earlier.trans ?_⟩
        split <;> simp

end P2p
