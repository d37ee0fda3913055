import P2p.PeerRule
import P2p.Release

/-!
The life of one request, as the spec draws it (4.5). Admitted, a request waits for its peer's rule,
for its own approval or for a connection, and ends with its outcome. `Phase` names these places
and `Phase.Moves` the edges of the diagram: the rule's answer moves a request on to approval, to a
connection or to its outcome; an approval on to a connection or to its outcome; a connection to
its outcome. Nothing moves a request back. On every reachable state each request has exactly one
phase (`PhaseOf`). Each call moves every request it does not admit along one edge or leaves it
where it is, and `on_new_request` puts the request it admits where its status says.

A call is followed through `Descends s t r`: from `s` to `t` request `r` kept its stored entry or
lost it, and went only to places that its place in `s` leads to. Each call is a sequence of steps
that keep `Descends` from the state the call started in.
-/

namespace P2p

open PeerConnectionManager RequestManager

variable {Rq Tx C P Q V : Type} [PeerConnectionManager C]

/-- Modelled from the spec (4.5): where a request is in its life. A request awaiting approval is
named with the peer it came from, as the other waiting places are. `settled` is held by no store:
its outcome is queued, or it was never admitted. -/
inductive Phase where
  | awaitingRule (peer : PeerId) (direction : RequestDirection)
  | awaitingApproval (peer : PeerId) (direction : RequestDirection)
  | awaitingConnection (peer : PeerId)
  | settled
  deriving DecidableEq

/-- Modelled from the spec (4.5): the edges of the state machine of one request. -/
inductive Phase.Moves : Phase → Phase → Prop
  | stay (phase : Phase) : Moves phase phase
  | ask (peer : PeerId) (d : RequestDirection) : Moves (.awaitingRule peer d) (.awaitingApproval peer d)
  | dialAfterRule (peer : PeerId) : Moves (.awaitingRule peer .outbound) (.awaitingConnection peer)
  | dialAfterApproval (peer : PeerId) : Moves (.awaitingApproval peer .outbound) (.awaitingConnection peer)
  | settle (phase : Phase) : Moves phase .settled

/-- Modelled from the spec (4.5): where `on_new_request(peer, _, _, status, d)` puts its request. -/
inductive Phase.Enters : ApprovalStatus → PeerId → RequestDirection → Phase → Prop
  | rule (peer : PeerId) (d : RequestDirection) : Enters .missingRule peer d (.awaitingRule peer d)
  | approval (peer : PeerId) (d : RequestDirection) : Enters .missingApproval peer d (.awaitingApproval peer d)
  | dial (peer : PeerId) : Enters .approved peer .outbound (.awaitingConnection peer)
  | approved (peer : PeerId) (d : RequestDirection) : Enters .approved peer d .settled
  | rejected (peer : PeerId) (d : RequestDirection) : Enters .rejected peer d .settled

/-- Request `r` is at `phase` in `s`. -/
def PhaseOf (s : RequestManager Rq Tx C) (r : RequestId) : Phase → Prop
  | .awaitingRule peer d => r ∈ waitingAt s (.peerRule peer d)
  | .awaitingApproval peer d => r ∈ waitingAt s (.approval d) ∧ ∃ request, s.requestStore d r = some (peer, request)
  | .awaitingConnection peer => r ∈ waitingAt s (.connection peer)
  | .settled => ∀ d, s.requestStore d r = none

section Unique

variable {s : RequestManager Rq Tx C} {r : RequestId}

omit [PeerConnectionManager C] in
theorem WellFormed.exists_phaseOf (wf : WellFormed s) (r : RequestId) : ∃ phase, PhaseOf s r phase := by
  by_cases stored : ∃ d entry, s.requestStore d r = some entry
  · obtain ⟨slot, mem⟩ := (wf.stored_iff_waiting r).mp stored
    cases slot with
    | connection peer => exact ⟨.awaitingConnection peer, mem⟩
    | peerRule peer d => exact ⟨.awaitingRule peer d, mem⟩
    | approval d =>
        obtain ⟨peer, request, held⟩ := wf.approval_stored r d (mem_waitingAt_approval.mp mem)
        exact ⟨.awaitingApproval peer d, mem, request, held⟩
  · push_neg at stored
    exact ⟨.settled, fun d => Option.eq_none_iff_forall_not_mem.mpr (stored d)⟩

omit [PeerConnectionManager C] in
theorem WellFormed.phaseOf_eq (wf : WellFormed s) {phase phase' : Phase} (at_ : PhaseOf s r phase)
    (at' : PhaseOf s r phase') : phase' = phase := by
  have stored : ∀ {slot}, r ∈ waitingAt s slot → ¬ ∀ d, s.requestStore d r = none := fun mem gone => by
    obtain ⟨d, entry, held⟩ := (wf.stored_iff_waiting r).mpr ⟨_, mem⟩
    simp [gone] at held
  cases phase with
  | settled =>
      cases phase' with
      | settled => rfl
      | awaitingApproval _ _ => exact absurd at_ (stored at'.1)
      | _ => exact absurd at_ (stored at')
  | awaitingApproval peer d =>
      obtain ⟨mem, request, held⟩ := at_
      cases phase' with
      | settled => exact absurd at' (stored mem)
      | awaitingApproval peer' d' =>
          obtain ⟨mem', request', held'⟩ := at'
          obtain rfl : d' = d := Slot.approval.inj (wf.slot_eq mem mem')
          simp_all
      | _ => simpa using wf.slot_eq mem at'
  | _ =>
      cases phase' with
      | settled => exact absurd at' (stored at_)
      | awaitingApproval _ _ => simpa using wf.slot_eq at_ at'.1
      | _ => simpa using wf.slot_eq at_ at'

omit [PeerConnectionManager C] in
theorem WellFormed.phaseOf_unique (wf : WellFormed s) (r : RequestId) :
    ∃ phase, ∀ phase', PhaseOf s r phase' ↔ phase' = phase := by
  obtain ⟨phase, at_⟩ := wf.exists_phaseOf r
  exact ⟨phase, fun _ => ⟨fun at' => wf.phaseOf_eq at_ at', fun same => same ▸ at_⟩⟩

end Unique

/-- The slots request `r` of `s` can reach: its own, the approval after a rule that asks, and a
connection after a rule or an approval that lets an outbound request through. -/
def Later (s : RequestManager Rq Tx C) (r : RequestId) : Slot → Prop
  | .peerRule peer d => r ∈ waitingAt s (.peerRule peer d)
  | .approval d => r ∈ waitingAt s (.approval d) ∨ ∃ peer, r ∈ waitingAt s (.peerRule peer d)
  | .connection peer => r ∈ waitingAt s (.connection peer) ∨
      ((r ∈ waitingAt s (.approval .outbound) ∨ r ∈ waitingAt s (.peerRule peer .outbound)) ∧
        ∃ request, s.outboundRequestStore r = some (peer, request))

omit [PeerConnectionManager C] in
theorem later_of_mem {s : RequestManager Rq Tx C} {r : RequestId} {slot : Slot}
    (mem : r ∈ waitingAt s slot) : Later s r slot := by
  cases slot with
  | peerRule => exact mem
  | approval => exact .inl mem
  | connection => exact .inl mem

/-- From `s` to `t` request `r` kept its stored entry or lost it, and waits only at slots its
place in `s` leads to. -/
structure Descends (s t : RequestManager Rq Tx C) (r : RequestId) : Prop where
  store : ∀ d entry, t.requestStore d r = some entry → s.requestStore d r = some entry
  later : ∀ slot, r ∈ waitingAt t slot → Later s r slot

namespace Descends

variable {s t : RequestManager Rq Tx C} {r : RequestId}

omit [PeerConnectionManager C] in
theorem refl (s : RequestManager Rq Tx C) (r : RequestId) : Descends s s r :=
  ⟨fun _ _ => id, fun _ => later_of_mem⟩

omit [PeerConnectionManager C] in
theorem shrink (desc : Descends s t r) {t' : RequestManager Rq Tx C}
    (store : ∀ d entry, t'.requestStore d r = some entry → t.requestStore d r = some entry)
    (slots : ∀ slot, r ∈ waitingAt t' slot → r ∈ waitingAt t slot) : Descends s t' r :=
  ⟨fun d entry held => desc.store d entry (store d entry held), fun slot mem => desc.later slot (slots slot mem)⟩

theorem touches (desc : Descends s t r) {r0 : RequestId} {t' : RequestManager Rq Tx C}
    {pushed : List (BehaviourAction Rq Tx)} (step : Touches r0 t t' pushed) (other : r ≠ r0) :
    Descends s t' r :=
  desc.shrink (fun d _ held => step.store r other d ▸ held)
    (fun slot mem => List.count_pos_iff.mp (step.slots r other slot ▸ List.count_pos_iff.mpr mem))

omit [PeerConnectionManager C] in
theorem pushBack (desc : Descends s t r) (action : BehaviourAction Rq Tx) : Descends s (t.pushBack action) r :=
  desc.shrink (fun _ _ => id) (fun _ => id)

omit [PeerConnectionManager C] in
theorem withConnections (desc : Descends s t r) (connections : C) :
    Descends s { t with connections := connections } r :=
  desc.shrink (fun _ _ => id) (fun _ => id)

omit [PeerConnectionManager C] in
theorem take (desc : Descends s t r) (r0 : RequestId) (d : RequestDirection) :
    Descends s (t.takeStoredRequest r0 d).2 r := by
  refine desc.shrink (fun d' entry held => ?_) (fun _ mem => by simpa using mem)
  rw [requestStore_takeStoredRequest] at held
  split at held
  · cases held
  · exact held

omit [PeerConnectionManager C] in
theorem pushApproval (desc : Descends s t r) {r0 : RequestId} {d : RequestDirection}
    (next : r = r0 → Later s r (.approval d)) :
    Descends s { t with awaitingApproval := t.awaitingApproval ++ [(r0, d)] } r := by
  refine ⟨desc.store, fun slot mem => ?_⟩
  rw [waitingAt_pushApproval] at mem
  split at mem
  · subst slot
    rcases List.mem_append.mp mem with old | new
    · exact desc.later _ old
    · exact next (List.mem_singleton.mp new)
  · exact desc.later slot mem

omit [PeerConnectionManager C] in
theorem addDialAttempt (desc : Descends s t r) {peer : PeerId} {r0 : RequestId}
    (next : r = r0 → Later s r (.connection peer)) : Descends s (t.addDialAttempt peer r0) r := by
  refine ⟨desc.store, fun slot mem => ?_⟩
  rw [waitingAt_addDialAttempt] at mem
  split at mem
  · subst slot
    rcases List.mem_append.mp mem with old | new
    · exact desc.later _ old
    · exact next (List.mem_singleton.mp new)
  · exact desc.later slot mem

omit [PeerConnectionManager C] in
theorem peer_eq (desc : Descends s t r) {d : RequestDirection} {peer : PeerId}
    {request : RequestMessage Rq Tx} (held : s.requestStore d r = some (peer, request))
    (other : s.requestStore d.flip r = none) {found : PeerId} (ref : t.getRequestPeerRef r = some found) :
    found = peer := by
  obtain ⟨entry, lookup, rfl⟩ := Option.map_eq_some'.mp ref
  obtain ⟨d', stored⟩ : ∃ d', t.requestStore d' r = some entry := by
    rcases inbound : t.inboundRequestStore r with _ | e
    · rw [inbound, Option.none_or] at lookup
      exact ⟨.outbound, lookup⟩
    · rw [inbound] at lookup
      exact ⟨.inbound, inbound.trans lookup⟩
  have kept := desc.store d' entry stored
  cases d <;> cases d' <;> simp_all [RequestDirection.flip]

omit [PeerConnectionManager C] in
theorem take_eq (desc : Descends s t r) {r0 : RequestId} {d : RequestDirection}
    {entry : Option (PeerId × RequestMessage Rq Tx)} {t' : RequestManager Rq Tx C}
    (taken : t.takeStoredRequest r0 d = (entry, t')) : Descends s t' r := by
  simpa [taken] using desc.take r0 d

theorem handleRequestApproval (desc : Descends s t r) (r0 : RequestId) (d : RequestDirection)
    (isAllowed : Bool)
    (dial : r = r0 → d = .outbound → ∀ peer, t.getRequestPeerRef r0 = some peer → Later s r (.connection peer)) :
    Descends s (t.handleRequestApproval r0 d isAllowed).2 r := by
  unfold RequestManager.handleRequestApproval
  split
  · split
    · exact desc.take_eq ‹_›
    · exact (desc.take_eq ‹_›).pushBack _
  · split
    · exact desc
    · rename_i peer found
      split
      · split
        · exact (desc.withConnections _).take_eq ‹_›
        · exact ((desc.withConnections _).take_eq ‹_›).pushBack _
      · split
        · split
          · exact (desc.withConnections _).take_eq ‹_›
          · exact ((desc.withConnections _).take_eq ‹_›).pushBack _
        · exact (desc.withConnections _).addDialAttempt fun same => dial same rfl peer found

theorem applyRule (wf : WellFormed s) (desc : Descends s t r) (fw : Firewall Rq P Q V)
    (rules : FirewallRules Q) {peer : PeerId} {r0 : RequestId} {d : RequestDirection}
    (waiting : r0 ∈ waitingAt s (.peerRule peer d)) : Descends s (t.applyRule fw rules r0 d).2 r := by
  have dial : r = r0 → d = .outbound → ∀ found, t.getRequestPeerRef r0 = some found →
      Later s r (.connection found) := by
    rintro rfl rfl found ref
    obtain ⟨request, held⟩ := wf.peerRule_stored peer .outbound r waiting
    obtain rfl := desc.peer_eq held (wf.flip_none held) ref
    exact .inr ⟨.inr waiting, request, held⟩
  unfold RequestManager.applyRule
  split
  · split
    · exact desc
    · exact desc.pushApproval fun same => .inr ⟨peer, same ▸ waiting⟩
  · split
    · exact desc.handleRequestApproval r0 d _ dial
    · exact desc
  · exact desc.handleRequestApproval r0 d false dial

omit [PeerConnectionManager C] in
theorem foldl {α : Type} (step : RequestManager Rq Tx C → α → RequestManager Rq Tx C) (items : List α)
    (turn : ∀ t, ∀ x ∈ items, Descends s t r → Descends s (step t x) r) (desc : Descends s t r) :
    Descends s (items.foldl step t) r := by
  induction items generalizing t with
  | nil => exact desc
  | cons x items ih => exact ih (fun t y mem => turn t y (.tail _ mem)) (turn t x (.head _) desc)

omit [PeerConnectionManager C] in
theorem restore (desc : Descends s t r) {peer : PeerId} {awaitRule : RequestDirection → Option (List RequestId)}
    (gone : t.awaitingPeerRule peer = none)
    (kept : ∀ d, r ∈ (awaitRule d).getD [] → r ∈ waitingAt s (.peerRule peer d)) :
    Descends s (P2p.restorePeerRule t peer awaitRule) r := by
  refine ⟨fun d entry held => desc.store d entry (by rwa [requestStore_restorePeerRule] at held),
    fun slot mem => ?_⟩
  cases own : slot.ofPeerRule peer
  · exact desc.later slot (by rwa [waitingAt_restorePeerRule_of_not _ _ _ own] at mem)
  · obtain ⟨d, rfl⟩ := Slot.eq_of_ofPeerRule own
    rw [waitingAt_restorePeerRule gone] at mem
    exact kept d mem

theorem flushConnection (desc : Descends s t r) {requests : List RequestId} {t' : RequestManager Rq Tx C}
    (flushed : t.flushConnection requests = some t') : Descends s t' r := by
  induction requests generalizing t with
  | nil => exact Option.some.inj flushed ▸ desc
  | cons r0 rest ih =>
      unfold RequestManager.flushConnection at flushed
      split at flushed
      · exact ih (desc.take_eq ‹_›) flushed
      · split at flushed
        · cases flushed
        · exact ih (((desc.take_eq ‹_›).withConnections _).pushBack _) flushed

end Descends

section Calls

variable {s : RequestManager Rq Tx C}

theorem Frame.descends {s' : RequestManager Rq Tx C} (frame : Frame s s') (r : RequestId) : Descends s s' r :=
  ⟨fun _ _ held => frame.store ▸ held, fun _ mem => later_of_mem (frame.slots ▸ mem)⟩

omit [PeerConnectionManager C] in
theorem waitingAt_dropConnection (s : RequestManager Rq Tx C) (peer : PeerId) (slot : Slot) :
    waitingAt { s with awaitingConnection := Function.update s.awaitingConnection peer none } slot =
      if slot = .connection peer then [] else waitingAt s slot := by
  cases slot with
  | connection p =>
      by_cases same : p = peer
      · subst same; simp [waitingAt]
      · simp [waitingAt, same]
  | _ => rfl

omit [PeerConnectionManager C] in
theorem descends_dropConnection (s : RequestManager Rq Tx C) (peer : PeerId) (r : RequestId) :
    Descends s { s with awaitingConnection := Function.update s.awaitingConnection peer none } r := by
  refine (Descends.refl s r).shrink (fun _ _ => id) fun slot mem => ?_
  rw [waitingAt_dropConnection] at mem
  split at mem
  · simp at mem
  · exact mem

omit [PeerConnectionManager C] in
theorem descends_dropPeerRule (s : RequestManager Rq Tx C) (peer : PeerId) (r : RequestId) :
    Descends s { s with awaitingPeerRule := Function.update s.awaitingPeerRule peer none } r := by
  refine (Descends.refl s r).shrink (fun _ _ => id) fun slot mem => ?_
  rw [waitingAt_dropPeerRule] at mem
  split at mem
  · simp at mem
  · exact mem

omit [PeerConnectionManager C] in
theorem mem_waitingAt_of_found {peer : PeerId} {awaitRule : RequestDirection → Option (List RequestId)}
    (found : s.awaitingPeerRule peer = some awaitRule) {d : RequestDirection} {r : RequestId}
    (mem : r ∈ (awaitRule d).getD []) : r ∈ waitingAt s (.peerRule peer d) := by
  simpa [waitingAt, found] using mem

omit [PeerConnectionManager C] in
theorem mem_of_mem_remnantRules {awaitRule : RequestDirection → Option (List RequestId)} {dir : RuleDirection}
    {d : RequestDirection} {r : RequestId} (mem : r ∈ (remnantRules awaitRule dir d).getD []) :
    r ∈ (awaitRule d).getD [] := by
  unfold remnantRules at mem
  split at mem
  · simp at mem
  · exact mem

theorem descends_onPeerRule (wf : WellFormed s) (fw : Firewall Rq P Q V) (peer : PeerId)
    (rules : FirewallRules Q) (dir : RuleDirection) (r : RequestId) :
    Descends s (s.onPeerRule fw peer rules dir).2 r := by
  rw [onPeerRule_eq]
  rcases found : s.awaitingPeerRule peer with _ | awaitRule
  · exact Descends.refl s r
  · dsimp only
    rw [applyRules_snd]
    refine ((descends_dropPeerRule s peer r).foldl _ _ fun t entry mem desc =>
      desc.applyRule wf fw rules (mem_waitingAt_of_found found (mem_of_mem_ruleRequests mem))).restore ?_
      fun _ mem => mem_waitingAt_of_found found (mem_of_mem_remnantRules mem)
    rw [awaitingPeerRule_foldl _ fun t (entry : RequestId × RequestDirection) =>
      awaitingPeerRule_applyRule fw rules t entry.1 entry.2]
    simp

omit [PeerConnectionManager C] in
theorem descends_onNoPeerRule (s : RequestManager Rq Tx C) (peer : PeerId) (dir : RuleDirection) (r : RequestId) :
    Descends s (s.onNoPeerRule peer dir) r := by
  rw [onNoPeerRule_eq]
  rcases found : s.awaitingPeerRule peer with _ | awaitRule
  · exact Descends.refl s r
  · have reject : ∀ d (items : List RequestId) t, Descends s t r →
        Descends s (items.foldl (rejectAwaiting peer d) t) r :=
      fun d items _ desc => desc.foldl _ items fun _ _ _ desc => (desc.take _ d).pushBack _
    refine (reject _ _ _ (reject _ _ _ (descends_dropPeerRule s peer r))).restore ?_
      fun _ mem => mem_waitingAt_of_found found (mem_of_mem_remnantRules mem)
    rw [awaitingPeerRule_foldl _ (awaitingPeerRule_rejectAwaiting peer .outbound),
      awaitingPeerRule_foldl _ (awaitingPeerRule_rejectAwaiting peer .inbound)]
    simp

omit [PeerConnectionManager C] in
theorem descends_onDialFailure (s : RequestManager Rq Tx C) (peer : PeerId) (r : RequestId) :
    Descends s (s.onDialFailure peer) r := by
  unfold RequestManager.onDialFailure
  split
  · exact Descends.refl s r
  · exact (descends_dropConnection s peer r).foldl _ _ fun _ _ _ desc => (desc.take _ .outbound).pushBack _

theorem descends_onPeerConnected {peer : PeerId} {s' : RequestManager Rq Tx C}
    (exec : s.onPeerConnected peer = some s') (r : RequestId) : Descends s s' r := by
  unfold RequestManager.onPeerConnected at exec
  split at exec
  · exact Option.some.inj exec ▸ Descends.refl s r
  · split at exec
    · exact Option.some.inj exec ▸ Descends.refl s r
    · exact (descends_dropConnection s peer r).flushConnection exec

theorem descends_onRequestApproval (wf : WellFormed s) (requestId : RequestId) (isAllowed : Bool)
    (r : RequestId) : Descends s (s.onRequestApproval requestId isAllowed).2 r := by
  rcases onRequestApproval_cases s requestId isAllowed with same | ⟨front, back, d, whole, same⟩ <;> rw [same]
  · exact Descends.refl s r
  · have removed : Descends s { s with awaitingApproval := front ++ back } r :=
      (Descends.refl s r).shrink (fun _ _ => id) fun slot mem => by
        have split := count_waitingAt_remove whole slot r
        exact List.count_pos_iff.mp (by have := List.count_pos_iff.mpr mem; omega)
    refine removed.handleRequestApproval requestId d isAllowed fun same outbound found ref => ?_
    subst same outbound
    have mem : r ∈ waitingAt s (.approval .outbound) := mem_waitingAt_approval.mpr (by simp [whole])
    obtain ⟨peer, request, held⟩ := wf.approval_stored r .outbound (mem_waitingAt_approval.mp mem)
    obtain rfl := removed.peer_eq held (wf.flip_none held) ref
    exact .inr ⟨.inl mem, request, held⟩

end Calls

section Runs

variable {fw : Firewall Rq P Q V} {ops : List (Op Rq Tx Q)} {s s' t : RequestManager Rq Tx C}
  {log : List (BehaviourAction Rq Tx)} {op : Op Rq Tx Q} {r : RequestId}

theorem Invariant.unknown (inv : Invariant fw ops s log) {r0 : RequestId} (fresh : r0 ∉ admittedIds ops) :
    (∀ d, s.requestStore d r0 = none) ∧ Nowhere s [] r0 ∧ outcomes log r0 = [] ∧ Granted s r0 0 := by
  have unknown := inv r0
  unfold Tracked at unknown
  rwa [admissionIn_eq_none fresh] at unknown

/-- Every call takes a request it does not admit only to a slot its place leads to. -/
theorem Op.descends (inv : Invariant fw ops s log)
    (fresh : ∀ requestId, op.admits = some requestId → requestId ∉ admittedIds ops)
    (exec : op.exec fw s = some s') (other : op.admits ≠ some r) : Descends s s' r := by
  have wf := inv.wellFormed
  cases op with
  | onNewRequest peer r0 request status d =>
      cases exec
      obtain ⟨unseen, nowhere, silent, granted⟩ := inv.unknown (fresh r0 rfl)
      obtain ⟨_, touches, -⟩ := onNewRequest_admits fw ⟨peer, request, status, d⟩ unseen nowhere silent granted
      exact (Descends.refl s r).touches touches fun same => other (same ▸ rfl)
  | onPeerConnected peer => exact descends_onPeerConnected exec r
  | onDialFailure peer => cases exec; exact descends_onDialFailure s peer r
  | onPeerRule peer rules dir => cases exec; exact descends_onPeerRule wf fw peer rules dir r
  | onNoPeerRule peer dir => cases exec; exact descends_onNoPeerRule s peer dir r
  | onRequestApproval requestId isAllowed => cases exec; exact descends_onRequestApproval wf requestId isAllowed r
  | onPeerDisconnected peer => cases exec; exact (frame_onPeerDisconnected s peer).descends r
  | onConnectionEstablished peer connection =>
      cases exec; exact (frame_onConnectionEstablished s peer connection).descends r
  | onConnectionClosed peer connection => cases exec; exact (frame_onConnectionClosed s peer connection).descends r
  | onResForInbound peer connection requestId result =>
      cases exec; exact (frame_onResponse s connection requestId .inbound _).descends r
  | onResForOutbound peer connection requestId result =>
      cases exec; exact (frame_onResponse s connection requestId .outbound _).descends r
  | addPendingRuleRequests peer dir => cases exec; exact (frame_addPendingRuleRequests s peer dir).descends r
  | setProtocolSupport peer connection support =>
      cases exec
      exact (show Frame s (s.setProtocolSupport peer connection support) from ⟨rfl, rfl, fun _ _ _ => rfl⟩).descends r
  | takeNextAction => cases exec; exact (frame_takeNextAction s).descends r

omit [PeerConnectionManager C] in
/-- A descent is a path of the state machine: from a phase to one it leads to. -/
theorem Descends.moves (wf : WellFormed s) (desc : Descends s t r) {phase phase' : Phase}
    (at_ : PhaseOf s r phase) (at' : PhaseOf t r phase') : Phase.Moves phase phase' := by
  cases phase' with
  | settled => exact .settle phase
  | awaitingRule peer d =>
      obtain rfl := wf.phaseOf_eq at_ (show PhaseOf s r (.awaitingRule peer d) from desc.later _ at')
      exact .stay _
  | awaitingApproval peer d =>
      obtain ⟨mem, request, held⟩ := at'
      have kept := desc.store d _ held
      rcases desc.later _ mem with waits | ⟨peer₀, waits⟩
      · obtain rfl := wf.phaseOf_eq at_ (show PhaseOf s r (.awaitingApproval peer d) from ⟨waits, request, kept⟩)
        exact .stay _
      · obtain ⟨request₀, held₀⟩ := wf.peerRule_stored peer₀ d r waits
        obtain rfl : peer = peer₀ := by simp_all
        obtain rfl := wf.phaseOf_eq at_ (show PhaseOf s r (.awaitingRule peer d) from waits)
        exact .ask _ _
  | awaitingConnection peer =>
      rcases desc.later _ at' with waits | ⟨approval | rule, request, held⟩
      · obtain rfl := wf.phaseOf_eq at_ (show PhaseOf s r (.awaitingConnection peer) from waits)
        exact .stay _
      · obtain rfl := wf.phaseOf_eq at_
          (show PhaseOf s r (.awaitingApproval peer .outbound) from ⟨approval, request, held⟩)
        exact .dialAfterApproval _
      · obtain rfl := wf.phaseOf_eq at_ (show PhaseOf s r (.awaitingRule peer .outbound) from rule)
        exact .dialAfterRule _

theorem onNewRequest_enters (unseen : ∀ d, s.requestStore d r = none) (peer : PeerId)
    (request : RequestMessage Rq Tx) (status : ApprovalStatus) (d : RequestDirection) :
    ∃ phase, PhaseOf (s.onNewRequest peer r request status d) r phase ∧ Phase.Enters status peer d phase := by
  cases status with
  | missingRule =>
      refine ⟨.awaitingRule peer d, ?_, .rule peer d⟩
      show r ∈ waitingAt _ _
      simp only [RequestManager.onNewRequest]
      rw [waitingAt_pushPeerRule]
      simp
  | missingApproval =>
      refine ⟨.awaitingApproval peer d, ⟨?_, request, ?_⟩, .approval peer d⟩ <;> simp only [RequestManager.onNewRequest]
      · rw [waitingAt_pushApproval]
        simp
      · exact (requestStore_storeRequest _ _ _ _ _ _ _).trans (by simp)
  | approved =>
      rcases grant : addRequest s.connections peer r d with ⟨_ | connection, connections⟩
      · cases d with
        | inbound =>
            refine ⟨.settled, fun d' => ?_, .approved peer .inbound⟩
            simp only [RequestManager.onNewRequest, grant]
            exact unseen d'
        | outbound =>
            refine ⟨.awaitingConnection peer, ?_, .dial peer⟩
            show r ∈ waitingAt _ _
            simp only [RequestManager.onNewRequest, grant]
            rw [waitingAt_addDialAttempt]
            simp
      · refine ⟨.settled, fun d' => ?_, .approved peer d⟩
        simp only [RequestManager.onNewRequest, grant]
        exact unseen d'
  | rejected => exact ⟨.settled, unseen, .rejected peer d⟩

/-- The life of one request (spec 4.5), over every run: on a reachable manager each request has
exactly one phase; a call moves a request it does not admit along an edge of the state machine or
leaves it where it is, and puts the request it admits, held nowhere before, where its status says. -/
theorem reachable_phase_moves (reach : Reachable fw ops s log)
    (fresh : ∀ requestId, op.admits = some requestId → requestId ∉ admittedIds ops)
    (exec : op.exec fw s = some s') (r : RequestId) :
    ∃ phase phase', (∀ p, PhaseOf s r p ↔ p = phase) ∧ (∀ p, PhaseOf s' r p ↔ p = phase') ∧
      (op.admits ≠ some r → Phase.Moves phase phase') ∧
      ∀ peer request status d, op = .onNewRequest peer r request status d →
        phase = .settled ∧ Phase.Enters status peer d phase' := by
  have inv := reach.invariant
  obtain ⟨phase, unique⟩ := inv.wellFormed.phaseOf_unique r
  obtain ⟨phase', unique'⟩ := (reach.step fresh exec).invariant.wellFormed.phaseOf_unique r
  refine ⟨phase, phase', unique, unique', fun other =>
    (Op.descends inv fresh exec other).moves inv.wellFormed ((unique phase).mpr rfl) ((unique' phase').mpr rfl), ?_⟩
  rintro peer request status d rfl
  cases exec
  obtain ⟨entered, at', enters⟩ := onNewRequest_enters (inv.unknown (fresh r rfl)).1 peer request status d
  exact ⟨((unique .settled).mp (inv.unknown (fresh r rfl)).1).symm, (unique' _).mp at' ▸ enters⟩

end Runs

theorem asked_request_moves :
    ∃ (s s' : RequestManager Nat Unit Connections) (log : List (BehaviourAction Nat Unit)),
      Reachable sampleFirewall [.onNewRequest 7 1 ⟨5, ()⟩ .missingRule .inbound] s log ∧
      (Op.onPeerRule 7 ⟨some .ask, none⟩ .inbound : Op Nat Unit Nat).exec sampleFirewall s = some s' ∧
      ∃ phase phase', (∀ p, PhaseOf s 1 p ↔ p = phase) ∧ (∀ p, PhaseOf s' 1 p ↔ p = phase') ∧
        ((Op.onPeerRule 7 ⟨some .ask, none⟩ .inbound : Op Nat Unit Nat).admits ≠ some 1 → Phase.Moves phase phase') ∧
        ∀ peer request status d, (Op.onPeerRule 7 ⟨some .ask, none⟩ .inbound : Op Nat Unit Nat) =
          .onNewRequest peer 1 request status d → phase = .settled ∧ Phase.Enters status peer d phase' := by
  have reach : Reachable sampleFirewall [.onNewRequest 7 1 ⟨5, ()⟩ .missingRule .inbound] _ _ :=
    .step (C := Connections) .new (fun _ admits => by cases admits; decide) rfl
  have exec : (Op.onPeerRule 7 ⟨some .ask, none⟩ .inbound : Op Nat Unit Nat).exec sampleFirewall
      ((RequestManager.new : RequestManager Nat Unit Connections).onNewRequest 7 1 ⟨5, ()⟩ .missingRule .inbound) =
        some _ := rfl
  exact ⟨_, _, _, reach, exec, reachable_phase_moves reach (fun _ admits => by cases admits) exec 1⟩

end P2p
