import P2p.WellFormed

/-!
The outcomes of an admitted request over a whole run. Its `*Ready` or `*Failure` actions in the log
of the deciding methods number at most one, none exactly while it is stored, and that one names its
peer and direction. Over `Recorded` connection bookkeeping, which forwards every call and logs the
granted `add_request`s, the outcome is `*Ready` exactly when `add_request` granted the request,
which it does at most once.
-/

namespace P2p

open PeerConnectionManager

variable {Rq Tx C P Q V : Type} [PeerConnectionManager C] {fw : Firewall Rq P Q V}
  {ops : List (Op Rq Tx Q)} {log : List (BehaviourAction Rq Tx)}

/-- The outcomes of a tracked, admitted request: at most one, none while it is stored, of its peer
and direction, and `*Ready` iff granted. -/
theorem Tracked.outcomes_of_admitted {s : RequestManager Rq Tx C} {r : RequestId} {a : Admission Rq Tx}
    {post : List (Op Rq Tx Q)} (tracked : Tracked fw ops s log [] r) (admitted : admissionIn r ops = some (a, post)) :
    (outcomes log r).length ≤ 1 ∧ (outcomes log r = [] ↔ ∃ d entry, s.requestStore d r = some entry) ∧
      (∀ action ∈ outcomes log r, action.outcome = some (r, a.peer, a.direction)) ∧
      Granted s r (if ∃ action ∈ outcomes log r, action.isReady then 1 else 0) := by
  unfold Tracked at tracked
  rw [admitted] at tracked
  rcases tracked with ⟨stored, -, silent, granted, -⟩ | ⟨gone, -, action, single, reports, -, granted⟩
  · exact ⟨by simp [silent], ⟨fun _ => ⟨_, _, stored⟩, fun _ => silent⟩, by simp [silent],
      by simpa [silent] using granted⟩
  · refine ⟨by simp [single], by simp [single, gone], by simp [single, reports], ?_⟩
    simpa [single] using granted

theorem reachable_outcomes {s : RequestManager Rq Tx (Recorded C)} {log : List (BehaviourAction Rq Tx)}
    (reach : Reachable fw ops s log) {r : RequestId} {peer : PeerId} {request : RequestMessage Rq Tx}
    {status : ApprovalStatus} {d : RequestDirection} {post : List (Op Rq Tx Q)}
    (admitted : admissionIn r ops = some (⟨peer, request, status, d⟩, post)) :
    (outcomes log r).length ≤ 1 ∧
      (outcomes log r = [] ↔ ∃ d' entry, s.requestStore d' r = some entry) ∧
      (∀ action ∈ outcomes log r, action.outcome = some (r, peer, d)) ∧
      ((∃ action ∈ outcomes log r, action.isReady) ↔ r ∈ s.connections.grants) ∧
      s.connections.grants.count r ≤ 1 := by
  obtain ⟨single, silent, reports, granted⟩ := (reach.invariant r).outcomes_of_admitted admitted
  have count := granted _ Recorded.grantCounter
  refine ⟨single, silent, reports, ?_, by split at count <;> omega⟩
  rw [← List.count_pos_iff]
  split at count <;> simp_all

theorem one_request_outcomes :
    ∃ (s : RequestManager Nat Unit (Recorded Connections)) (log : List (BehaviourAction Nat Unit)),
      Reachable sampleFirewall [.onNewRequest 7 1 ⟨5, ()⟩ .approved .outbound] s log ∧
      ((outcomes log 1).length ≤ 1 ∧
        (outcomes log 1 = [] ↔ ∃ d' entry, s.requestStore d' 1 = some entry) ∧
        (∀ action ∈ outcomes log 1, action.outcome = some (1, 7, .outbound)) ∧
        ((∃ action ∈ outcomes log 1, action.isReady) ↔ 1 ∈ s.connections.grants) ∧
        s.connections.grants.count 1 ≤ 1) := by
  have reach : Reachable sampleFirewall [.onNewRequest 7 1 ⟨5, ()⟩ .approved .outbound] _ _ :=
    .step (C := Recorded Connections) .new (fun _ admits => by cases admits; decide) rfl
  exact ⟨_, _, reach, reachable_outcomes reach rfl⟩

end P2p
