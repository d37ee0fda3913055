import P2p.Tracked

/-!
The request-level steps the methods are made of. Each handles one request `r0`: it may change
`r0`'s store entries, places, grants and outcomes, and `Touches` says it changes nothing of any
other request. While a method handles `r0`, the request is `InHand`: stored and without an
outcome, but at no place. The lemmas here take a request from a place into the hand
(`Tracked.pop`) and say where each step puts it.
-/

namespace P2p

open PeerConnectionManager RequestManager

variable {Rq Tx C P Q V : Type} [PeerConnectionManager C] {fw : Firewall Rq P Q V}

/-- The actions settle at most `r0`. -/
def Concerns (pushed : List (BehaviourAction Rq Tx)) (r0 : RequestId) : Prop :=
  ∀ r, r ≠ r0 → outcomes pushed r = []

/-- `s'` is `s` after a step that changes nothing of any request but `r0`, and queues `pushed`. -/
structure Touches (r0 : RequestId) (s s' : RequestManager Rq Tx C)
    (pushed : List (BehaviourAction Rq Tx)) : Prop where
  actions : s'.actions = s.actions ++ pushed
  store : ∀ r, r ≠ r0 → ∀ d, s'.requestStore d r = s.requestStore d r
  slots : ∀ r, r ≠ r0 → ∀ slot, (waitingAt s' slot).count r = (waitingAt s slot).count r
  concerns : Concerns pushed r0
  granted : ∀ r, r ≠ r0 → ∀ granted, GrantCounter granted →
    granted s'.connections r = granted s.connections r

namespace Touches

variable {r0 : RequestId} {s s' s'' : RequestManager Rq Tx C} {pushed more : List (BehaviourAction Rq Tx)}

theorem refl (r0 : RequestId) (s : RequestManager Rq Tx C) : Touches r0 s s [] :=
  ⟨by simp, fun _ _ _ => rfl, fun _ _ _ => rfl, fun _ _ => rfl, fun _ _ _ _ => rfl⟩

theorem trans (first : Touches r0 s s' pushed) (second : Touches r0 s' s'' more) :
    Touches r0 s s'' (pushed ++ more) where
  actions := by rw [second.actions, first.actions, List.append_assoc]
  store r other d := (second.store r other d).trans (first.store r other d)
  slots r other slot := (second.slots r other slot).trans (first.slots r other slot)
  concerns r other := by simp [first.concerns r other, second.concerns r other]
  granted r other granted counter :=
    (second.granted r other granted counter).trans (first.granted r other granted counter)

theorem agree (touches : Touches r0 s s' pushed) {r : RequestId} (other : r ≠ r0)
    {log : List (BehaviourAction Rq Tx)} {taken taken' : List (RequestId × Slot)}
    (same : ∀ origin, taken'.count (r, origin) = taken.count (r, origin)) :
    Agree s s' log (log ++ pushed) taken taken' r where
  store := touches.store r other
  places place := by
    cases place with
    | waiting slot => exact touches.slots r other slot
    | taken origin => exact same origin
  outcomes := by simp [touches.concerns r other]
  granted := touches.granted r other

end Touches

theorem concerns_singleton {action : BehaviourAction Rq Tx} {r0 : RequestId}
    (settles : ∀ r, action.settles r = true → r = r0) : Concerns [action] r0 := by
  intro r other
  have quiet : action.settles r = false := by
    cases h : action.settles r
    · rfl
    · exact absurd (settles r h) other
  simp [outcomes, quiet]

theorem touches_pushBack (s : RequestManager Rq Tx C) (action : BehaviourAction Rq Tx) {r0 : RequestId}
    (settles : ∀ r, action.settles r = true → r = r0) : Touches r0 s (s.pushBack action) [action] :=
  ⟨rfl, fun _ _ _ => rfl, fun _ _ _ => rfl, concerns_singleton settles, fun _ _ _ _ => rfl⟩

theorem touches_takeStoredRequest (s : RequestManager Rq Tx C) (r0 : RequestId) (d : RequestDirection) :
    Touches r0 s (s.takeStoredRequest r0 d).2 [] := by
  refine ⟨by cases d <;> simp [takeStoredRequest], fun r other d' => ?_, by simp,
    fun _ _ => rfl, fun _ _ _ _ => by cases d <;> rfl⟩
  simp [requestStore_takeStoredRequest, other]

theorem touches_storeRequest (s : RequestManager Rq Tx C) (peer : PeerId) (r0 : RequestId)
    (request : RequestMessage Rq Tx) (d : RequestDirection) :
    Touches r0 s (s.storeRequest peer r0 request d) [] := by
  refine ⟨by cases d <;> simp [storeRequest], fun r other d' => ?_, by simp,
    fun _ _ => rfl, fun _ _ _ _ => by cases d <;> rfl⟩
  simp [requestStore_storeRequest, other]

theorem touches_addDialAttempt (s : RequestManager Rq Tx C) (peer : PeerId) (r0 : RequestId) :
    Touches r0 s (s.addDialAttempt peer r0) [.requireDialAttempt peer] := by
  refine ⟨rfl, fun _ _ _ => rfl, fun r other slot => ?_,
    concerns_singleton (by simp [BehaviourAction.settles, BehaviourAction.outcome]),
    fun _ _ _ _ => rfl⟩
  rw [waitingAt_addDialAttempt]
  split <;> simp [List.count_singleton, Ne.symm other]

theorem touches_addRequest (s : RequestManager Rq Tx C) (peer : PeerId) (r0 : RequestId)
    (d : RequestDirection) {connections : C} (added : (addRequest s.connections peer r0 d).2 = connections) :
    Touches r0 s { s with connections := connections } [] :=
  ⟨by simp, fun _ _ _ => rfl, fun _ _ _ => rfl, fun _ _ => rfl,
    fun r other granted counter => by simp [← added, counter.addRequest, other]⟩

/-- `r`, admitted as `a`, is in the hand of the running method, taken from `origin`: stored under
its peer, with no outcome and no grant, at no place. -/
def InHand (fw : Firewall Rq P Q V) (s : RequestManager Rq Tx C) (log : List (BehaviourAction Rq Tx))
    (taken : List (RequestId × Slot)) (r : RequestId) (a : Admission Rq Tx) (post : List (Op Rq Tx Q))
    (origin : Slot) : Prop :=
  s.requestStore a.direction r = some (a.peer, a.request) ∧ s.requestStore a.direction.flip r = none ∧
    outcomes log r = [] ∧ Granted s r 0 ∧ origin.fits a.peer a.direction ∧
    SlotHistory fw r a post origin ∧ Nowhere s taken r

theorem count_map_pair {α β : Type} [DecidableEq α] [DecidableEq β] (l : List α) (a : α) (b b' : β) :
    (l.map (·, b)).count (a, b') = if b' = b then l.count a else 0 := by
  induction l with
  | nil => simp
  | cons x l ih => by_cases same : b' = b <;> by_cases hx : x = a <;> simp_all [List.count_cons]

theorem Tracked.pop {ops : List (Op Rq Tx Q)} {s : RequestManager Rq Tx C}
    {log : List (BehaviourAction Rq Tx)} {rest : List (RequestId × Slot)} {r0 : RequestId}
    {origin : Slot} (tracked : Tracked fw ops s log ((r0, origin) :: rest) r0) :
    ∃ a post, admissionIn r0 ops = some (a, post) ∧ InHand fw s log rest r0 a post origin := by
  have held : occurrences s ((r0, origin) :: rest) r0 (.taken origin) ≠ 0 := by
    simp [occurrences]
  unfold Tracked at tracked
  cases admitted : admissionIn r0 ops with
  | none => simp only [admitted] at tracked; exact absurd (tracked.2.1 _) held
  | some entry =>
    obtain ⟨a, post⟩ := entry
    simp only [admitted] at tracked
    rcases tracked with ⟨stored, other, silent, granted, place, fits, only, history⟩ |
      ⟨_, nowhere, _⟩
    · have at_origin : place = .taken origin := by
        by_contra elsewhere
        exact held (by rw [only]; simp [Ne.symm elsewhere])
      subst at_origin
      refine ⟨a, post, rfl, stored, other, silent, granted, fits, history, fun place' => ?_⟩
      have once := only place'
      cases place' with
      | waiting slot => simpa [occurrences] using once
      | taken origin' =>
          by_cases same : origin' = origin
          · subst same; simpa [occurrences] using once
          · simpa [occurrences, List.count_cons, same] using once
    · exact absurd (nowhere _) held

/-- Exchange, for the slots `S` picks, waiting there with being in hand from there. -/
def Place.exchange (S : Slot → Bool) : Place → Place
  | .waiting slot => if S slot then .taken slot else .waiting slot
  | .taken slot => if S slot then .waiting slot else .taken slot

@[simp] theorem Place.exchange_exchange (S : Slot → Bool) (place : Place) :
    (place.exchange S).exchange S = place := by
  cases place with
  | waiting slot => cases hit : S slot <;> simp [Place.exchange, hit]
  | taken slot => cases hit : S slot <;> simp [Place.exchange, hit]

@[simp] theorem Place.origin_exchange (S : Slot → Bool) (place : Place) :
    (place.exchange S).origin = place.origin := by
  cases place with
  | waiting slot => cases hit : S slot <;> simp [Place.exchange, Place.origin, hit]
  | taken slot => cases hit : S slot <;> simp [Place.exchange, Place.origin, hit]

/-- The running method takes what waits in the slots `S` picks in hand, or puts what it holds
from them back: `r` keeps its fate, at the exchanged place. -/
theorem Tracked.exchange (S : Slot → Bool) {ops : List (Op Rq Tx Q)} {s s' : RequestManager Rq Tx C}
    {log : List (BehaviourAction Rq Tx)} {taken taken' : List (RequestId × Slot)} {r : RequestId}
    (tracked : Tracked fw ops s log taken r)
    (picked : ∀ slot, S slot = true → (waitingAt s' slot).count r = taken.count (r, slot) ∧
      taken'.count (r, slot) = (waitingAt s slot).count r)
    (kept : ∀ slot, S slot = false → (waitingAt s' slot).count r = (waitingAt s slot).count r ∧
      taken'.count (r, slot) = taken.count (r, slot))
    (stores : s'.requestStore = s.requestStore) (same : s'.connections = s.connections) :
    Tracked fw ops s' log taken' r := by
  have moved : ∀ place, occurrences s' taken' r place = occurrences s taken r (place.exchange S) := by
    intro place
    cases place with
    | waiting slot =>
        cases hit : S slot
        · simp [Place.exchange, occurrences, hit, (kept slot hit).1]
        · simp [Place.exchange, occurrences, hit, (picked slot hit).1]
    | taken slot =>
        cases hit : S slot
        · simp [Place.exchange, occurrences, hit, (kept slot hit).2]
        · simp [Place.exchange, occurrences, hit, (picked slot hit).2]
  have only_exchange : ∀ place, OnlyAt s taken r place → OnlyAt s' taken' r (place.exchange S) := by
    intro place only other
    rw [moved, only]
    congr 1
    exact propext ⟨fun h => by rw [← h, Place.exchange_exchange], fun h => by rw [h, Place.exchange_exchange]⟩
  have nowhere_exchange : Nowhere s taken r → Nowhere s' taken' r :=
    fun nowhere place => by rw [moved]; exact nowhere _
  unfold Tracked Waiting Settled Granted at *
  simp only [stores, same] at *
  split at tracked
  · exact ⟨tracked.1, nowhere_exchange tracked.2.1, tracked.2.2⟩
  · rcases tracked with ⟨stored, other, silent, granted, place, fits, only, history⟩ |
      ⟨gone, nowhere, rest⟩
    · exact .inl ⟨stored, other, silent, granted, place.exchange S, by simpa using fits,
        only_exchange place only, by simpa using history⟩
    · exact .inr ⟨gone, nowhere_exchange nowhere, rest⟩

section Place

variable {s s' : RequestManager Rq Tx C} {log : List (BehaviourAction Rq Tx)}
  {taken : List (RequestId × Slot)} {r0 : RequestId} {a : Admission Rq Tx} {post : List (Op Rq Tx Q)}
  {origin : Slot}

theorem outcomes_singleton_self {action : BehaviourAction Rq Tx} {r0 : RequestId} {peer : PeerId}
    {d : RequestDirection} (reports : action.outcome = some (r0, peer, d)) :
    outcomes [action] r0 = [action] := by
  simp [outcomes, BehaviourAction.settles, reports]

theorem settled_of_nowhere (silent : outcomes log r0 = []) (nowhere : Nowhere s taken r0)
    {action : BehaviourAction Rq Tx} (gone : ∀ d, s'.requestStore d r0 = none)
    (places : ∀ slot, (waitingAt s' slot).count r0 = (waitingAt s slot).count r0)
    (reports : action.outcome = some (r0, a.peer, a.direction))
    (ready : action.isReady = true → Permitted fw r0 a post)
    (granted : Granted s' r0 (if action.isReady then 1 else 0)) :
    Settled fw s' (log ++ [action]) taken r0 a post := by
  refine ⟨gone, fun place => ?_, action, by simp [silent, outcomes_singleton_self reports], reports, ready,
    granted⟩
  cases place with
  | waiting slot => rw [occurrences, places]; exact nowhere (.waiting slot)
  | taken origin => exact nowhere (.taken origin)

/-- The step settles the request in hand with `action`. -/
theorem InHand.settle (inHand : InHand fw s log taken r0 a post origin) {action : BehaviourAction Rq Tx}
    (gone : ∀ d, s'.requestStore d r0 = none)
    (places : ∀ slot, (waitingAt s' slot).count r0 = (waitingAt s slot).count r0)
    (reports : action.outcome = some (r0, a.peer, a.direction))
    (ready : action.isReady = true → Permitted fw r0 a post)
    (granted : Granted s' r0 (if action.isReady then 1 else 0)) :
    Settled fw s' (log ++ [action]) taken r0 a post :=
  settled_of_nowhere inHand.2.2.1 inHand.2.2.2.2.2.2 gone places reports ready granted

/-- The step puts the request in hand in `slot`. -/
theorem InHand.park (inHand : InHand fw s log taken r0 a post origin) {pushed : List (BehaviourAction Rq Tx)}
    (slot : Slot) (fits : slot.fits a.peer a.direction) (history : SlotHistory fw r0 a post slot)
    (store : ∀ d, s'.requestStore d r0 = s.requestStore d r0)
    (places : ∀ other, (waitingAt s' other).count r0 =
      (waitingAt s other).count r0 + if other = slot then 1 else 0)
    (silent : outcomes pushed r0 = []) (granted : Granted s' r0 0) :
    Waiting fw s' (log ++ pushed) taken r0 a post := by
  obtain ⟨stored, other, silent₀, _, _, _, nowhere⟩ := inHand
  refine ⟨(store _).trans stored, (store _).trans other, by simp [silent₀, silent], granted, .waiting slot,
    fits, fun place => ?_, history⟩
  cases place with
  | waiting other =>
      have none := nowhere (.waiting other)
      simp only [occurrences] at none ⊢
      by_cases hit : other = slot
      · subst hit; simp [places, none]
      · simp [places, none, hit]
  | taken origin => simpa [occurrences] using nowhere (.taken origin)

/-- A request just stored by `on_new_request` is in hand. -/
theorem InHand.store (s : RequestManager Rq Tx C) (a : Admission Rq Tx) (origin : Slot) (unseen : ∀ d, s.requestStore d r0 = none) (nowhere : Nowhere s taken r0)
    (silent : outcomes log r0 = []) (granted : Granted s r0 0) (fits : origin.fits a.peer a.direction)
    (history : SlotHistory fw r0 a post origin) :
    InHand fw (s.storeRequest a.peer r0 a.request a.direction) log taken r0 a post origin := by
  refine ⟨by simp [requestStore_storeRequest], by simp [requestStore_storeRequest, unseen], silent,
    fun g counter => by simpa using granted g counter, fits, history, fun place => ?_⟩
  cases place with
  | waiting slot => simpa [occurrences] using nowhere (.waiting slot)
  | taken origin => exact nowhere (.taken origin)

theorem InHand.gone_of_take (inHand : InHand fw s log taken r0 a post origin) (d : RequestDirection) :
    (s.takeStoredRequest r0 a.direction).2.requestStore d r0 = none := by
  rw [requestStore_takeStoredRequest]
  by_cases same : d = a.direction
  · simp [same]
  · simpa [same, RequestDirection.eq_flip_of_ne same] using inHand.2.1

end Place

@[simp] theorem notPermitted_outcome (d : RequestDirection) (peer : PeerId) (r : RequestId) :
    (notPermitted d peer r : BehaviourAction Rq Tx).outcome = some (r, peer, d) := by
  cases d <;> rfl

@[simp] theorem notPermitted_isReady (d : RequestDirection) (peer : PeerId) (r : RequestId) :
    (notPermitted d peer r : BehaviourAction Rq Tx).isReady = false := by
  cases d <;> rfl

theorem settles_of_outcome {action : BehaviourAction Rq Tx} {r0 : RequestId} {peer : PeerId}
    {d : RequestDirection} (reports : action.outcome = some (r0, peer, d)) :
    ∀ r, action.settles r = true → r = r0 := by
  intro r settles
  simp only [BehaviourAction.settles, reports, Option.map_some', beq_iff_eq, Option.some.injEq] at settles
  exact settles.symm

section Steps

variable {s : RequestManager Rq Tx C} {log : List (BehaviourAction Rq Tx)}
  {taken : List (RequestId × Slot)} {r0 : RequestId} {a : Admission Rq Tx} {post : List (Op Rq Tx Q)}
  {peer : PeerId}

theorem touches_take_push (s : RequestManager Rq Tx C) (r0 : RequestId) (d : RequestDirection)
    {action : BehaviourAction Rq Tx} {peer : PeerId} {d' : RequestDirection}
    (reports : action.outcome = some (r0, peer, d')) :
    Touches r0 s ((s.takeStoredRequest r0 d).2.pushBack action) [action] :=
  (touches_takeStoredRequest s r0 d).trans (touches_pushBack _ action (settles_of_outcome reports))

theorem InHand.settle_take (inHand : InHand fw s log taken r0 a post origin)
    {action : BehaviourAction Rq Tx} (reports : action.outcome = some (r0, a.peer, a.direction))
    (failure : action.isReady = false) :
    Settled fw ((s.takeStoredRequest r0 a.direction).2.pushBack action) (log ++ [action]) taken r0 a post :=
  inHand.settle (inHand.gone_of_take) (by simp) reports (by simp [failure])
    (by simpa [failure, Granted] using inHand.2.2.2.1)

theorem failDial_inHand (inHand : InHand fw s log taken r0 a post (.connection peer)) :
    Settled fw (failDial peer s r0) (log ++ [.outboundFailure peer r0 .dialFailure]) taken r0 a post := by
  obtain ⟨same, outbound⟩ := inHand.2.2.2.2.1
  subst same
  have settled := inHand.settle_take
    (show (BehaviourAction.outboundFailure a.peer r0 .dialFailure : BehaviourAction Rq Tx).outcome =
      some (r0, a.peer, a.direction) by simp [BehaviourAction.outcome, outbound]) rfl
  rwa [outbound] at settled

theorem rejectAwaiting_inHand {d : RequestDirection}
    (inHand : InHand fw s log taken r0 a post (.peerRule peer d)) :
    Settled fw (rejectAwaiting peer d s r0) (log ++ [notPermitted d peer r0]) taken r0 a post := by
  obtain ⟨same, direction⟩ := inHand.2.2.2.2.1
  subst same direction
  exact inHand.settle_take (by simp) (by simp)

theorem flushConnection_cons_of_stored {rest : List RequestId} {request : RequestMessage Rq Tx}
    (stored : s.requestStore .outbound r0 = some (peer, request)) :
    s.flushConnection (r0 :: rest) =
      match addRequest s.connections peer r0 .outbound with
      | (none, _) => none
      | (some connection, connections) =>
          flushConnection ({ (s.takeStoredRequest r0 .outbound).2 with connections := connections }.pushBack
            (.outboundReady r0 peer connection request)) rest := by
  have taken : s.takeStoredRequest r0 .outbound =
      (some (peer, request), (s.takeStoredRequest r0 .outbound).2) :=
    Prod.ext (by simpa using stored) rfl
  rw [flushConnection, taken]
  rfl

theorem flush_inHand (inHand : InHand fw s log taken r0 a post (.connection peer))
    {connection : ConnectionId} {connections : C}
    (added : addRequest s.connections peer r0 .outbound = (some connection, connections)) :
    Settled fw ({ (s.takeStoredRequest r0 .outbound).2 with connections := connections }.pushBack
        (.outboundReady r0 peer connection a.request))
      (log ++ [.outboundReady r0 peer connection a.request]) taken r0 a post ∧
    Touches r0 s ({ (s.takeStoredRequest r0 .outbound).2 with connections := connections }.pushBack
        (.outboundReady r0 peer connection a.request)) [.outboundReady r0 peer connection a.request] := by
  obtain ⟨same, outbound⟩ := inHand.2.2.2.2.1
  subst same
  have reports : (BehaviourAction.outboundReady r0 a.peer connection a.request : BehaviourAction Rq Tx).outcome =
      some (r0, a.peer, a.direction) := by simp [BehaviourAction.outcome, outbound]
  refine ⟨inHand.settle (fun d => ?_) (by simp) reports (fun _ => inHand.2.2.2.2.2.1)
      (fun granted counter => ?_), ?_⟩
  · simpa [outbound] using inHand.gone_of_take d
  · have step := counter.addRequest s.connections a.peer r0 .outbound r0
    simp only [added] at step
    simp [step, inHand.2.2.2.1 granted counter, BehaviourAction.isReady]
  · exact (touches_takeStoredRequest s r0 .outbound).trans
      ((touches_addRequest (s.takeStoredRequest r0 .outbound).2 a.peer r0 .outbound
        (by simp [added])).trans
        (touches_pushBack _ _ (settles_of_outcome reports)))

theorem handleRequestApproval_false {peer : PeerId} {request : RequestMessage Rq Tx} {d : RequestDirection}
    (stored : s.requestStore d r0 = some (peer, request)) :
    s.handleRequestApproval r0 d false =
      (some (), (s.takeStoredRequest r0 d).2.pushBack (notPermitted d peer r0)) := by
  rw [handleRequestApproval, takeStoredRequest_of_stored stored]
  rfl

theorem handleRequestApproval_true {peer : PeerId} {request : RequestMessage Rq Tx} {d : RequestDirection}
    (stored : s.requestStore d r0 = some (peer, request)) (other : s.requestStore d.flip r0 = none) :
    s.handleRequestApproval r0 d true =
      match addRequest s.connections peer r0 d with
      | (some connection, connections) =>
          (some (), ({ s with connections := connections }.takeStoredRequest r0 d).2.addReadyRequest peer r0
            connection request d)
      | (none, connections) =>
          match d with
          | .inbound => (some (), ({ s with connections := connections }.takeStoredRequest r0 .inbound).2.pushBack
              (.inboundFailure peer r0 .connectionClosed))
          | .outbound => (some (), { s with connections := connections }.addDialAttempt peer r0) := by
  rw [handleRequestApproval, if_neg (by simp), getRequestPeerRef_of_stored stored other]
  simp only
  rcases addRequest s.connections peer r0 d with ⟨_ | connection, connections⟩
  · cases d
    · simp only [takeStoredRequest_withConnections, takeStoredRequest_fst, stored]
    · rfl
  · simp only [takeStoredRequest_withConnections, takeStoredRequest_fst, stored]

variable {origin : Slot}

/-- `handle_request_approval` settles the request in hand, or parks it in
`awaiting_connection` of its peer; it lets it through only if the firewall does. -/
theorem handle_inHand (inHand : InHand fw s log taken r0 a post origin) (isAllowed : Bool)
    (permitted : isAllowed = true → Permitted fw r0 a post) :
    (s.handleRequestApproval r0 a.direction isAllowed).1 = some () ∧
      ∃ pushed, Touches r0 s (s.handleRequestApproval r0 a.direction isAllowed).2 pushed ∧
        (Waiting fw (s.handleRequestApproval r0 a.direction isAllowed).2 (log ++ pushed) taken r0 a post ∨
          Settled fw (s.handleRequestApproval r0 a.direction isAllowed).2 (log ++ pushed) taken r0 a post) := by
  have stored := inHand.1
  have zero := inHand.2.2.2.1
  cases isAllowed with
  | false =>
      rw [handleRequestApproval_false stored]
      exact ⟨rfl, _, touches_take_push s r0 a.direction (notPermitted_outcome _ _ _),
        .inr (inHand.settle_take (by simp) (by simp))⟩
  | true =>
      rw [handleRequestApproval_true stored inHand.2.1]
      have added := fun granted (counter : GrantCounter granted) =>
        counter.addRequest s.connections a.peer r0 a.direction r0
      have gone : ∀ (connections : C) d,
          (({ s with connections := connections } : RequestManager Rq Tx C).takeStoredRequest r0 a.direction).2.requestStore d r0 = none := by
        intro connections d
        simpa [takeStoredRequest_withConnections] using inHand.gone_of_take d
      rcases grant : addRequest s.connections a.peer r0 a.direction with ⟨_ | connection, connections⟩
      · have base : Touches r0 s { s with connections := connections } [] :=
          touches_addRequest s a.peer r0 a.direction (by simp [grant])
        have kept : Granted { s with connections := connections } r0 0 := fun granted counter => by
          simpa [grant, zero granted counter] using added granted counter
        obtain ⟨peer, request, status, direction⟩ := a
        cases direction
        · have reports : (BehaviourAction.inboundFailure peer r0 .connectionClosed : BehaviourAction Rq Tx).outcome =
              some (r0, peer, .inbound) := rfl
          refine ⟨rfl, _, base.trans (touches_take_push _ r0 .inbound reports), .inr ?_⟩
          exact inHand.settle (gone connections) (by simp [takeStoredRequest_withConnections]) reports
            (by simp [BehaviourAction.isReady])
            (by simpa [BehaviourAction.isReady, Granted, takeStoredRequest_withConnections] using kept)
        · refine ⟨rfl, _, base.trans (touches_addDialAttempt _ peer r0), .inl ?_⟩
          exact inHand.park (.connection peer) (by simp [Slot.fits]) (permitted rfl) (fun d => rfl)
            (fun other => by rw [waitingAt_addDialAttempt]; split <;> simp_all)
            (by simp [outcomes, BehaviourAction.settles, BehaviourAction.outcome]) kept
      · have reports := readyAction_outcome a.direction r0 a.peer connection a.request
        simp only [addReadyRequest_eq]
        refine ⟨trivial, _, (touches_addRequest s a.peer r0 a.direction (by simp [grant])).trans
          (touches_take_push _ r0 a.direction reports), .inr ?_⟩
        exact inHand.settle (gone connections) (by simp [takeStoredRequest_withConnections]) reports
          (fun _ => permitted rfl)
          (fun granted counter => by
            simpa [grant, zero granted counter, takeStoredRequest_withConnections] using added granted counter)

theorem touches_pushApproval (s : RequestManager Rq Tx C) (r0 : RequestId) (d : RequestDirection) :
    Touches r0 s { s with awaitingApproval := s.awaitingApproval ++ [(r0, d)] } [] := by
  refine ⟨by simp, fun _ _ _ => rfl, fun r other slot => ?_, fun _ _ => rfl, fun _ _ _ _ => rfl⟩
  rw [waitingAt_pushApproval]
  split <;> simp [List.count_singleton, Ne.symm other]

theorem touches_pushPeerRule (s : RequestManager Rq Tx C) (peer : PeerId) (r0 : RequestId)
    (d : RequestDirection) :
    Touches r0 s { s with
      awaitingPeerRule := Function.update s.awaitingPeerRule peer
        (some (Function.update ((s.awaitingPeerRule peer).getD fun _ => none) d
          (some ((((s.awaitingPeerRule peer).getD fun _ => none) d).getD [] ++ [r0])))) } [] := by
  refine ⟨by simp, fun _ _ _ => rfl, fun r other slot => ?_, fun _ _ => rfl, fun _ _ _ _ => rfl⟩
  rw [waitingAt_pushPeerRule]
  split <;> simp [List.count_singleton, Ne.symm other]

theorem applyRule_of_stored (rules : FirewallRules Q) {d : RequestDirection} {peer : PeerId}
    {request : RequestMessage Rq Tx} (stored : s.requestStore d r0 = some (peer, request))
    (other : s.requestStore d.flip r0 = none) :
    s.applyRule fw rules r0 d =
      match rules.rule d with
      | some .ask => (some (r0, fw.toPermissioned request.data, d),
          { s with awaitingApproval := s.awaitingApproval ++ [(r0, d)] })
      | some (.permission q) =>
          (none, (s.handleRequestApproval r0 d (fw.permits q (fw.permissionValue request.data))).2)
      | none => (none, (s.handleRequestApproval r0 d false).2) := by
  unfold applyRule
  rcases rules.rule d with _ | _ | _ <;> simp only [getRequestValueRef_of_stored stored other]

/-- The closure of `on_peer_rule` moves the request in hand to `awaiting_approval` under `Ask`, and
hands it to `handle_request_approval` otherwise. -/
theorem applyRule_inHand (rules : FirewallRules Q) {peer : PeerId} {d : RequestDirection}
    (inHand : InHand fw s log taken r0 a post (.peerRule peer d))
    (asked : rules.rule a.direction = some .ask → AskedFor a post)
    (permitted : ∀ q, rules.rule a.direction = some (.permission q) →
      fw.permits q (fw.permissionValue a.request.data) = true → Permitted fw r0 a post) :
    ∃ pushed, Touches r0 s (s.applyRule fw rules r0 d).2 pushed ∧
      (Waiting fw (s.applyRule fw rules r0 d).2 (log ++ pushed) taken r0 a post ∨
        Settled fw (s.applyRule fw rules r0 d).2 (log ++ pushed) taken r0 a post) := by
  obtain ⟨same, direction⟩ := inHand.2.2.2.2.1
  subst same direction
  rw [applyRule_of_stored rules inHand.1 inHand.2.1]
  cases rule : rules.rule a.direction with
  | none => exact (handle_inHand inHand false (by simp)).2
  | some found =>
      cases found with
      | ask =>
          refine ⟨[], touches_pushApproval s r0 a.direction, .inl ?_⟩
          exact inHand.park (.approval a.direction) rfl (asked rule) (fun _ => rfl)
            (fun other => by rw [waitingAt_pushApproval]; split <;> simp_all)
            rfl inHand.2.2.2.1
      | permission q => exact (handle_inHand inHand _ (permitted q rule)).2

end Steps

end P2p
