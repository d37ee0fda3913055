import P2p.Slots

/-!
What the manager knows of one request, and the invariant that relates it to the request's
admission and to the log of a run.

A request `r` admitted by `on_new_request(peer, r, request, status, direction)` is either
`Waiting`, stored in its direction's store under its peer and waiting at exactly one place that
fits it, with no outcome in the log; or `Settled`, in no store and at no place, with exactly one
outcome in the log, of its peer and direction. A `Ready` outcome and the `connection` slot are
reached only through one of the three ways the firewall lets a request through (`Permitted`).
`GrantCounter` abstracts any count of the `add_request` calls that returned `Some`: a settled
request got one grant iff it got `Ready`, a waiting one none.
-/

namespace P2p

open PeerConnectionManager RequestManager

variable {Rq Tx C P Q V : Type}

structure Admission (Rq Tx : Type) where
  peer : PeerId
  request : RequestMessage Rq Tx
  status : ApprovalStatus
  direction : RequestDirection

def Op.admission (r : RequestId) : Op Rq Tx Q → Option (Admission Rq Tx)
  | .onNewRequest peer requestId request status direction =>
      if requestId = r then some ⟨peer, request, status, direction⟩ else none
  | _ => none

/-- The first admission of `r` in a run, with the calls after it. -/
def admissionIn (r : RequestId) : List (Op Rq Tx Q) → Option (Admission Rq Tx × List (Op Rq Tx Q))
  | [] => none
  | op :: ops =>
      match op.admission r with
      | some a => some (a, ops)
      | none => admissionIn r ops

/-- `r` was placed in `awaiting_approval`: admitted as `MissingApproval`, or a later
`on_peer_rule` found the rule `Ask` for its direction. -/
def AskedFor (a : Admission Rq Tx) (post : List (Op Rq Tx Q)) : Prop :=
  a.status = .missingApproval ∨
    (a.status = .missingRule ∧ ∃ before rules dir after,
      post = before ++ .onPeerRule a.peer rules dir :: after ∧ dir.covers a.direction ∧
        rules.rule a.direction = some .ask)

/-- The three ways the firewall lets request `r`, admitted as `a`, through: it was `Approved`;
a later rule of its peer gave a permission that permits it; or it was placed in
`awaiting_approval` and `on_request_approval(r, true)` came after. -/
def Permitted (fw : Firewall Rq P Q V) (r : RequestId) (a : Admission Rq Tx)
    (post : List (Op Rq Tx Q)) : Prop :=
  a.status = .approved ∨
    (a.status = .missingRule ∧ ∃ rules dir q, .onPeerRule a.peer rules dir ∈ post ∧
      dir.covers a.direction ∧ rules.rule a.direction = some (.permission q) ∧
      fw.permits q (fw.permissionValue a.request.data) = true) ∨
    (a.status = .missingApproval ∧ .onRequestApproval r true ∈ post) ∨
    (a.status = .missingRule ∧ ∃ before rules dir after,
      post = before ++ .onPeerRule a.peer rules dir :: after ∧ dir.covers a.direction ∧
        rules.rule a.direction = some .ask ∧ .onRequestApproval r true ∈ after)

/-- How a request comes to wait in each kind of slot. -/
def SlotHistory (fw : Firewall Rq P Q V) (r : RequestId) (a : Admission Rq Tx)
    (post : List (Op Rq Tx Q)) : Slot → Prop
  | .peerRule _ _ => a.status = .missingRule
  | .approval _ => AskedFor a post
  | .connection _ => Permitted fw r a post

section Grants

variable [PeerConnectionManager C]

/-- `granted c r` counts the `add_request(_, r, _)` calls that returned `Some`: it starts at
zero, grows by one at each of them, and no other method of the connection manager changes it. -/
structure GrantCounter (granted : C → RequestId → Nat) : Prop where
  new : ∀ r, granted PeerConnectionManager.new r = 0
  addRequest : ∀ c peer requestId direction r,
    granted (addRequest c peer requestId direction).2 r =
      granted c r + if r = requestId ∧ (addRequest c peer requestId direction).1.isSome then 1 else 0
  addConnection : ∀ c peer connection r, granted (addConnection c peer connection) r = granted c r
  removeConnection : ∀ c peer connection r,
    granted (removeConnection c peer connection).2 r = granted c r
  removeAllConnections : ∀ c peer r, granted (removeAllConnections c peer).2 r = granted c r
  removeRequest : ∀ c connection requestId direction r,
    granted (removeRequest c connection requestId direction) r = granted c r

/-- Every count of granted `add_request` calls is `n` for `r`. Over a bookkeeping that admits no
such count, as `Connections`, whose `remove_request` undoes `add_request`, this holds for every
`n`; `Recorded C` admits one for every `C` (`Recorded.grantCounter`), and results about grants are
read over it. -/
def Granted (s : RequestManager Rq Tx C) (r : RequestId) (n : Nat) : Prop :=
  ∀ granted, GrantCounter granted → granted s.connections r = n

def Waiting (fw : Firewall Rq P Q V) (s : RequestManager Rq Tx C) (log : List (BehaviourAction Rq Tx))
    (taken : List (RequestId × Slot)) (r : RequestId) (a : Admission Rq Tx)
    (post : List (Op Rq Tx Q)) : Prop :=
  s.requestStore a.direction r = some (a.peer, a.request) ∧ s.requestStore a.direction.flip r = none ∧
    outcomes log r = [] ∧ Granted s r 0 ∧
    ∃ place : Place, place.origin.fits a.peer a.direction ∧ OnlyAt s taken r place ∧
      SlotHistory fw r a post place.origin

def Settled (fw : Firewall Rq P Q V) (s : RequestManager Rq Tx C) (log : List (BehaviourAction Rq Tx))
    (taken : List (RequestId × Slot)) (r : RequestId) (a : Admission Rq Tx)
    (post : List (Op Rq Tx Q)) : Prop :=
  (∀ d, s.requestStore d r = none) ∧ Nowhere s taken r ∧
    ∃ action, outcomes log r = [action] ∧ action.outcome = some (r, a.peer, a.direction) ∧
      (action.isReady → Permitted fw r a post) ∧ Granted s r (if action.isReady then 1 else 0)

def Tracked (fw : Firewall Rq P Q V) (ops : List (Op Rq Tx Q)) (s : RequestManager Rq Tx C)
    (log : List (BehaviourAction Rq Tx)) (taken : List (RequestId × Slot)) (r : RequestId) : Prop :=
  match admissionIn r ops with
  | none => (∀ d, s.requestStore d r = none) ∧ Nowhere s taken r ∧ outcomes log r = [] ∧ Granted s r 0
  | some (a, post) => Waiting fw s log taken r a post ∨ Settled fw s log taken r a post

/-- The invariant of the manager along a run: every request is tracked. -/
def Invariant (fw : Firewall Rq P Q V) (ops : List (Op Rq Tx Q)) (s : RequestManager Rq Tx C)
    (log : List (BehaviourAction Rq Tx)) : Prop :=
  ∀ r, Tracked fw ops s log [] r

theorem admissionIn_append (r : RequestId) (ops : List (Op Rq Tx Q)) (op : Op Rq Tx Q) :
    admissionIn r (ops ++ [op]) =
      match admissionIn r ops with
      | some (a, post) => some (a, post ++ [op])
      | none => (op.admission r).map (·, []) := by
  induction ops with
  | nil => cases found : op.admission r <;> simp [admissionIn, found]
  | cons first ops ih => cases found : first.admission r <;> simp [admissionIn, found, ih]

theorem admissionIn_append_of_none {r : RequestId} {ops : List (Op Rq Tx Q)} {op : Op Rq Tx Q}
    {a : Admission Rq Tx} {post : List (Op Rq Tx Q)} (admitted : admissionIn r (ops ++ [op]) = some (a, post))
    (other : op.admission r = none) :
    ∃ before, admissionIn r ops = some (a, before) ∧ post = before ++ [op] := by
  rw [admissionIn_append] at admitted
  cases found : admissionIn r ops with
  | none => simp [found, other] at admitted
  | some entry =>
      simp only [found, Option.some.injEq, Prod.mk.injEq] at admitted
      exact ⟨entry.2, by rw [← admitted.1], admitted.2.symm⟩

theorem AskedFor.extend {a : Admission Rq Tx} {post : List (Op Rq Tx Q)} (op : Op Rq Tx Q)
    (asked : AskedFor a post) : AskedFor a (post ++ [op]) := by
  rcases asked with approval | ⟨rule, before, rules, dir, after, split, covered, ask⟩
  · exact .inl approval
  · exact .inr ⟨rule, before, rules, dir, after ++ [op], by simp [split], covered, ask⟩

theorem Permitted.extend {fw : Firewall Rq P Q V} {r : RequestId} {a : Admission Rq Tx}
    {post : List (Op Rq Tx Q)} (op : Op Rq Tx Q) (permitted : Permitted fw r a post) :
    Permitted fw r a (post ++ [op]) := by
  rcases permitted with approved | ⟨rule, rules, dir, q, found, rest⟩ | ⟨approval, found⟩ |
    ⟨rule, before, rules, dir, after, split, covered, ask, found⟩
  · exact .inl approved
  · exact .inr (.inl ⟨rule, rules, dir, q, List.mem_append_left _ found, rest⟩)
  · exact .inr (.inr (.inl ⟨approval, List.mem_append_left _ found⟩))
  · exact .inr (.inr (.inr ⟨rule, before, rules, dir, after ++ [op], by simp [split], covered, ask,
      List.mem_append_left _ found⟩))

theorem AskedFor.approve {fw : Firewall Rq P Q V} {r : RequestId} {a : Admission Rq Tx}
    {post : List (Op Rq Tx Q)} (asked : AskedFor a (post ++ [.onRequestApproval r true])) :
    Permitted fw r a (post ++ [.onRequestApproval r true]) := by
  rcases asked with approval | ⟨rule, before, rules, dir, after, split, covered, ask⟩
  · exact .inr (.inr (.inl ⟨approval, by simp⟩))
  · refine .inr (.inr (.inr ⟨rule, before, rules, dir, after, split, covered, ask, ?_⟩))
    rcases List.eq_nil_or_concat after with rfl | ⟨init, last, rfl⟩
    · simpa using (List.append_inj' split rfl).2
    · have split' : post ++ [.onRequestApproval r true] =
          (before ++ .onPeerRule a.peer rules dir :: init) ++ [last] := by simpa using split
      have approved := (List.append_inj' split' rfl).2
      simp only [List.cons.injEq, and_true] at approved
      simp [approved]

theorem SlotHistory.extend {fw : Firewall Rq P Q V} {r : RequestId} {a : Admission Rq Tx}
    {post : List (Op Rq Tx Q)} (op : Op Rq Tx Q) {slot : Slot}
    (history : SlotHistory fw r a post slot) : SlotHistory fw r a (post ++ [op]) slot := by
  cases slot with
  | connection => exact Permitted.extend op history
  | peerRule => exact history
  | approval => exact AskedFor.extend op history

variable {fw : Firewall Rq P Q V}

theorem Tracked.extend {ops : List (Op Rq Tx Q)} {s : RequestManager Rq Tx C}
    {log : List (BehaviourAction Rq Tx)} {taken : List (RequestId × Slot)} {r : RequestId}
    {op : Op Rq Tx Q} (other : op.admission r = none) (tracked : Tracked fw ops s log taken r) :
    Tracked fw (ops ++ [op]) s log taken r := by
  unfold Tracked at tracked ⊢
  rw [admissionIn_append]
  cases admitted : admissionIn r ops with
  | none => simpa [admitted, other] using tracked
  | some entry =>
      obtain ⟨a, post⟩ := entry
      simp only [admitted] at tracked ⊢
      rcases tracked with ⟨stored, other, silent, granted, place, fits, only, history⟩ |
        ⟨gone, nowhere, action, single, reports, ready, granted⟩
      · exact .inl ⟨stored, other, silent, granted, place, fits, only, history.extend op⟩
      · exact .inr ⟨gone, nowhere, action, single, reports, fun isReady => (ready isReady).extend op,
          granted⟩

structure Agree (s s' : RequestManager Rq Tx C) (log log' : List (BehaviourAction Rq Tx))
    (taken taken' : List (RequestId × Slot)) (r : RequestId) : Prop where
  store : ∀ d, s'.requestStore d r = s.requestStore d r
  places : ∀ place, occurrences s' taken' r place = occurrences s taken r place
  outcomes : outcomes log' r = outcomes log r
  granted : ∀ granted, GrantCounter granted → granted s'.connections r = granted s.connections r

theorem Granted.congr {s s' : RequestManager Rq Tx C} {r : RequestId} {n : Nat}
    (same : ∀ granted, GrantCounter granted → granted s'.connections r = granted s.connections r)
    (grants : Granted s r n) : Granted s' r n :=
  fun granted counter => (same granted counter).trans (grants granted counter)

theorem Tracked.congr {ops : List (Op Rq Tx Q)} {s s' : RequestManager Rq Tx C}
    {log log' : List (BehaviourAction Rq Tx)} {taken taken' : List (RequestId × Slot)} {r : RequestId}
    (agree : Agree s s' log log' taken taken' r) (tracked : Tracked fw ops s log taken r) :
    Tracked fw ops s' log' taken' r := by
  unfold Tracked Waiting Settled OnlyAt Nowhere at *
  simp only [agree.store, agree.places, agree.outcomes] at *
  split at tracked
  · exact ⟨tracked.1, tracked.2.1, tracked.2.2.1, tracked.2.2.2.congr agree.granted⟩
  · rcases tracked with ⟨stored, other, silent, granted, rest⟩ |
      ⟨gone, nowhere, action, single, reports, ready, granted⟩
    · exact .inl ⟨stored, other, silent, granted.congr agree.granted, rest⟩
    · exact .inr ⟨gone, nowhere, action, single, reports, ready, granted.congr agree.granted⟩

end Grants

end P2p
