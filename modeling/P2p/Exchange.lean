import P2p.Wire

/-!
One request/response exchange of `handler/protocol.rs` on one substream. The outbound upgrade
(`RequestProtocol::upgrade_outbound`, the requester) writes the request and reads the response;
the inbound upgrade (`ResponseProtocol::upgrade_inbound`, the responder) reads the request, hands
it to the handler through `request_tx`, and writes back what comes through `rx`. The handler may
answer, drop the response sender, or drop its receiver before the request comes; the caller
waiting for the response may go away at any time.

Each upgrade is a program counter at its await points, and an `Event` lets one of the four
parties act, so a list of events is an interleaving of them (`run`). Writing a frame and the
close after it are one step: `read_one` acts only on a whole frame or on the end of the stream.
An upgrade that fails drops its substream, which closes the direction it writes.

From every serializable request and over every interleaving: the handler gets only the request
sent (`run_handed`); one that cannot go on has both upgrades returned, as `Settles` says from what the handler and the caller did
(`run_settles`); and every interleaving can go on to such an end (`run_completes`).
-/

namespace P2p

/-- `RequestProtocol::upgrade_outbound` at its await points. -/
inductive Requester
  | writing
  | reading
  | returned (result : Except IoError Bool)

/-- `ResponseProtocol::upgrade_inbound` at its await points. -/
inductive Responder
  | reading
  | awaiting
  | returned (result : Except IoError Bool)

/-- The receiver of `request_tx`: nothing yet, dropped before a request came, or the request it
got and what became of that request's `response_tx`. -/
inductive Handler (Rq Rs : Type)
  | listening
  | gone
  | holding (request : Rq)
  | answered (request : Rq) (response : Rs)
  | dropped (request : Rq)

/-- The receiver of the outbound request's `response_tx`. -/
inductive Caller (Rs : Type)
  | waiting
  | gone
  | received (response : Rs)

variable {Rq Rs : Type}

namespace Handler

/-- `request_tx.send(query)`, whose result is ignored: a handler that has gone drops the query,
and its `response_tx` with it. -/
def receive : Handler Rq Rs → Rq → Handler Rq Rs
  | .listening, request => .holding request
  | handler, _ => handler

/-- What `rx.await` gives: the response, or `None` once `response_tx` is dropped; `none` while it
is pending. -/
def rx : Handler Rq Rs → Option (Option Rs)
  | .answered _ response => some (some response)
  | .gone | .dropped _ => some none
  | .listening | .holding _ => none

def requestOf : Handler Rq Rs → Option Rq
  | .holding request | .answered request _ | .dropped request => some request
  | .listening | .gone => none

def answer : Handler Rq Rs → Rs → Option (Handler Rq Rs)
  | .holding request, response => some (.answered request response)
  | _, _ => none

def dropResponse : Handler Rq Rs → Option (Handler Rq Rs)
  | .holding request => some (.dropped request)
  | _ => none

def dropReceiver : Handler Rq Rs → Option (Handler Rq Rs)
  | .listening => some .gone
  | _ => none

end Handler

namespace Caller

/-- The end of `upgrade_outbound` once the response is read: `response_tx.send(response)`, and
whether it went through; a failed read fails the upgrade. -/
def deliver : Caller Rs → Except IoError Rs → Caller Rs × Except IoError Bool
  | caller, .error error => (caller, .error error)
  | .waiting, .ok response => (.received response, .ok true)
  | caller, .ok _ => (caller, .ok false)

def drop : Caller Rs → Option (Caller Rs)
  | .waiting => some .gone
  | _ => none

end Caller

/-- Both upgrades on one substream, with the handler and the caller. -/
structure Exchange (Rq Rs : Type) where
  request : Rq
  requester : Requester
  responder : Responder
  toResponder : HalfStream
  toRequester : HalfStream
  handler : Handler Rq Rs
  caller : Caller Rs

def Exchange.start (request : Rq) : Exchange Rq Rs :=
  ⟨request, .writing, .reading, .empty, .empty, .listening, .waiting⟩

inductive Event (Rs : Type)
  | requester
  | responder
  | answer (response : Rs)
  | dropResponse
  | dropReceiver
  | callerGone

section Steps

variable (framing : Framing) (codecRq : Codec Rq) (codecRs : Codec Rs)

/-- The end of `upgrade_inbound` once `rx` resolves: write the response and return `true`, or
close without writing and return `false`. A response that does not serialize fails the upgrade,
which drops the substream. -/
def respond (io : HalfStream) : Option Rs → HalfStream × Except IoError Bool
  | some response =>
    match parseAndWrite framing codecRs io response with
    | .ok written => (written, .ok true)
    | .error error => (io.close, .error error)
  | none => (io.close, .ok false)

/-- `upgrade_outbound` runs to its next await; `none` while its read waits. -/
def requesterStep (x : Exchange Rq Rs) : Option (Exchange Rq Rs) :=
  match x.requester with
  | .writing =>
    match parseAndWrite framing codecRq x.toResponder x.request with
    | .ok written => some { x with toResponder := written, requester := .reading }
    | .error error =>
      some { x with toResponder := x.toResponder.close, requester := .returned (.error error) }
  | .reading =>
    (readAndParse framing codecRs x.toRequester).map fun read =>
      { x with caller := (x.caller.deliver read).1, requester := .returned (x.caller.deliver read).2 }
  | .returned _ => none

/-- `upgrade_inbound` runs to its next await; `none` while its read or `rx` waits. -/
def responderStep (x : Exchange Rq Rs) : Option (Exchange Rq Rs) :=
  match x.responder with
  | .reading =>
    (readAndParse framing codecRq x.toResponder).map fun
      | .ok request => { x with handler := x.handler.receive request, responder := .awaiting }
      | .error error =>
        { x with toRequester := x.toRequester.close, responder := .returned (.error error) }
  | .awaiting =>
    x.handler.rx.map fun answer =>
      { x with toRequester := (respond framing codecRs x.toRequester answer).1,
               responder := .returned (respond framing codecRs x.toRequester answer).2 }
  | .returned _ => none

def step (x : Exchange Rq Rs) : Event Rs → Option (Exchange Rq Rs)
  | .requester => requesterStep framing codecRq codecRs x
  | .responder => responderStep framing codecRq codecRs x
  | .answer response => (x.handler.answer response).map fun handler => { x with handler }
  | .dropResponse => x.handler.dropResponse.map fun handler => { x with handler }
  | .dropReceiver => x.handler.dropReceiver.map fun handler => { x with handler }
  | .callerGone => x.caller.drop.map fun caller => { x with caller }

def run (x : Exchange Rq Rs) : List (Event Rs) → Option (Exchange Rq Rs)
  | [] => some x
  | event :: events => (step framing codecRq codecRs x event).bind fun x' => run x' events

end Steps

section Invariant

variable (framing : Framing) (codecRs : Codec Rs)

def Delivered : Caller Rs → Except IoError Rs → Except IoError Bool → Prop
  | .received response, read, result => read = .ok response ∧ result = .ok true
  | .gone, .ok _, result => result = .ok false
  | _, .error error, result => result = .error error
  | .waiting, .ok _, _ => False

def ResponderAt (x : Exchange Rq Rs) : Prop :=
  match x.responder with
  | .reading => x.toRequester = .empty ∧ x.handler.requestOf = none
  | .awaiting => x.toRequester = .empty ∧ x.handler ≠ .listening
  | .returned result => ∃ answer, x.handler.rx = some answer ∧
      respond framing codecRs .empty answer = (x.toRequester, result)

def RequesterAt (x : Exchange Rq Rs) : Prop :=
  match x.requester with
  | .writing | .reading => x.caller = .waiting ∨ x.caller = .gone
  | .returned result => ∃ read, readAndParse framing codecRs x.toRequester = some read ∧
      Delivered x.caller read result

/-- What a run from `start request` keeps, for a request that serializes to `buf`. -/
structure Consistent (request : Rq) (buf : Bytes) (x : Exchange Rq Rs) : Prop where
  requested : x.request = request
  sent : x.requester = .writing ∧ x.toResponder = .empty ∨
    x.requester ≠ .writing ∧ x.toResponder = ⟨framing.writeOne buf, true⟩
  handed : ∀ got, x.handler.requestOf = some got → got = request
  responder : ResponderAt framing codecRs x
  requester : RequesterAt framing codecRs x

end Invariant

namespace Handler

variable {handler handler' : Handler Rq Rs}

theorem receive_ne_listening (request : Rq) : handler.receive request ≠ .listening := by
  cases handler <;> simp [receive]

theorem requestOf_receive (none : handler.requestOf = none) {request got : Rq}
    (taken : (handler.receive request).requestOf = some got) : got = request := by
  cases handler <;> simp_all [receive, requestOf]

theorem answer_eq {response : Rs} (answered : handler.answer response = some handler') :
    ∃ request, handler = .holding request ∧ handler' = .answered request response := by
  cases handler <;> simp_all [answer]

theorem dropResponse_eq (dropped : handler.dropResponse = some handler') :
    ∃ request, handler = .holding request ∧ handler' = .dropped request := by
  cases handler <;> simp_all [dropResponse]

theorem dropReceiver_eq (dropped : handler.dropReceiver = some handler') :
    handler = .listening ∧ handler' = .gone := by
  cases handler <;> simp_all [dropReceiver]

theorem rx_eq_some {answer : Option Rs} (resolved : handler.rx = some answer) :
    answer = none ∧ (handler = .gone ∨ ∃ request, handler = .dropped request) ∨
      ∃ request response, answer = some response ∧ handler = .answered request response := by
  cases handler <;> simp_all [rx]

end Handler

theorem Caller.drop_eq {caller caller' : Caller Rs} (dropped : caller.drop = some caller') :
    caller = .waiting ∧ caller' = .gone := by
  cases caller <;> simp_all [drop]

theorem delivered_deliver {caller : Caller Rs} (waiting : caller = .waiting ∨ caller = .gone)
    (read : Except IoError Rs) : Delivered (caller.deliver read).1 read (caller.deliver read).2 := by
  rcases waiting with rfl | rfl <;> cases read <;> simp [Caller.deliver, Delivered]

theorem Delivered.gone {read : Except IoError Rs} {result : Except IoError Bool}
    (delivered : Delivered .waiting read result) : Delivered .gone read result := by
  cases read <;> simp_all [Delivered]

section Respond

variable (framing : Framing) (codecRs : Codec Rs)

theorem respond_cases {answer : Option Rs} {io : HalfStream} {result : Except IoError Bool}
    (responded : respond framing codecRs .empty answer = (io, result)) :
    answer = none ∧ io = HalfStream.empty.close ∧ result = .ok false ∨
      (∃ response, answer = some response ∧ codecRs.toVec response = none) ∧
        io = HalfStream.empty.close ∧ result = .error ⟨.invalidData⟩ ∨
      ∃ response buf, answer = some response ∧ codecRs.toVec response = some buf ∧
        io = ⟨framing.writeOne buf, true⟩ ∧ result = .ok true := by
  rcases answer with _ | response
  · simp_all [respond]
  · rcases encoded : codecRs.toVec response with _ | buf
    · simp_all [respond, parseAndWrite]
    · simp_all [respond, parseAndWrite_empty framing codecRs encoded]

theorem respond_closed (io : HalfStream) (answer : Option Rs) :
    (respond framing codecRs io answer).1.closed = true := by
  rcases answer with _ | response
  · rfl
  · rcases encoded : codecRs.toVec response <;> simp [respond, parseAndWrite, encoded, HalfStream.close]

end Respond

section Steps

variable (framing : Framing) (codecRq : Codec Rq) (codecRs : Codec Rs) {request : Rq} {buf : Bytes}
  {x x' : Exchange Rq Rs}

theorem consistent_start : Consistent framing codecRs request buf (Exchange.start request) :=
  ⟨rfl, .inl ⟨rfl, rfl⟩, fun _ none => Option.noConfusion none, ⟨rfl, rfl⟩, .inl rfl⟩

namespace Consistent

variable {framing codecRs}

theorem toResponder_of_ne (hx : Consistent framing codecRs request buf x) (started : x.requester ≠ .writing) :
    x.toResponder = ⟨framing.writeOne buf, true⟩ :=
  (hx.sent.resolve_left fun writing => started writing.1).2

theorem encoded (hx : Consistent framing codecRs request buf x) (encoded : codecRq.toVec request = some buf) :
    codecRq.toVec x.request = some buf := by
  rw [hx.requested, encoded]

theorem requesterStep (hx : Consistent framing codecRs request buf x)
    (encoded : codecRq.toVec request = some buf)
    (stepped : P2p.requesterStep framing codecRq codecRs x = some x') :
    Consistent framing codecRs request buf x' := by
  have requester := hx.requester
  unfold P2p.requesterStep at stepped
  rcases pc : x.requester with _ | _ | result <;> simp only [RequesterAt, pc] at stepped requester
  case writing =>
    have empty := (hx.sent.resolve_right fun started => started.1 pc).2
    rw [empty, parseAndWrite_empty framing codecRq (hx.encoded codecRq encoded)] at stepped
    simp only [Option.some.injEq] at stepped
    subst stepped
    exact ⟨hx.requested, .inr ⟨nofun, rfl⟩, hx.handed, hx.responder, requester⟩
  case reading =>
    obtain ⟨read, readOk, rfl⟩ := Option.map_eq_some'.mp stepped
    exact ⟨hx.requested, .inr ⟨nofun, hx.toResponder_of_ne (by simp [pc])⟩, hx.handed, hx.responder,
      read, readOk, delivered_deliver requester read⟩
  case returned => cases stepped

theorem responderStep (roundTrip : codecRq.RoundTrip) (hx : Consistent framing codecRs request buf x)
    (encoded : codecRq.toVec request = some buf)
    (stepped : P2p.responderStep framing codecRq codecRs x = some x') :
    Consistent framing codecRs request buf x' := by
  have responder := hx.responder
  unfold P2p.responderStep at stepped
  rcases pc : x.responder with _ | _ | result <;> simp only [ResponderAt, pc] at stepped responder
  case reading =>
    by_cases writing : x.requester = .writing
    · rw [(hx.sent.resolve_right fun started => started.1 writing).2, readAndParse_empty] at stepped
      cases stepped
    · rw [hx.toResponder_of_ne writing, readAndParse_frame framing codecRq roundTrip (hx.encoded codecRq encoded)]
        at stepped
      simp only [Option.map_some', Option.some.injEq] at stepped
      subst stepped
      exact ⟨hx.requested, .inr ⟨writing, rfl⟩,
        fun got taken => (Handler.requestOf_receive responder.2 taken).trans hx.requested,
        ⟨responder.1, Handler.receive_ne_listening _⟩, hx.requester⟩
  case awaiting =>
    obtain ⟨answer, resolved, rfl⟩ := Option.map_eq_some'.mp stepped
    refine ⟨hx.requested, hx.sent, hx.handed, ⟨answer, resolved, by rw [← responder.1]⟩, ?_⟩
    have requester := hx.requester
    rcases rq : x.requester with _ | _ | result <;> simp only [RequesterAt, rq] at requester ⊢
    case returned =>
      rw [responder.1, readAndParse_empty] at requester
      simp at requester
    all_goals exact requester
  case returned => cases stepped

theorem settle (hx : Consistent framing codecRs request buf x) {held : Rq} (holding : x.handler = .holding held)
    {handler : Handler Rq Rs} (same : handler.requestOf = some held) (resolved : handler ≠ .listening) :
    Consistent framing codecRs request buf { x with handler } := by
  refine ⟨hx.requested, hx.sent, fun got taken => hx.handed got (by rw [holding]; exact same.symm.trans taken),
    ?_, hx.requester⟩
  have responder := hx.responder
  rcases pc : x.responder with _ | _ | result <;> simp only [ResponderAt, pc, holding] at responder ⊢
  · simp [Handler.requestOf] at responder
  · exact ⟨responder.1, resolved⟩
  · simp [Handler.rx] at responder

theorem dropReceiver (hx : Consistent framing codecRs request buf x) (listening : x.handler = .listening) :
    Consistent framing codecRs request buf { x with handler := .gone } := by
  refine ⟨hx.requested, hx.sent, fun _ none => Option.noConfusion none, ?_, hx.requester⟩
  have responder := hx.responder
  rcases pc : x.responder with _ | _ | result <;> simp only [ResponderAt, pc, listening] at responder ⊢
  · exact ⟨responder.1, rfl⟩
  · exact absurd rfl responder.2
  · simp [Handler.rx] at responder

theorem callerGone (hx : Consistent framing codecRs request buf x) (waiting : x.caller = .waiting) :
    Consistent framing codecRs request buf { x with caller := .gone } := by
  refine ⟨hx.requested, hx.sent, hx.handed, hx.responder, ?_⟩
  have requester := hx.requester
  rcases rq : x.requester with _ | _ | result <;> simp only [RequesterAt, rq, waiting, or_true] at requester ⊢
  obtain ⟨read, readOk, delivered⟩ := requester
  exact ⟨read, readOk, delivered.gone⟩

theorem step (roundTrip : codecRq.RoundTrip) (hx : Consistent framing codecRs request buf x)
    (encoded : codecRq.toVec request = some buf) {event : Event Rs}
    (stepped : P2p.step framing codecRq codecRs x event = some x') :
    Consistent framing codecRs request buf x' := by
  cases event with
  | requester => exact hx.requesterStep codecRq encoded stepped
  | responder => exact hx.responderStep codecRq roundTrip encoded stepped
  | answer response =>
    obtain ⟨handler, answered, rfl⟩ := Option.map_eq_some'.mp stepped
    obtain ⟨held, holding, rfl⟩ := Handler.answer_eq answered
    exact hx.settle holding rfl nofun
  | dropResponse =>
    obtain ⟨handler, dropped, rfl⟩ := Option.map_eq_some'.mp stepped
    obtain ⟨held, holding, rfl⟩ := Handler.dropResponse_eq dropped
    exact hx.settle holding rfl nofun
  | dropReceiver =>
    obtain ⟨handler, dropped, rfl⟩ := Option.map_eq_some'.mp stepped
    obtain ⟨listening, rfl⟩ := Handler.dropReceiver_eq dropped
    exact hx.dropReceiver listening
  | callerGone =>
    obtain ⟨caller, dropped, rfl⟩ := Option.map_eq_some'.mp stepped
    obtain ⟨waiting, rfl⟩ := Caller.drop_eq dropped
    exact hx.callerGone waiting

theorem run (roundTrip : codecRq.RoundTrip) (encoded : codecRq.toVec request = some buf) :
    ∀ {x x' : Exchange Rq Rs} {events : List (Event Rs)}, Consistent framing codecRs request buf x →
      P2p.run framing codecRq codecRs x events = some x' → Consistent framing codecRs request buf x'
  | _, _, [], hx, ran => Option.some.inj ran ▸ hx
  | _, _, _ :: _, hx, ran => by
    obtain ⟨_, stepped, rest⟩ := Option.bind_eq_some.mp ran
    exact run roundTrip encoded (hx.step codecRq roundTrip encoded stepped) rest

/-- An exchange where no event can happen has both upgrades returned: the requester can always
write, the responder can read once the request is written, the handler can always drop what it
holds, and the requester can read once the responder has closed. -/
theorem returned_of_stuck (roundTrip : codecRq.RoundTrip) (hx : Consistent framing codecRs request buf x)
    (encoded : codecRq.toVec request = some buf)
    (stuck : ∀ event, P2p.step framing codecRq codecRs x event = none) :
    (∃ result, x.requester = .returned result) ∧ ∃ result, x.responder = .returned result := by
  have requesterStuck := stuck .requester
  have responderStuck := stuck .responder
  simp only [P2p.step, P2p.requesterStep, P2p.responderStep] at requesterStuck responderStuck
  have started : x.requester ≠ .writing := by
    intro writing
    simp only [writing] at requesterStuck
    split at requesterStuck <;> cases requesterStuck
  have responderReturned : ∃ result, x.responder = .returned result := by
    have responder := hx.responder
    rcases pc : x.responder with _ | _ | result <;> simp only [ResponderAt, pc] at responder responderStuck
    case reading =>
      rw [hx.toResponder_of_ne started, readAndParse_frame framing codecRq roundTrip (hx.encoded codecRq encoded)]
        at responderStuck
      cases responderStuck
    case awaiting =>
      rcases handler : x.handler with _ | _ | held | ⟨held, response⟩ | held
      case listening => exact absurd handler responder.2
      case holding => simpa [P2p.step, handler, Handler.dropResponse] using stuck .dropResponse
      all_goals simp [handler, Handler.rx] at responderStuck
    case returned => exact ⟨result, rfl⟩
  refine ⟨?_, responderReturned⟩
  obtain ⟨result, returned⟩ := responderReturned
  have responder := hx.responder
  simp only [ResponderAt, returned] at responder
  obtain ⟨answer, -, responded⟩ := responder
  have closed : x.toRequester.closed = true := by
    rw [show x.toRequester = (respond framing codecRs .empty answer).1 by rw [responded]]
    exact respond_closed framing codecRs _ _
  rcases pc : x.requester with _ | _ | result
  · exact absurd pc started
  · simp only [pc, Option.map_eq_none'] at requesterStuck
    simpa [requesterStuck] using readAndParse_closed framing codecRs closed
  · exact ⟨result, rfl⟩

theorem responded (roundTrip : codecRs.RoundTrip) (hx : Consistent framing codecRs request buf x)
    {result : Except IoError Bool} (returned : x.responder = .returned result) :
    x.toRequester = HalfStream.empty.close ∧
        ((x.handler = .gone ∨ x.handler = .dropped x.request) ∧ result = .ok false ∨
          ∃ response, x.handler = .answered x.request response ∧ codecRs.toVec response = none ∧
            result = .error ⟨.invalidData⟩) ∨
      ∃ response buf', x.handler = .answered x.request response ∧ codecRs.toVec response = some buf' ∧
        result = .ok true ∧ readAndParse framing codecRs x.toRequester = some (.ok response) := by
  have responder := hx.responder
  simp only [ResponderAt, returned] at responder
  obtain ⟨answer, resolved, responded⟩ := responder
  have own : ∀ got, x.handler.requestOf = some got → got = x.request :=
    fun got taken => (hx.handed got taken).trans hx.requested.symm
  rcases respond_cases framing codecRs responded with
    ⟨rfl, wrote, rfl⟩ | ⟨⟨response, rfl, unencoded⟩, wrote, rfl⟩ | ⟨response, buf', rfl, encoded, wrote, rfl⟩
  · refine .inl ⟨wrote, .inl ⟨?_, rfl⟩⟩
    rcases Handler.rx_eq_some resolved with ⟨-, gone | ⟨held, dropped⟩⟩ | ⟨_, _, nope, _⟩
    · exact .inl gone
    · exact .inr (by rw [dropped, own held (by rw [dropped]; rfl)])
    · cases nope
  all_goals
    obtain ⟨held, answered, rfl⟩ : ∃ held, x.handler = .answered held response ∧ held = x.request := by
      rcases Handler.rx_eq_some resolved with ⟨nope, -⟩ | ⟨held, response', same, answered⟩
      · cases nope
      · obtain rfl := Option.some.inj same
        exact ⟨held, answered, own held (by rw [answered]; rfl)⟩
  · exact .inl ⟨wrote, .inr ⟨response, answered, unencoded, rfl⟩⟩
  · exact .inr ⟨response, buf', answered, encoded, rfl,
      wrote ▸ readAndParse_frame framing codecRs roundTrip encoded true⟩

end Consistent

/-- Modelled from the spec (4.3, 4.4): how an exchange ends. The responder returns `true` once it
has written the response the handler gave, `false` when the handler dropped the response sender
or never took the request, and `InvalidData` when the response does not serialize; in the last two
cases it writes nothing, and the requester reads the closed end alone. The requester hands what it
reads to the caller and returns whether the caller took it. -/
inductive Settles (x : Exchange Rq Rs) : Prop
  | answered (response : Rs) (buf : Bytes) (result : Except IoError Bool) :
      x.handler = .answered x.request response → codecRs.toVec response = some buf →
      x.responder = .returned (.ok true) → x.requester = .returned result →
      Delivered x.caller (.ok response) result → Settles x
  | unanswered (read : Except IoError Rs) (result : Except IoError Bool) :
      x.handler = .gone ∨ x.handler = .dropped x.request → x.responder = .returned (.ok false) →
      readAndParse framing codecRs HalfStream.empty.close = some read → x.requester = .returned result →
      Delivered x.caller read result → Settles x
  | unserializable (response : Rs) (read : Except IoError Rs) (result : Except IoError Bool) :
      x.handler = .answered x.request response → codecRs.toVec response = none →
      x.responder = .returned (.error ⟨.invalidData⟩) →
      readAndParse framing codecRs HalfStream.empty.close = some read → x.requester = .returned result →
      Delivered x.caller read result → Settles x

theorem Consistent.settles (roundTrip : codecRs.RoundTrip) (hx : Consistent framing codecRs request buf x)
    {result result' : Except IoError Bool} (requesterReturned : x.requester = .returned result)
    (responderReturned : x.responder = .returned result') : Settles framing codecRs x := by
  have requester := hx.requester
  simp only [RequesterAt, requesterReturned] at requester
  obtain ⟨read, readOk, delivered⟩ := requester
  rcases hx.responded roundTrip responderReturned with
    ⟨wrote, ⟨unanswered, rfl⟩ | ⟨response, answered, unencoded, rfl⟩⟩ | ⟨response, buf', answered, encoded, rfl, frame⟩
  · exact .unanswered read result unanswered responderReturned (wrote ▸ readOk) requesterReturned delivered
  · exact .unserializable response read result answered unencoded responderReturned (wrote ▸ readOk)
      requesterReturned delivered
  · obtain rfl : read = .ok response := Option.some.inj (readOk.symm.trans frame)
    exact .answered response buf' result answered encoded responderReturned requesterReturned delivered

end Steps

def Requester.rank : Requester → Nat
  | .writing => 2
  | .reading => 1
  | .returned _ => 0

def Responder.rank : Responder → Nat
  | .reading => 2
  | .awaiting => 1
  | .returned _ => 0

def Handler.rank : Handler Rq Rs → Nat
  | .listening | .holding _ => 1
  | _ => 0

def Caller.rank : Caller Rs → Nat
  | .waiting => 1
  | _ => 0

def Exchange.rank (x : Exchange Rq Rs) : Nat :=
  x.requester.rank + x.responder.rank + x.handler.rank + x.caller.rank

theorem Handler.rank_receive (handler : Handler Rq Rs) (request : Rq) :
    (handler.receive request).rank ≤ handler.rank := by
  cases handler <;> simp [receive, rank]

theorem Caller.rank_deliver (caller : Caller Rs) (read : Except IoError Rs) :
    (caller.deliver read).1.rank ≤ caller.rank := by
  cases caller <;> cases read <;> simp [deliver, rank]

section Rank

variable (framing : Framing) (codecRq : Codec Rq) (codecRs : Codec Rs) {x x' : Exchange Rq Rs}

theorem rank_step {event : Event Rs} (stepped : step framing codecRq codecRs x event = some x') :
    x'.rank < x.rank := by
  cases event with
  | requester =>
    simp only [step, requesterStep] at stepped
    rcases pc : x.requester with _ | _ | result <;> simp only [pc] at stepped
    case writing =>
      split at stepped <;> cases stepped <;> simp only [Exchange.rank, Requester.rank, pc] <;> omega
    case reading =>
      obtain ⟨read, -, rfl⟩ := Option.map_eq_some'.mp stepped
      have := x.caller.rank_deliver read
      simp only [Exchange.rank, Requester.rank, pc]
      omega
    case returned => cases stepped
  | responder =>
    simp only [step, responderStep] at stepped
    rcases pc : x.responder with _ | _ | result <;> simp only [pc] at stepped
    case reading =>
      obtain ⟨read, -, rfl⟩ := Option.map_eq_some'.mp stepped
      rcases read with _ | request
      · simp only [Exchange.rank, Responder.rank, pc]
        omega
      · have := x.handler.rank_receive request
        simp only [Exchange.rank, Responder.rank, pc]
        omega
    case awaiting =>
      obtain ⟨_, -, rfl⟩ := Option.map_eq_some'.mp stepped
      simp only [Exchange.rank, Responder.rank, pc]
      omega
    case returned => cases stepped
  | answer response =>
    obtain ⟨_, answered, rfl⟩ := Option.map_eq_some'.mp stepped
    obtain ⟨_, holding, rfl⟩ := Handler.answer_eq answered
    simp only [Exchange.rank, Handler.rank, holding]
    omega
  | dropResponse =>
    obtain ⟨_, dropped, rfl⟩ := Option.map_eq_some'.mp stepped
    obtain ⟨_, holding, rfl⟩ := Handler.dropResponse_eq dropped
    simp only [Exchange.rank, Handler.rank, holding]
    omega
  | dropReceiver =>
    obtain ⟨_, dropped, rfl⟩ := Option.map_eq_some'.mp stepped
    obtain ⟨listening, rfl⟩ := Handler.dropReceiver_eq dropped
    simp only [Exchange.rank, Handler.rank, listening]
    omega
  | callerGone =>
    obtain ⟨_, dropped, rfl⟩ := Option.map_eq_some'.mp stepped
    obtain ⟨waiting, rfl⟩ := Caller.drop_eq dropped
    simp only [Exchange.rank, Caller.rank, waiting]
    omega

theorem run_append (x : Exchange Rq Rs) (events more : List (Event Rs)) :
    run framing codecRq codecRs x (events ++ more) =
      (run framing codecRq codecRs x events).bind fun x' => run framing codecRq codecRs x' more := by
  induction events generalizing x with
  | nil => rfl
  | cons event events ih =>
    rw [List.cons_append]
    simp only [run, Option.bind_assoc, ih]

/-- From every exchange, some events lead to one where no event can happen: an event that can
happen lowers the rank. -/
theorem exists_run_stuck : ∀ (n : Nat) (x : Exchange Rq Rs), x.rank ≤ n →
    ∃ more x', run framing codecRq codecRs x more = some x' ∧ ∀ event, step framing codecRq codecRs x' event = none
  | n, x, bound => by
    by_cases stuck : ∀ event, step framing codecRq codecRs x event = none
    · exact ⟨[], x, rfl, stuck⟩
    push_neg at stuck
    obtain ⟨event, enabled⟩ := stuck
    obtain ⟨x₁, stepped⟩ := Option.ne_none_iff_exists'.mp enabled
    have lower := rank_step framing codecRq codecRs stepped
    obtain ⟨more, x', ran, stuck'⟩ := exists_run_stuck (n - 1) x₁ (by omega)
    exact ⟨event :: more, x', by simp only [run, stepped, Option.some_bind, ran], stuck'⟩

end Rank

section Interleavings

variable (framing : Framing) (codecRq : Codec Rq) (codecRs : Codec Rs) {request : Rq} {buf : Bytes}
  {events : List (Event Rs)} {x : Exchange Rq Rs}

/-- Over every interleaving from a request that serializes, the handler gets only that request,
and the caller gets only the response the handler gave, unless the end of an empty stream reads
as a response. -/
theorem run_handed (roundTripRq : codecRq.RoundTrip) (roundTripRs : codecRs.RoundTrip)
    (encoded : codecRq.toVec request = some buf)
    (ran : run framing codecRq codecRs (.start request) events = some x) :
    (∀ got, x.handler.requestOf = some got → got = request) ∧
      ∀ response, x.caller = .received response →
        x.handler = .answered request response ∨
          readAndParse framing codecRs HalfStream.empty.close = some (.ok response) := by
  have hx := (consistent_start framing codecRs).run codecRq roundTripRq encoded ran
  refine ⟨hx.handed, fun response received => ?_⟩
  have requester := hx.requester
  rcases pc : x.requester with _ | _ | result
  case writing | reading => simp [RequesterAt, pc, received] at requester
  simp only [RequesterAt, Delivered, pc, received] at requester
  obtain ⟨read, readOk, rfl, -⟩ := requester
  have responder := hx.responder
  rcases returned : x.responder with _ | _ | result'
  case reading | awaiting =>
    simp only [ResponderAt, returned] at responder
    rw [responder.1, readAndParse_empty] at readOk
    cases readOk
  rcases hx.responded roundTripRs returned with ⟨wrote, -⟩ | ⟨answer, buf', answered, -, -, frame⟩
  · exact .inr (wrote ▸ readOk)
  · obtain rfl : answer = response := Except.ok.inj (Option.some.inj (frame.symm.trans readOk))
    exact .inl (hx.requested ▸ answered)

theorem late_caller_handed :
    ∃ x, run varintFraming byteCodec byteCodec (.start 5)
        [.requester, .responder, .answer 9, .callerGone, .responder, .requester] = some x ∧
      (∀ got, x.handler.requestOf = some got → got = 5) ∧
      ∀ response, x.caller = .received response →
        x.handler = .answered 5 response ∨
          readAndParse varintFraming byteCodec HalfStream.empty.close = some (.ok response) :=
  ⟨_, rfl, run_handed varintFraming byteCodec byteCodec byteCodec_roundTrip byteCodec_roundTrip rfl
    (show run varintFraming byteCodec byteCodec (.start 5)
      [.requester, .responder, .answer 9, .callerGone, .responder, .requester] = _ from rfl)⟩

/-- Every interleaving that cannot go on has both upgrades returned, and they end as `Settles`
says from what the handler and the caller did. -/
theorem run_settles (roundTripRq : codecRq.RoundTrip) (roundTripRs : codecRs.RoundTrip)
    (encoded : codecRq.toVec request = some buf)
    (ran : run framing codecRq codecRs (.start request) events = some x)
    (stuck : ∀ event, step framing codecRq codecRs x event = none) : Settles framing codecRs x := by
  have hx := (consistent_start framing codecRs).run codecRq roundTripRq encoded ran
  obtain ⟨⟨_, requesterReturned⟩, _, responderReturned⟩ := hx.returned_of_stuck codecRq roundTripRq encoded stuck
  exact Consistent.settles framing codecRs roundTripRs hx requesterReturned responderReturned

theorem answered_run_settles :
    ∃ x, run varintFraming byteCodec byteCodec (.start 5)
        [.requester, .responder, .answer 9, .responder, .requester] = some x ∧
      Settles varintFraming byteCodec x :=
  ⟨_, rfl, run_settles varintFraming byteCodec byteCodec byteCodec_roundTrip byteCodec_roundTrip rfl
    (show run varintFraming byteCodec byteCodec (.start 5)
      [.requester, .responder, .answer 9, .responder, .requester] = _ from rfl)
    fun event => by cases event <;> rfl⟩

/-- Every interleaving can go on until both upgrades have returned, and they then end as `Settles`
says: the exchange cannot get stuck on the way. -/
theorem run_completes (roundTripRq : codecRq.RoundTrip) (roundTripRs : codecRs.RoundTrip)
    (encoded : codecRq.toVec request = some buf)
    (ran : run framing codecRq codecRs (.start request) events = some x) :
    ∃ more x', run framing codecRq codecRs x more = some x' ∧ Settles framing codecRs x' := by
  obtain ⟨more, x', finished, stuck⟩ := exists_run_stuck framing codecRq codecRs x.rank x le_rfl
  have whole : run framing codecRq codecRs (.start request) (events ++ more) = some x' := by
    rw [run_append, ran, Option.some_bind, finished]
  exact ⟨more, x', finished, run_settles framing codecRq codecRs roundTripRq roundTripRs encoded whole stuck⟩

theorem written_run_completes :
    ∃ x, run varintFraming byteCodec byteCodec (.start 5) [.requester] = some x ∧
      ∃ more x', run varintFraming byteCodec byteCodec x more = some x' ∧ Settles varintFraming byteCodec x' :=
  ⟨_, rfl, run_completes varintFraming byteCodec byteCodec byteCodec_roundTrip byteCodec_roundTrip rfl
    (show run varintFraming byteCodec byteCodec (.start 5) [.requester] = _ from rfl)⟩

end Interleavings

end P2p
