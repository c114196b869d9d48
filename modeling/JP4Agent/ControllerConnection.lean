import JP4Agent.HostpathTransmit
import JP4Agent.Library.Runs

set_option autoImplicit false

/- The one connection to a controller and the StreamChannel handlers that share it.
A stream stands for its `StreamChannelReaderWriter`, which exactly one handler uses. -/
namespace JP4Agent

structure ControllerConnection (Stream : Type) where
  stream_ : Option Stream := none

namespace ControllerConnection
variable {Stream : Type}

def setStream (conn : ControllerConnection Stream) (stream : Stream) :
    ControllerConnection Stream := { conn with stream_ := some stream }

def clearStream (conn : ControllerConnection Stream) : ControllerConnection Stream :=
  { conn with stream_ := none }

/-- The stream that `Write` is called on, and `pkt_sent`. -/
def sendPktIn (conn : ControllerConnection Stream) : Option Stream × Bool :=
  match conn.stream_ with
  | some stream => (some stream, true)
  | none => (none, false)

theorem sendPktIn_eq (conn : ControllerConnection Stream) :
    conn.sendPktIn = (conn.stream_, conn.stream_.isSome) := by
  rcases conn with ⟨_ | stream⟩ <;> rfl

end ControllerConnection

namespace StreamChannel

/-- The stages of one call of the handler. -/
inductive Phase where
  | idle
  | running
  | cleared
  | returned
  | threw
  deriving DecidableEq, Repr

/-- The handler was entered and has not executed its `clear_stream`. -/
def Phase.Open (phase : Phase) : Prop := phase = .running ∨ phase = .threw

/-- The handler is over and the runtime has destroyed its stream. -/
def Phase.Ended (phase : Phase) : Prop := phase = .returned ∨ phase = .threw

inductive StreamMessageRequest where
  | arbitration
  | packet (payload : Str)
  | other

inductive StreamMessageResponse where
  /-- Status code `OK`. -/
  | arbitration
  | packet (payload : Str)

/-- A call of `Write`: the stream, the phase its handler was in, and which call of
`send_pkt_in` made it, if not the handler itself. -/
structure Write (Stream : Type) where
  stream : Stream
  phase : Phase
  response : StreamMessageResponse
  punt : Option Nat

structure State (Stream : Type) where
  conn : ControllerConnection Stream := {}
  handlers : Stream → Phase := fun _ => .idle
  /-- The streams in the order their handlers were entered, latest first. -/
  opened : List Stream := []
  writes : List (Write Stream) := []
  /-- What each call of `send_pkt_in` returned, in order. -/
  results : List Bool := []

inductive Action (Stream : Type) where
  | enter (stream : Stream)
  /-- `Read` gave this request. `delivered` is whether a `send_to` made for it succeeds. -/
  | message (stream : Stream) (request : StreamMessageRequest) (delivered : Bool)
  /-- `Read` gave nothing. -/
  | clear (stream : Stream)
  | finish (stream : Stream)
  | punt (fromDevice : Str)

namespace State
variable {Stream : Type} [DecidableEq Stream] (s : State Stream) (stream : Stream)

def setPhase (phase : Phase) : State Stream :=
  { s with handlers := Function.update s.handlers stream phase }

def enter : State Stream :=
  { s.setPhase stream .running with
    conn := s.conn.setStream stream
    opened := stream :: s.opened }

/-- The reply goes to the handler's own stream. -/
def arbitrate : State Stream :=
  { s with writes := ⟨stream, s.handlers stream, .arbitration, none⟩ :: s.writes }

/-- A failed `send_to` throws through the handler. A copy of negative length, and one or a
trace that overruns its buffer before `send_to`, have no defined outcome. -/
def packet (payload : Str) (delivered : Bool) : Option (State Stream) :=
  match Hostpath.sendPacketOut payload with
  | .error _ => none
  | .ok none => some s
  | .ok (some pkt) =>
    if Hostpath.ReachesSendTo pkt then
      some (if delivered then s else s.setPhase stream .threw)
    else none

def clear : State Stream :=
  { s.setPhase stream .cleared with conn := s.conn.clearStream }

/-- One call of `send_pkt_in`. -/
def sendPktIn (payload : Str) : State Stream :=
  { s with
    writes := match s.conn.sendPktIn.1 with
      | some stream =>
        ⟨stream, s.handlers stream, .packet payload, some s.results.length⟩ :: s.writes
      | none => s.writes
    results := s.results ++ [s.conn.sendPktIn.2] }

end State

variable {Stream : Type} [DecidableEq Stream]

def step (s : State Stream) : Action Stream → Option (State Stream)
  | .enter stream => if s.handlers stream = .idle then some (s.enter stream) else none
  | .message stream request delivered =>
    if s.handlers stream = .running then
      match request with
      | .arbitration => some (s.arbitrate stream)
      | .packet payload => s.packet stream payload delivered
      | .other => some s
    else none
  | .clear stream => if s.handlers stream = .running then some (s.clear stream) else none
  | .finish stream =>
    if s.handlers stream = .cleared then some (s.setPhase stream .returned) else none
  | .punt fromDevice =>
    match Hostpath.handlePacketFromDevice fromDevice with
    | none => some s
    | some payload => some (s.sendPktIn payload)

/-- The request makes the handler call `send_to`. -/
def Transmits : StreamMessageRequest → Prop
  | .packet payload =>
    ∃ pkt, Hostpath.sendPacketOut payload = .ok (some pkt) ∧ Hostpath.ReachesSendTo pkt
  | _ => False

/-- What a step can do. -/
inductive Taken (s : State Stream) : Action Stream → State Stream → Prop where
  | enter (stream : Stream) (idle : s.handlers stream = .idle) :
      Taken s (.enter stream) (s.enter stream)
  | arbitrate (stream : Stream) (delivered : Bool) (running : s.handlers stream = .running) :
      Taken s (.message stream .arbitration delivered) (s.arbitrate stream)
  | proceed (stream : Stream) (request : StreamMessageRequest) (delivered : Bool)
      (running : s.handlers stream = .running)
      (sent : ¬ (Transmits request ∧ delivered = false)) :
      Taken s (.message stream request delivered) s
  | throw (stream : Stream) (request : StreamMessageRequest)
      (running : s.handlers stream = .running) (transmits : Transmits request) :
      Taken s (.message stream request false) (s.setPhase stream .threw)
  | clear (stream : Stream) (running : s.handlers stream = .running) :
      Taken s (.clear stream) (s.clear stream)
  | finish (stream : Stream) (cleared : s.handlers stream = .cleared) :
      Taken s (.finish stream) (s.setPhase stream .returned)
  | drop (fromDevice : Str) : Taken s (.punt fromDevice) s
  | punt (fromDevice payload : Str) : Taken s (.punt fromDevice) (s.sendPktIn payload)

theorem step_packet {s s' : State Stream} {stream : Stream} {payload : Str} {delivered : Bool}
    (running : s.handlers stream = .running)
    (taken : s.packet stream payload delivered = some s') :
    Taken s (.message stream (.packet payload) delivered) s' := by
  simp only [State.packet] at taken
  split at taken
  · cases taken
  · rename_i malformed
    cases taken
    refine .proceed stream _ delivered running ?_
    rintro ⟨⟨pkt, sent, _⟩, _⟩
    rw [malformed] at sent
    cases sent
  · rename_i pkt sent
    obtain ⟨reaches, taken⟩ := Option.ite_none_right_eq_some.mp taken
    cases delivered with
    | true =>
        cases taken
        exact .proceed stream _ true running fun fails => Bool.noConfusion fails.2
    | false =>
        cases taken
        exact .throw stream _ running ⟨pkt, sent, reaches⟩

theorem step_taken {s s' : State Stream} {action : Action Stream}
    (taken : step s action = some s') : Taken s action s' := by
  cases action with
  | enter stream =>
      obtain ⟨idle, ⟨⟩⟩ := Option.ite_none_right_eq_some.mp taken
      exact .enter stream idle
  | message stream request delivered =>
      obtain ⟨running, handled⟩ := Option.ite_none_right_eq_some.mp taken
      cases request with
      | arbitration =>
          cases handled
          exact .arbitrate stream delivered running
      | packet payload => exact step_packet running handled
      | other =>
          cases handled
          exact .proceed stream .other delivered running fun fails => fails.1
  | clear stream =>
      obtain ⟨running, ⟨⟩⟩ := Option.ite_none_right_eq_some.mp taken
      exact .clear stream running
  | finish stream =>
      obtain ⟨cleared, ⟨⟩⟩ := Option.ite_none_right_eq_some.mp taken
      exact .finish stream cleared
  | punt fromDevice =>
      simp only [step] at taken
      split at taken
      · cases taken
        exact .drop fromDevice
      · rename_i payload _
        cases taken
        exact .punt fromDevice payload

end StreamChannel
end JP4Agent
