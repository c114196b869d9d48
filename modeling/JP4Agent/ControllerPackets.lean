import JP4Agent.ControllerConnection
import JP4Agent.HostpathReceive

set_option autoImplicit false

namespace JP4Agent.Controller
open Hostpath StreamChannel

/-- The payload it sends: a zeroed CPU header with the port, then the frame. -/
def controllerInjectL2Pkt (l2Pkt : Str) (egressPort : UInt16) : Str :=
  (cpuHeader egressPort).bytes ++ l2Pkt

def packetPayload : StreamMessageResponse → Option Str
  | .packet payload => some payload
  | .arbitration => none

/-- The frame and the ingress port; `none` if it returns false. -/
def controllerPuntPkt (response : StreamMessageResponse) : Option (Str × UInt16) :=
  match packetPayload response with
  | none => none
  | some recvdPkt =>
    if Accepted recvdPkt then
      some (recvdPkt.drop cpuHdrSz, netWord (recvdPkt.getD 10 0) (recvdPkt.getD 11 0))
    else none

/-- The loop of `ControllerInjectPuntL2Pkts` over all that it reads: what it returns, and the
two strings of its caller. -/
def readPuntPkts : List StreamMessageResponse → (first : Bool) → (puntL2Pkt1 puntL2Pkt2 : Str) →
    Bool × Str × Str
  | [], _, puntL2Pkt1, puntL2Pkt2 => (true, puntL2Pkt1, puntL2Pkt2)
  | response :: rest, first, puntL2Pkt1, puntL2Pkt2 =>
    match packetPayload response with
    | none => readPuntPkts rest first puntL2Pkt1 puntL2Pkt2
    | some recvdPkt =>
      if Accepted recvdPkt then
        if first then readPuntPkts rest true puntL2Pkt1 (recvdPkt.drop cpuHdrSz)
        else readPuntPkts rest true (recvdPkt.drop cpuHdrSz) puntL2Pkt2
      else (false, puntL2Pkt1, puntL2Pkt2)

/-- What it sends, then what becomes of all that it reads until the time is over. -/
def controllerInjectPuntL2Pkts (injectL2Pkt puntL2Pkt1 puntL2Pkt2 : Str) (ingressPort : UInt16)
    (responses : List StreamMessageResponse) : Str × Bool × Str × Str :=
  ((cpuHeader ingressPort).bytes ++ injectL2Pkt,
    readPuntPkts responses false puntL2Pkt1 puntL2Pkt2)

/-- What is asserted after the first `Read` on a stream on which the controller asks to be
master. -/
def handshake (responses : List StreamMessageResponse) : Bool :=
  match responses.head? with
  | some .arbitration => true
  | some (.packet _) | none => false

/-- The frame and the port of a datagram of the device, as far as the agent receives it. -/
def frameOf (fromDevice : Str) : Option (Str × UInt16) :=
  if 8 < fromDevice.length then
    some ((fromDevice.take recvBufSz).drop 8,
      netWord (fromDevice.getD 6 0) (fromDevice.getD 7 0))
  else none

theorem controllerPuntPkt_cpuHeader (port : UInt16) {frame : Str} (nonempty : 0 < frame.length) :
    controllerPuntPkt (.packet ((cpuHeader port).bytes ++ frame)) = some (frame, port) := by
  have field : netWord (((cpuHeader port).bytes ++ frame).getD 10 0)
      (((cpuHeader port).bytes ++ frame).getD 11 0) = port := netWord_high_low port
  rw [controllerPuntPkt, packetPayload]
  dsimp only
  rw [if_pos (cpuHeader_accepted port frame nonempty), field]
  rfl

theorem handlePacketFromDevice_dropped {d : Str} (short : d.length ≤ 8) :
    handlePacketFromDevice d = none := by
  have whole : d.take recvBufSz = d := List.take_of_length_le (by unfold recvBufSz; omega)
  unfold handlePacketFromDevice
  simp [whole, short, DeviceHPPacket.headerSize]

theorem handlePacketFromDevice_punted {d : Str} (long : 8 < d.length) :
    handlePacketFromDevice d =
      some ((cpuHeader (netWord (d.getD 6 0) (d.getD 7 0))).bytes ++
        (d.take recvBufSz).drop 8) := by
  have received : 8 < (d.take recvBufSz).length := by
    rw [List.length_take, recvBufSz]
    omega
  have payload := handlePacketFromDevice_eq (d.take recvBufSz) received (List.length_take_le _ _)
  have port : netWord (d.take recvBufSz)[6] (d.take recvBufSz)[7] =
      netWord (d.getD 6 0) (d.getD 7 0) := by
    simp only [List.getElem_take, List.getD_eq_getElem?_getD,
      List.getElem?_eq_getElem (show 6 < d.length by omega),
      List.getElem?_eq_getElem (show 7 < d.length by omega), Option.getD_some]
  rwa [handlePacketFromDevice_take, port] at payload

/-- A datagram is dropped, or the controller gets its frame and its port. -/
theorem punted_frame (d : Str) :
    (handlePacketFromDevice d).bind (fun payload => controllerPuntPkt (.packet payload)) =
      frameOf d := by
  by_cases short : d.length ≤ 8
  · rw [handlePacketFromDevice_dropped short, frameOf, if_neg (by omega), Option.bind_none]
  · have nonempty : 0 < ((d.take recvBufSz).drop 8).length := by
      rw [List.length_drop, List.length_take, recvBufSz]
      omega
    rw [handlePacketFromDevice_punted (by omega), frameOf, if_pos (by omega), Option.bind_some,
      controllerPuntPkt_cpuHeader _ nonempty]

section
variable {Stream : Type} [DecidableEq Stream]

/-- What the controller at the other end of a stream makes of all that it reads. -/
def framesRead (stream : Stream) (s : State Stream) : List (Str × UInt16) :=
  s.writes.reverse.filterMap fun write =>
    if write.stream = stream ∧ write.phase = .running then controllerPuntPkt write.response
    else none

/-- The punted packets reach this stream: it is registered and its handler runs. After the
handler threw, its stream is destroyed. -/
def Served (stream : Stream) (s : State Stream) : Prop :=
  s.conn.stream_ = some stream ∧ s.handlers stream = .running

instance (stream : Stream) (s : State Stream) : Decidable (Served stream s) :=
  inferInstanceAs (Decidable (_ ∧ _))

/-- The datagram that this step hands to `send_pkt_in` while the stream is served. -/
def puntedTo (stream : Stream) (s : State Stream) : Action Stream → Option Str
  | .punt fromDevice => if Served stream s then some fromDevice else none
  | .message .. | .enter _ | .clear _ | .finish _ => none

def registeredPunts (stream : Stream) (s : State Stream) (actions : List (Action Stream)) :
    List Str :=
  collect step (puntedTo stream) s actions

def responses (stream : Stream) (s : State Stream) : List StreamMessageResponse :=
  (s.writes.reverse.filter fun write =>
    write.stream = stream ∧ write.phase = .running).map Write.response

/-- What this step writes to the stream for the controller to read. -/
def answer (stream : Stream) (s : State Stream) : Action Stream → Option StreamMessageResponse
  | .punt fromDevice =>
    if Served stream s then (handlePacketFromDevice fromDevice).map .packet else none
  | .message handler .arbitration _ => if handler = stream then some .arbitration else none
  | .message _ (.packet _) _ | .message _ .other _ | .enter _ | .clear _ | .finish _ => none

theorem framesRead_eq (stream : Stream) (s : State Stream) :
    framesRead stream s = (responses stream s).filterMap controllerPuntPkt := by
  rw [responses, List.filterMap_map, List.filterMap_filter]
  simp [framesRead]

theorem responses_write (stream : Stream) {s t : State Stream} {write : Write Stream}
    (written : t.writes = write :: s.writes) :
    responses stream t = responses stream s ++
      if write.stream = stream ∧ write.phase = .running then [write.response] else [] := by
  unfold responses
  rw [written, List.reverse_cons, List.filter_append, List.map_append]
  congr 1
  by_cases here : write.stream = stream ∧ write.phase = .running
  · simp [here]
  · simp [here]

theorem responses_punt (stream : Stream) {s t : State Stream} {fromDevice : Str}
    (taken : step s (.punt fromDevice) = some t) :
    responses stream t = responses stream s ++ (answer stream s (.punt fromDevice)).toList := by
  rw [step] at taken
  rw [answer]
  cases received : handlePacketFromDevice fromDevice with
  | none =>
      simp only [received, Option.some.injEq] at taken
      rw [← taken, Option.map_none, ite_self, Option.toList_none, List.append_nil]
  | some payload =>
      simp only [received, Option.some.injEq] at taken
      rw [← taken, State.sendPktIn, ControllerConnection.sendPktIn_eq]
      cases registered : s.conn.stream_ with
      | none => simp [responses, Served, registered]
      | some other =>
          refine (responses_write stream rfl).trans (congrArg _ ?_)
          by_cases here : other = stream
          · subst here
            by_cases running : s.handlers other = .running
            · simp [Served, registered, running]
            · simp [Served, registered, running]
          · simp [Served, registered, here]

theorem responses_step (stream : Stream) (s : State Stream) (action : Action Stream)
    (t : State Stream) (taken : step s action = some t) :
    responses stream t = responses stream s ++ (answer stream s action).toList := by
  cases action with
  | punt fromDevice => exact responses_punt stream taken
  | message handler request delivered =>
      cases request with
      | arbitration =>
          obtain ⟨running, ⟨⟩⟩ := Option.ite_none_right_eq_some.mp taken
          refine (responses_write stream rfl).trans (congrArg _ ?_)
          rw [answer]
          by_cases here : handler = stream
          · subst here
            simp [running]
          · simp [here]
      | packet | other =>
          cases step_taken taken <;> exact (List.append_nil _).symm
  | enter | clear | finish =>
      cases step_taken taken
      exact (List.append_nil _).symm

theorem responses_run (stream : Stream) {actions : List (Action Stream)} {s t : State Stream}
    (ran : run step s actions = some t) :
    responses stream t = responses stream s ++ collect step (answer stream) s actions :=
  run_collects (responses_step stream) ran

theorem answer_frame (stream : Stream) (s : State Stream) (action : Action Stream) :
    (answer stream s action).bind controllerPuntPkt =
      (puntedTo stream s action).bind frameOf := by
  cases action with
  | punt fromDevice =>
      have frame := punted_frame fromDevice
      rw [answer, puntedTo]
      split
      · rw [Option.bind_some, ← frame, Option.bind_map]
        rfl
      · rfl
  | message handler request delivered =>
      cases request with
      | arbitration =>
          rw [answer, puntedTo]
          split <;> rfl
      | packet | other => rfl
  | enter | clear | finish => rfl

theorem framesRead_run (stream : Stream) (actions : List (Action Stream)) (s t : State Stream)
    (ran : run step s actions = some t) :
    framesRead stream t =
      framesRead stream s ++ (registeredPunts stream s actions).filterMap frameOf := by
  rw [framesRead_eq, framesRead_eq, responses_run stream ran, List.filterMap_append,
    registeredPunts, collect_filterMap (answer_frame stream)]

/-- Over any interleaving of stream handlers and punted packets, a controller gets the
frames and ports of exactly the datagrams that arrived while its stream was served, in their
order and as far as they were received. What it injects is sent as the same frame to the same
port, if the array of the trace can hold it. -/
theorem frames_exchanged :
    (∀ (stream : Stream) (actions : List (Action Stream)) (s : State Stream),
      run step {} actions = some s →
        framesRead stream s = (registeredPunts stream {} actions).filterMap frameOf) ∧
    ∀ (l2Pkt : Str) (egressPort : UInt16), 0 < l2Pkt.length → l2Pkt.length ≤ 3257 →
      ∃ pkt, sendPacketOut (controllerInjectL2Pkt l2Pkt egressPort) = .ok (some pkt) ∧
        ReachesSendTo pkt ∧
        pkt.datagram = [0x08, 0, netHigh (UInt16.ofNat (8 + l2Pkt.length)),
          netLow (UInt16.ofNat (8 + l2Pkt.length)), 0, 0, netHigh egressPort,
          netLow egressPort] ++ l2Pkt := by
  constructor
  · intro stream actions s ran
    exact framesRead_run stream actions {} s ran
  · intro l2Pkt egressPort nonempty fits
    exact ⟨_, sendPacketOut_cpuHeader egressPort l2Pkt nonempty (by omega),
      (reachesSendTo_iff 0 egressPort l2Pkt).mpr fits,
      DeviceHPPacket.transmitPacket_datagram 0 egressPort l2Pkt (by omega)⟩

end

/-- One controller that stays, between two datagrams of which one comes too early. -/
theorem frames_exchanged_late :
    let early : Str := [0, 0, 0, 9, 0, 0, 0, 3, 0xAA]
    let late : Str := [0, 0, 0, 9, 0, 0, 0, 4, 0xBB]
    let actions : List (Action Bool) := [.punt early, .enter true, .punt late]
    (∃ s, run step {} actions = some s ∧
        framesRead true s = (registeredPunts true {} actions).filterMap frameOf) ∧
      registeredPunts true {} actions = [late] ∧ frameOf late = some ([0xBB], 4) ∧
      ∃ pkt, sendPacketOut (controllerInjectL2Pkt [0xCC] 7) = .ok (some pkt) ∧
        ReachesSendTo pkt ∧ pkt.datagram = [0x08, 0, 0, 9, 0, 0, 0, 7, 0xCC] := by
  obtain ⟨reads, sends⟩ := @frames_exchanged Bool _
  refine ⟨⟨_, rfl, reads true _ _ rfl⟩, rfl, rfl, ?_⟩
  exact sends [0xCC] 7 (by decide) (by decide)

/-- A response that is no packet, or one that the controller takes. -/
def Readable (response : StreamMessageResponse) : Prop :=
  ∀ payload ∈ packetPayload response, Accepted payload

/-- Once it has the first frame, it keeps the last. -/
theorem readPuntPkts_first {read : List StreamMessageResponse} (readable : ∀ r ∈ read, Readable r)
    (pkt1 pkt2 : Str) :
    readPuntPkts read true pkt1 pkt2 =
      (true, pkt1, ((read.filterMap controllerPuntPkt).map Prod.fst).getLastD pkt2) := by
  induction read generalizing pkt2 with
  | nil => rfl
  | cons response rest ih =>
      rw [List.forall_mem_cons] at readable
      rw [readPuntPkts, List.filterMap_cons, controllerPuntPkt]
      cases payload : packetPayload response with
      | none => exact ih readable.2 pkt2
      | some recvdPkt =>
          have accepted := readable.1 recvdPkt payload
          dsimp only
          rw [if_pos accepted, if_pos accepted, if_pos rfl, ih readable.2, List.map_cons,
            List.getLastD_cons]

theorem readPuntPkts_eq {read : List StreamMessageResponse} (readable : ∀ r ∈ read, Readable r)
    (pkt1 pkt2 : Str) :
    let frames := (read.filterMap controllerPuntPkt).map Prod.fst
    readPuntPkts read false pkt1 pkt2 = (true, frames.headD pkt1, frames.tail.getLastD pkt2) := by
  induction read with
  | nil => rfl
  | cons response rest ih =>
      rw [List.forall_mem_cons] at readable
      rw [readPuntPkts, List.filterMap_cons, controllerPuntPkt]
      cases payload : packetPayload response with
      | none => exact ih readable.2
      | some recvdPkt =>
          have accepted := readable.1 recvdPkt payload
          dsimp only
          rw [if_pos accepted, if_pos accepted, if_neg (by decide),
            readPuntPkts_first readable.2]
          rfl

theorem readable_punted {fromDevice payload : Str}
    (punted : handlePacketFromDevice fromDevice = some payload) : Accepted payload := by
  by_cases short : fromDevice.length ≤ 8
  · rw [handlePacketFromDevice_dropped short] at punted
    cases punted
  · rw [handlePacketFromDevice_punted (by omega), Option.some.injEq] at punted
    rw [← punted]
    apply cpuHeader_accepted
    rw [List.length_drop, List.length_take, recvBufSz]
    omega

section
variable {Stream : Type} [DecidableEq Stream]

/-- The agent writes nothing else. -/
theorem readable_answer (stream : Stream) (s : State Stream) (action : Action Stream) :
    ∀ response ∈ answer stream s action, Readable response := by
  cases action with
  | punt fromDevice =>
      rw [answer]
      split
      · intro response written payload same
        obtain ⟨payload', punted, rfl⟩ := Option.map_eq_some_iff.mp written
        obtain rfl := Option.some.inj same
        exact readable_punted punted
      · simp
  | message handler request delivered =>
      cases request with
      | arbitration =>
          intro response written payload same
          obtain ⟨_, ⟨⟩⟩ := Option.ite_none_right_eq_some.mp written
          cases same
      | packet | other => simp [answer]
  | enter | clear | finish => simp [answer]

/-- Over any interleaving, a controller that injects a frame and reads until the time is over
ends with the frames of the first and the last of the datagrams that arrived while its stream
was served, and loses those between them. It never finds fault, even if none arrived: then the
strings of its caller are what they were. -/
theorem first_and_last_punted (stream : Stream) (actions : List (Action Stream))
    (s : State Stream) (ran : run step {} actions = some s)
    (injectL2Pkt puntL2Pkt1 puntL2Pkt2 : Str) (ingressPort : UInt16) :
    let frames := ((registeredPunts stream {} actions).filterMap frameOf).map Prod.fst
    controllerInjectPuntL2Pkts injectL2Pkt puntL2Pkt1 puntL2Pkt2 ingressPort
        (responses stream s) =
      (controllerInjectL2Pkt injectL2Pkt ingressPort, true, frames.headD puntL2Pkt1,
        frames.tail.getLastD puntL2Pkt2) := by
  have read := (framesRead_eq stream s).symm.trans (framesRead_run stream actions {} s ran)
  have each : ∀ r ∈ responses stream s, Readable r := by
    rw [responses_run stream ran]
    exact mem_collect fun s action _ => readable_answer stream s action
  have ends := readPuntPkts_eq each puntL2Pkt1 puntL2Pkt2
  rw [read] at ends
  intro frames
  rw [controllerInjectPuntL2Pkts, ends]
  rfl

end

theorem first_and_last_punted_copies :
    let copy (b : UInt8) : Str := [0, 0, 0, 9, 0, 0, 0, 3, b]
    let actions : List (Action Unit) :=
      [.enter (), .punt (copy 0xAA), .punt (copy 0xBB), .punt (copy 0xCC)]
    ∃ s, run step {} actions = some s ∧
      controllerInjectPuntL2Pkts [0xDD] [] [] 7 (responses () s) =
        (controllerInjectL2Pkt [0xDD] 7, true, [0xAA], [0xCC]) := by
  intro copy actions
  obtain ⟨s, ran⟩ : ∃ s, run step {} actions = some s := ⟨_, rfl⟩
  have ends := first_and_last_punted () actions s ran [0xDD] [] [] 7
  have punts : registeredPunts () {} actions = [copy 0xAA, copy 0xBB, copy 0xCC] := rfl
  rw [punts] at ends
  exact ⟨s, ran, ends⟩

section
variable {Stream : Type} [DecidableEq Stream]

theorem handshake_packet {read : List StreamMessageResponse} (readable : ∀ r ∈ read, Readable r)
    (packets : ∀ r ∈ read, r ≠ .arbitration) (rest : List StreamMessageResponse) :
    handshake (read ++ .arbitration :: rest) = true ↔ read.filterMap controllerPuntPkt = [] := by
  cases read with
  | nil => exact iff_of_true rfl rfl
  | cons response later =>
      cases response with
      | arbitration => exact absurd rfl (packets _ List.mem_cons_self)
      | packet payload =>
          have accepted : Accepted payload := readable _ List.mem_cons_self payload rfl
          refine iff_of_false Bool.false_ne_true fun empty => ?_
          rw [List.filterMap_cons, controllerPuntPkt, packetPayload] at empty
          dsimp only at empty
          rw [if_pos accepted] at empty
          cases empty

theorem action_of_arbitration {stream : Stream} {s : State Stream} {action : Action Stream}
    (written : answer stream s action = some .arbitration) :
    ∃ again, action = .message stream .arbitration again := by
  cases action with
  | punt fromDevice =>
      rw [answer] at written
      split at written
      · obtain ⟨payload, _, wrong⟩ := Option.map_eq_some_iff.mp written
        cases wrong
      · cases written
  | message handler request delivered =>
      cases request with
      | arbitration =>
          obtain ⟨rfl, _⟩ := Option.ite_none_right_eq_some.mp written
          exact ⟨delivered, rfl⟩
      | packet | other => cases written
  | enter | clear | finish => cases written

/-- Over any interleaving, the assertions of a controller about the answer to its first request
hold exactly if no frame was punted to its stream before the agent came to that request. -/
theorem handshake_iff (stream : Stream) {before after : List (Action Stream)} {delivered : Bool}
    {s : State Stream}
    (ran : run step {} (before ++ .message stream .arbitration delivered :: after) = some s)
    (first : ∀ again, .message stream .arbitration again ∉ before) :
    handshake (responses stream s) = true ↔
      ∀ fromDevice ∈ registeredPunts stream {} before, frameOf fromDevice = none := by
  obtain ⟨t, ranBefore, ranAfter⟩ :=
    Option.bind_eq_some_iff.mp ((run_append before _ _).symm.trans ran)
  obtain ⟨u, taken, _⟩ := run_cons ranAfter
  have answered : answer stream t (.message stream .arbitration delivered) = some .arbitration :=
    if_pos rfl
  have read : responses stream s = collect step (answer stream) {} before ++
      .arbitration :: collect step (answer stream) u after := by
    rw [responses_run stream ran, collect_append _ ranBefore, collect_cons taken, answered]
    rfl
  have readable : ∀ r ∈ collect step (answer stream) {} before, Readable r :=
    mem_collect fun s action _ => readable_answer stream s action
  have packets : ∀ r ∈ collect step (answer stream) {} before, r ≠ .arbitration := by
    refine mem_collect fun s action member response written same => ?_
    rw [same] at written
    obtain ⟨again, rfl⟩ := action_of_arbitration written
    exact first again member
  rw [read, handshake_packet readable packets, collect_filterMap (answer_frame stream),
    List.filterMap_eq_nil_iff]
  rfl

end

theorem handshake_iff_raced :
    let before : List (Action Unit) := [.enter (), .punt [0, 0, 0, 9, 0, 0, 0, 3, 0xAA]]
    ∃ s, run step {} (before ++ .message () .arbitration true :: []) = some s ∧
      ¬ handshake (responses () s) = true := by
  intro before
  obtain ⟨s, ran⟩ : ∃ s, run step {} (before ++ .message () .arbitration true :: []) = some s :=
    ⟨_, rfl⟩
  refine ⟨s, ran, fun holds => ?_⟩
  have nothing := (handshake_iff () ran (by simp [before])).mp holds
  cases nothing [0, 0, 0, 9, 0, 0, 0, 3, 0xAA] (List.mem_singleton.mpr rfl)

end JP4Agent.Controller
