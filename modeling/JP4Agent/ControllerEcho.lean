import JP4Agent.ControllerPackets
import JP4Agent.InternetChecksum
import JP4Agent.Library.Segments

set_option autoImplicit false

namespace JP4Agent.Controller
open Hostpath StreamChannel

/-- The CPU header and the headers of Ethernet, IPv4 and ICMP. -/
abbrev icmpPktMinLen : Nat := cpuHdrSz + 14 + 20 + 8

/-- Five bytes fewer, as the device appends five. -/
def trimmed (tmpRecvdPkt : Str) : Str :=
  tmpRecvdPkt.take (if 5 < tmpRecvdPkt.length then tmpRecvdPkt.length - 5 else tmpRecvdPkt.length)

/-- Neither the protocol is ICMP nor the type is that of an echo request. -/
def NotEcho (recvdPkt : Str) : Prop := recvdPkt.getD 35 0 ≠ 1 ∧ recvdPkt.getD 46 0 ≠ 8

instance (recvdPkt : Str) : Decidable (NotEcho recvdPkt) := inferInstanceAs (Decidable (_ ∧ _))

/-- The reply to a packet that passed the checks; `none` if a checksum overflows. -/
def echo (recvdPkt : Str) : Option Str := do
  -- the Ethernet header, with the addresses switched
  let sendPkt := storeAt recvdPkt 12 (loadAt recvdPkt 18 6)
  let sendPkt := storeAt sendPkt 18 (loadAt recvdPkt 12 6)
  -- the IP header
  let sendPkt := storeAt sendPkt 36 (hostBytes 0)
  let sendPkt := storeAt sendPkt 42 (loadAt recvdPkt 38 4)
  let sendPkt := storeAt sendPkt 38 (loadAt recvdPkt 42 4)
  let check ← csum (loadAt sendPkt 26 20)
  let sendPkt := storeAt sendPkt 36 (hostBytes check)
  -- ICMP
  let sendPkt := storeAt sendPkt 46 [0]
  let sendPkt := storeAt sendPkt 47 [0]
  let sendPkt := storeAt sendPkt 48 (hostBytes 0)
  let icmpPktLen := recvdPkt.length - icmpPktMinLen + 8
  let icmpCksum ← csum (loadAt sendPkt 46 icmpPktLen)
  return storeAt sendPkt 48 (hostBytes icmpCksum)

/-- The packet sent, `some none` if it returns false. -/
def controllerICMPEcho (response : StreamMessageResponse) : Option (Option Str) :=
  match packetPayload response with
  | none => some none
  | some tmpRecvdPkt =>
    let recvdPkt := trimmed tmpRecvdPkt
    if recvdPkt.length < icmpPktMinLen ∨ recvdPkt.take 8 ≠ List.replicate 8 0 then some none
    else if NotEcho recvdPkt then some none
    else (echo recvdPkt).map some

/-- The frame of a ping back to its sender. -/
def echoReply (frame : Str) (check icmpCksum : UInt16) : Str :=
  loadAt frame 6 6 ++ (loadAt frame 0 6 ++ (loadAt frame 12 2 ++ (loadAt frame 14 10 ++
    (hostBytes check ++ (loadAt frame 30 4 ++ (loadAt frame 26 4 ++ ([0] ++ ([0] ++
      (hostBytes icmpCksum ++ frame.drop 38)))))))))

/-- A frame cut at the fields that the reply changes. -/
theorem frame_fields (frame : Str) :
    loadAt frame 0 6 ++ (loadAt frame 6 6 ++ (loadAt frame 12 2 ++ (loadAt frame 14 10 ++
      (loadAt frame 24 2 ++ (loadAt frame 26 4 ++ (loadAt frame 30 4 ++ (loadAt frame 34 1 ++
        (loadAt frame 35 1 ++ (loadAt frame 36 2 ++ frame.drop 38))))))))) = frame := by
  rw [loadAt_append_drop, loadAt_append_drop, loadAt_append_drop, loadAt_append_drop,
    loadAt_append_drop, loadAt_append_drop, loadAt_append_drop, loadAt_append_drop,
    loadAt_append_drop, loadAt_append_drop, List.drop_zero]

theorem hostBytes_length (v : UInt16) : (hostBytes v).length = 2 := rfl

section
variable {cpuHdr frame : Str} (hdr : cpuHdr.length = 12) (long : 42 ≤ frame.length)
  (short : frame.length ≤ 65536)
include hdr long short

theorem echo_eq :
    ∃ check icmpCksum, echo (cpuHdr ++ frame) = some (cpuHdr ++ echoReply frame check icmpCksum) ∧
      Verifies (loadAt (echoReply frame check icmpCksum) 14 20) ∧
      Verifies ((echoReply frame check icmpCksum).drop 34) := by
  have fields := frame_fields frame
  have dhostLength : (loadAt frame 0 6).length = 6 := loadAt_length (by omega)
  have shostLength : (loadAt frame 6 6).length = 6 := loadAt_length (by omega)
  have etherTypeLength : (loadAt frame 12 2).length = 2 := loadAt_length (by omega)
  have ipLength : (loadAt frame 14 10).length = 10 := loadAt_length (by omega)
  have oldCheckLength : (loadAt frame 24 2).length = 2 := loadAt_length (by omega)
  have saddrLength : (loadAt frame 26 4).length = 4 := loadAt_length (by omega)
  have daddrLength : (loadAt frame 30 4).length = 4 := loadAt_length (by omega)
  have icmpTypeLength : (loadAt frame 34 1).length = 1 := loadAt_length (by omega)
  have icmpCodeLength : (loadAt frame 35 1).length = 1 := loadAt_length (by omega)
  have oldCksumLength : (loadAt frame 36 2).length = 2 := loadAt_length (by omega)
  have whole : (frame.drop 38).length = frame.length - 38 := List.length_drop
  unfold echoReply
  generalize loadAt frame 0 6 = dhost at *
  generalize loadAt frame 6 6 = shost at *
  generalize loadAt frame 12 2 = etherType at *
  generalize loadAt frame 14 10 = ip at *
  generalize loadAt frame 24 2 = oldCheck at *
  generalize loadAt frame 26 4 = saddr at *
  generalize loadAt frame 30 4 = daddr at *
  generalize loadAt frame 34 1 = icmpType at *
  generalize loadAt frame 35 1 = icmpCode at *
  generalize loadAt frame 36 2 = oldCksum at *
  generalize frame.drop 38 = rest at *
  have sizes := And.intro (hostBytes_length 0) (List.length_singleton (a := (0 : UInt8)))
  obtain ⟨check, ipSum, ipVerifies⟩ := csum_verifies ip (daddr ++ saddr) (by omega)
    (by simp; omega)
  obtain ⟨icmpCksum, icmpSum, icmpVerifies⟩ := csum_verifies [0, 0] rest (by decide)
    (by simp; omega)
  have checkLength := hostBytes_length check
  have cksumLength := hostBytes_length icmpCksum
  rw [← hostBytes_zero, List.append_assoc] at ipSum
  have icmpSum : csum ([0] ++ ([0] ++ (hostBytes 0 ++ rest))) = some icmpCksum := icmpSum
  have icmpVerifies : Verifies ([0] ++ ([0] ++ (hostBytes icmpCksum ++ rest))) := icmpVerifies
  have size : (cpuHdr ++ frame).length - icmpPktMinLen + 8 = 4 + rest.length := by
    show (cpuHdr ++ frame).length - 54 + 8 = 4 + rest.length
    rw [List.length_append]
    omega
  refine ⟨check, icmpCksum, ?_, ?_, ?_⟩
  · rw [echo, size, ← fields]
    simp (disch := omega) only [storeAt_skip, storeAt_front, loadAt_skip, loadAt_front,
      loadAt_nothing, List.append_nil, hdr, dhostLength, shostLength, etherTypeLength, ipLength,
      oldCheckLength, saddrLength, daddrLength, sizes, Nat.reduceSub, ipSum, Option.bind_eq_bind,
      Option.bind_some, checkLength, loadAt_whole, icmpSum, Option.pure_def]
  · simp (disch := omega) only [loadAt_skip, loadAt_front, loadAt_nothing, List.append_nil,
      dhostLength, shostLength, etherTypeLength, ipLength, saddrLength, daddrLength, checkLength,
      Nat.reduceSub]
    simpa only [List.append_assoc] using ipVerifies
  · simp (disch := omega) only [drop_skip, dhostLength, shostLength, etherTypeLength, ipLength,
      saddrLength, daddrLength, checkLength, Nat.reduceSub, List.drop_zero]
    exact icmpVerifies

end

/-- The frame of a datagram without the five bytes at its end. -/
def pingFrame (fromDevice : Str) : Str :=
  ((fromDevice.take recvBufSz).drop 8).take ((fromDevice.take recvBufSz).length - 13)

/-- The frame is long enough, and its protocol is ICMP or its type that of an echo request. -/
def Answered (frame : Str) : Prop :=
  42 ≤ frame.length ∧ (frame.getD 23 0 = 1 ∨ frame.getD 34 0 = 8)

instance (frame : Str) : Decidable (Answered frame) := inferInstanceAs (Decidable (_ ∧ _))

theorem echoReply_length {frame : Str} (long : 42 ≤ frame.length) (check icmpCksum : UInt16) :
    (echoReply frame check icmpCksum).length = frame.length := by
  simp (disch := omega) only [echoReply, List.length_append, loadAt_length, hostBytes_length,
    List.length_singleton, List.length_drop]
  omega

section
variable (port : UInt16) {buf : Str}

theorem trimmed_length (nonempty : 8 < buf.length) :
    (trimmed ((cpuHeader port).bytes ++ buf.drop 8)).length = buf.length - 1 := by
  have hdr : (cpuHeader port).bytes.length = 12 := rfl
  rw [trimmed, List.length_take, List.length_append, List.length_drop, hdr, if_pos (by omega)]
  omega

theorem trimmed_payload (long : 13 ≤ buf.length) :
    trimmed ((cpuHeader port).bytes ++ buf.drop 8) =
      (cpuHeader port).bytes ++ (buf.drop 8).take (buf.length - 13) := by
  have hdr : (cpuHeader port).bytes.length = 12 := rfl
  rw [trimmed, List.length_append, List.length_drop, hdr, if_pos (by omega), List.take_append,
    List.take_of_length_le (show (cpuHeader port).bytes.length ≤ _ by omega), hdr]
  congr 2
  omega

end

theorem pingFrame_length (d : Str) : (pingFrame d).length = (d.take recvBufSz).length - 13 := by
  rw [pingFrame, List.length_take, List.length_drop]
  omega

theorem pingFrame_short (d : Str) : (pingFrame d).length ≤ 1987 := by
  have bounded : (d.take recvBufSz).length ≤ 2000 := List.length_take_le _ _
  rw [pingFrame_length]
  omega

theorem notEcho_iff (port : UInt16) (frame : Str) :
    NotEcho ((cpuHeader port).bytes ++ frame) ↔
      ¬ (frame.getD 23 0 = 1 ∨ frame.getD 34 0 = 8) := by
  rw [not_or]
  rfl

theorem controllerICMPEcho_short {d : Str} (port : UInt16)
    (nonempty : 8 < (d.take recvBufSz).length) (short : (pingFrame d).length < 42) :
    controllerICMPEcho (.packet ((cpuHeader port).bytes ++ (d.take recvBufSz).drop 8)) =
      some none := by
  have length := trimmed_length port nonempty
  rw [pingFrame_length] at short
  rw [controllerICMPEcho, packetPayload]
  dsimp only
  rw [if_pos (Or.inl (show _ < 54 by omega))]

/-- From the size on that the sanity check asks for, the protocol and the type decide. -/
theorem controllerICMPEcho_long {d : Str} (port : UInt16) (long : 42 ≤ (pingFrame d).length) :
    controllerICMPEcho (.packet ((cpuHeader port).bytes ++ (d.take recvBufSz).drop 8)) =
      if Answered (pingFrame d) then
        (echo ((cpuHeader port).bytes ++ pingFrame d)).map some
      else some none := by
  have hdr : (cpuHeader port).bytes.length = 12 := rfl
  have length := pingFrame_length d
  have enough : ¬ (((cpuHeader port).bytes ++ pingFrame d).length < icmpPktMinLen ∨
      ((cpuHeader port).bytes ++ pingFrame d).take 8 ≠ List.replicate 8 0) := by
    rw [not_or, not_not, List.length_append]
    exact ⟨show ¬ _ < 54 by omega, rfl⟩
  rw [controllerICMPEcho, packetPayload]
  dsimp only
  rw [trimmed_payload port (by omega), ← pingFrame, if_neg enough]
  by_cases answered : Answered (pingFrame d)
  · rw [if_neg (by rw [notEcho_iff, not_not]; exact answered.2), if_pos answered]
  · rw [if_pos, if_neg answered]
    rw [notEcho_iff]
    exact fun fields => answered ⟨long, fields⟩

/-- The controller refuses a frame, or the device gets it back on the port that it came
from: addresses switched, as an echo reply, with both checksums as a receiver wants them
and all else as it was. A reply is answered like a request. -/
theorem pinged_back (fromDevice payload : Str)
    (punted : handlePacketFromDevice fromDevice = some payload) :
    let frame := pingFrame fromDevice
    (¬ Answered frame → controllerICMPEcho (.packet payload) = some none) ∧
      (Answered frame → ∃ check icmpCksum reply pkt,
        controllerICMPEcho (.packet payload) = some (some reply) ∧
        sendPacketOut reply = .ok (some pkt) ∧ ReachesSendTo pkt ∧
        pkt.datagram = DeviceHPPacket.transmitDatagram 0
          (netWord (fromDevice.getD 6 0) (fromDevice.getD 7 0))
          (echoReply frame check icmpCksum) ∧
        Verifies (loadAt (echoReply frame check icmpCksum) 14 20) ∧
        Verifies ((echoReply frame check icmpCksum).drop 34)) := by
  intro frame
  by_cases short : fromDevice.length ≤ 8
  · rw [handlePacketFromDevice_dropped short] at punted
    cases punted
  have payloadOf := handlePacketFromDevice_punted (d := fromDevice) (by omega)
  rw [punted, Option.some.injEq] at payloadOf
  have nonempty : 8 < (fromDevice.take recvBufSz).length := by
    rw [List.length_take, recvBufSz]
    omega
  have bounded : frame.length ≤ 1987 := pingFrame_short fromDevice
  rw [payloadOf]
  generalize port : netWord (fromDevice.getD 6 0) (fromDevice.getD 7 0) = egressPort
  constructor
  · intro refused
    by_cases long : 42 ≤ frame.length
    · rw [controllerICMPEcho_long egressPort long, if_neg refused]
    · exact controllerICMPEcho_short egressPort nonempty (Nat.lt_of_not_le long)
  · intro answered
    have long : 42 ≤ frame.length := answered.1
    obtain ⟨check, icmpCksum, reply, ipSum, icmpSum⟩ :=
      echo_eq (show (cpuHeader egressPort).bytes.length = 12 from rfl) long (by omega)
    have length := echoReply_length long check icmpCksum
    have echoed := controllerICMPEcho_long egressPort long
    rw [if_pos answered, reply] at echoed
    have sent := sendPacketOut_cpuHeader egressPort (echoReply frame check icmpCksum) (by omega)
      (by omega)
    have datagram := DeviceHPPacket.transmitPacket_datagram 0 egressPort
      (echoReply frame check icmpCksum) (by omega)
    have reaches := (reachesSendTo_iff 0 egressPort (echoReply frame check icmpCksum)).mpr
      (by omega)
    exact ⟨check, icmpCksum, _, _, echoed, sent, reaches, datagram, ipSum, icmpSum⟩

/-- A ping between 103.30.10.1 and 103.30.10.3 on port 4, with two bytes of data. -/
theorem pinged_back_ping :
    let ping : Str := [2, 0, 0, 0, 0, 1] ++ [2, 0, 0, 0, 0, 3] ++ [0x08, 0] ++
      [0x45, 0, 0, 0x1E, 0xDA, 0xCC, 0x40, 0, 0x40, 1, 0, 0] ++ [0x67, 0x1E, 0x0A, 0x03] ++
      [0x67, 0x1E, 0x0A, 0x01] ++ [8, 0, 0x11, 0x22, 0, 1, 0, 2] ++ [0xAA, 0xBB]
    let fromDevice := [0, 0, 0, 0x39, 0, 0, 0, 4] ++ ping ++ [0, 0, 0, 0, 0]
    ∃ payload check icmpCksum reply pkt,
      handlePacketFromDevice fromDevice = some payload ∧
      controllerICMPEcho (.packet payload) = some (some reply) ∧
      sendPacketOut reply = .ok (some pkt) ∧ ReachesSendTo pkt ∧
      pkt.datagram = DeviceHPPacket.transmitDatagram 0 4 (echoReply ping check icmpCksum) ∧
      Verifies (loadAt (echoReply ping check icmpCksum) 14 20) ∧
      Verifies ((echoReply ping check icmpCksum).drop 34) := by
  intro ping fromDevice
  have punted := handlePacketFromDevice_punted (d := fromDevice) (by decide)
  obtain ⟨check, icmpCksum, reply, pkt, answer⟩ := (pinged_back fromDevice _ punted).2 (by decide)
  have framed : pingFrame fromDevice = ping := by decide
  have port : netWord (fromDevice.getD 6 0) (fromDevice.getD 7 0) = 4 := by decide
  rw [framed, port] at answer
  rw [port] at punted
  exact ⟨_, check, icmpCksum, reply, pkt, punted, answer⟩

end JP4Agent.Controller
