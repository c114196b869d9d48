import JP4Agent.HostpathTransmit

set_option autoImplicit false

namespace JP4Agent.Hostpath
open DeviceHPPacket

/-- The datagram sent when the payload made from `fromDevice` is sent back as it is. -/
def reinject (fromDevice : Str) : Option Str :=
  match handlePacketFromDevice fromDevice with
  | none => none
  | some payload =>
    match sendPacketOut payload with
    | .ok (some pkt) => some pkt.datagram
    | _ => none

section
variable (d : Str)

/-- The cells of a received packet are the received bytes. -/
theorem receivePacket_cells (i : Nat) (inside : i < d.length) :
    (receivePacket d).pktDataBuffer.cells i = d[i] := by
  have copied := HeapBuffer.storeBytes_inside
    (createReceive (UInt16.ofNat (d.length - headerSize))).pktDataBuffer 0 d i inside
  rw [Nat.zero_add] at copied
  exact copied

theorem receivePacket_dataSize (long : 8 < d.length) (fits : d.length ≤ 2000) :
    (receivePacket d).dataSize.toNat = (d.drop 8).length := by
  have total : (receivePacket d).totalLength.toNat = d.length := by
    change (8 + UInt16.ofNat (d.length - 8)).toNat = _
    rw [UInt16.toNat_add, UInt16.toNat_ofNat']
    change (8 + (d.length - 8) % 65536) % 65536 = _
    omega
  rw [dataSize, total, List.length_drop]
  omega

theorem receivePacket_portIndex (long : 8 < d.length) :
    (receivePacket d).portIndex = netWord d[6] d[7] := by
  rw [← receivePacket_cells d 6 (by omega), ← receivePacket_cells d 7 (by omega)]
  rfl

theorem receivePacket_pktDir (long : 8 < d.length) :
    (receivePacket d).pktDir = if (d[0] &&& 0x08) >>> 3 = 0 then .receive else .transmit := by
  rw [← receivePacket_cells d 0 (by omega)]
  rfl

theorem handlePacketFromDevice_eq (long : 8 < d.length) (fits : d.length ≤ 2000) :
    handlePacketFromDevice d = some ((cpuHeader (netWord d[6] d[7])).bytes ++ d.drop 8) := by
  have whole : d.take recvBufSz = d := List.take_of_length_le fits
  have data : (receivePacket d).pktDataBuffer.load 8 (d.drop 8).length = d.drop 8 := by
    apply HeapBuffer.load_eq
    intro i inside
    rw [List.length_drop] at inside
    rw [receivePacket_cells d (8 + i) (by omega), List.getElem_drop]
  have header : ¬ d.length ≤ headerSize := Nat.not_le.mpr long
  rw [handlePacketFromDevice, whole, if_neg (by omega), if_neg header]
  dsimp only
  rw [receivePacket_dataSize d long fits, receivePacket_portIndex d long, data]

end

theorem cpuHeader_accepted (portIndex : UInt16) (frame : Str) (nonempty : 0 < frame.length) :
    Accepted ((cpuHeader portIndex).bytes ++ frame) := by
  refine ⟨?_, rfl⟩
  rw [List.length_append]
  change 12 < 12 + frame.length
  omega

/-- Behind a CPU header the port and the frame come out as they went in. -/
theorem sendPacketOut_cpuHeader (portIndex : UInt16) (frame : Str) (nonempty : 0 < frame.length)
    (small : frame.length < 2147483600) :
    sendPacketOut ((cpuHeader portIndex).bytes ++ frame) =
      .ok (some (transmitPacket 0 portIndex frame)) := by
  have length : ((cpuHeader portIndex).bytes ++ frame).length = 12 + frame.length :=
    List.length_append
  rw [sendPacketOut_eq (cpuHeader_accepted portIndex frame nonempty) (by omega)]
  have port : netWord (((cpuHeader portIndex).bytes ++ frame).getD 10 0)
      (((cpuHeader portIndex).bytes ++ frame).getD 11 0) = portIndex :=
    netWord_high_low portIndex
  rw [port]
  rfl

/-- Packet-in followed by packet-out keeps the port and the frame. -/
theorem reinject_eq (d : Str) (long : 8 < d.length) (fits : d.length ≤ 2000) :
    reinject d = some (transmitDatagram 0 (netWord d[6] d[7]) (d.drop 8)) := by
  have frame : (d.drop 8).length = d.length - 8 := List.length_drop
  rw [reinject, handlePacketFromDevice_eq d long fits]
  dsimp only
  rw [sendPacketOut_cpuHeader _ _ (by omega) (by omega)]
  dsimp only
  rw [transmitPacket_datagram _ _ _ (by omega)]

/-- A datagram that was sent is a fixed point of the round trip. -/
theorem reinject_transmitDatagram (portIndex : UInt16) (frame : Str)
    (nonempty : 0 < frame.length) (fits : frame.length ≤ 1992) :
    reinject (transmitDatagram 0 portIndex frame) = some (transmitDatagram 0 portIndex frame) := by
  have length := transmitDatagram_length 0 portIndex frame
  rw [reinject_eq _ (by omega) (by omega)]
  have port : netWord (netHigh portIndex) (netLow portIndex) = portIndex :=
    netWord_high_low portIndex
  change some (transmitDatagram 0 (netWord (netHigh portIndex) (netLow portIndex)) frame) = _
  rw [port]

/-- The header of a sent datagram parses to the port and direction it was sent with. -/
theorem receivePacket_transmitDatagram (sandboxId portIndex : UInt16) (frame : Str)
    (nonempty : 0 < frame.length) :
    (receivePacket (transmitDatagram sandboxId portIndex frame)).portIndex = portIndex ∧
      (receivePacket (transmitDatagram sandboxId portIndex frame)).pktDir = .transmit := by
  have length := transmitDatagram_length sandboxId portIndex frame
  constructor
  · rw [receivePacket_portIndex _ (by omega)]
    exact netWord_high_low portIndex
  · rw [receivePacket_pktDir _ (by omega)]
    have set : ((0x08 : UInt8) &&& 0x08) >>> 3 ≠ 0 := by decide
    exact if_neg set

/-- The round trip of a punted datagram: what is sent, that sending it once more
changes nothing, and that its header parses to the port and direction sent. -/
theorem punt_inject_round_trip (d : Str) (long : 8 < d.length) (fits : d.length ≤ 2000) :
    ∃ payload pkt, handlePacketFromDevice d = some payload ∧ Accepted payload ∧
      sendPacketOut payload = .ok (some pkt) ∧
      pkt.datagram = [0x08, 0, netHigh (UInt16.ofNat d.length),
        netLow (UInt16.ofNat d.length), 0, 0, d[6], d[7]] ++ d.drop 8 ∧
      reinject pkt.datagram = some pkt.datagram ∧
      (receivePacket pkt.datagram).portIndex = pkt.portIndex ∧
      (receivePacket pkt.datagram).pktDir = pkt.pktDir ∧ pkt.pktDir = .transmit := by
  have frame : (d.drop 8).length = d.length - 8 := List.length_drop
  have wire := transmitPacket_datagram 0 (netWord d[6] d[7]) (d.drop 8) (by omega)
  have parsed := receivePacket_transmitDatagram 0 (netWord d[6] d[7]) (d.drop 8) (by omega)
  refine ⟨_, _, handlePacketFromDevice_eq d long fits, cpuHeader_accepted _ _ (by omega),
    sendPacketOut_cpuHeader _ _ (by omega) (by omega), ?_, ?_, ?_, ?_, rfl⟩
  · have total : 8 + (d.drop 8).length = d.length := by omega
    rw [wire, transmitDatagram, total, netHigh_netWord, netLow_netWord]
    rfl
  · rw [wire]
    exact reinject_transmitDatagram _ _ (by omega) (by omega)
  · rw [wire]
    exact parsed.1
  · rw [wire]
    exact parsed.2

theorem punt_inject_round_trip_ten :
    let d : Str := [0x00, 0x11, 0x00, 0x0A, 0x00, 0x07, 0x01, 0x02, 0xAA, 0xBB]
    ∃ payload pkt, handlePacketFromDevice d = some payload ∧ Accepted payload ∧
      sendPacketOut payload = .ok (some pkt) ∧
      pkt.datagram = [0x08, 0, netHigh (UInt16.ofNat d.length),
        netLow (UInt16.ofNat d.length), 0, 0, 0x01, 0x02] ++ d.drop 8 ∧
      reinject pkt.datagram = some pkt.datagram ∧
      (receivePacket pkt.datagram).portIndex = pkt.portIndex ∧
      (receivePacket pkt.datagram).pktDir = pkt.pktDir ∧ pkt.pktDir = .transmit :=
  punt_inject_round_trip [0x00, 0x11, 0x00, 0x0A, 0x00, 0x07, 0x01, 0x02, 0xAA, 0xBB]
    (by decide) (by decide)

end JP4Agent.Hostpath
