import JP4Agent.GetHex
import JP4Agent.Hostpath

set_option autoImplicit false

namespace JP4Agent

namespace DeviceHPPacket

/-- The packet `injectL2Packet` builds when nothing is truncated. -/
def transmitPacket (sandboxId portIndex : UInt16) (l2Packet : Str) : DeviceHPPacket :=
  (createTransmit (UInt16.ofNat l2Packet.length) sandboxId portIndex .l2).fillData l2Packet

section
variable (sandboxId portIndex : UInt16) (l2Packet : Str)

theorem transmitPacket_totalLength (fits : l2Packet.length ≤ 65527) :
    (transmitPacket sandboxId portIndex l2Packet).totalLength.toNat = 8 + l2Packet.length := by
  change (8 + UInt16.ofNat l2Packet.length).toNat = _
  rw [UInt16.toNat_add, UInt16.toNat_ofNat']
  change (8 + l2Packet.length % 65536) % 65536 = _
  omega

/-- The allocation has the size of the 16-bit sum, fitting or not. -/
theorem transmitPacket_allocated :
    (transmitPacket sandboxId portIndex l2Packet).pktDataBuffer.size =
      (transmitPacket sandboxId portIndex l2Packet).totalLength.toNat := by
  simp only [transmitPacket, fillData, createTransmit, HeapBuffer.storeBytes_size,
    headerSerialize_size, HeapBuffer.alloc_size, headerSerialize_totalLength]

/-- The stores are those of the header and of the copied frame. -/
theorem mem_transmitPacket_stored (offset : Nat) :
    offset ∈ (transmitPacket sandboxId portIndex l2Packet).pktDataBuffer.stored ↔
      offset < 8 + l2Packet.length := by
  simp only [transmitPacket, fillData, createTransmit, HeapBuffer.mem_storeBytes_stored,
    mem_headerSerialize_stored, HeapBuffer.alloc_stored, List.not_mem_nil, or_false, headerSize]
  omega

/-- Filling the data leaves every header byte as `createTransmit` wrote it. -/
theorem transmitPacket_header (offset : Nat) (header : offset < 8) :
    (transmitPacket sandboxId portIndex l2Packet).pktDataBuffer.cells offset =
      (createTransmit (UInt16.ofNat l2Packet.length) sandboxId portIndex
        .l2).pktDataBuffer.cells offset :=
  HeapBuffer.storeBytes_outside _ _ _ _ (Or.inl header)

theorem transmitPacket_totalLengthField :
    (transmitPacket sandboxId portIndex l2Packet).totalLengthField =
      (transmitPacket sandboxId portIndex l2Packet).totalLength := by
  have fields := headerParse_headerSerialize
    { totalLength := 8 + UInt16.ofNat l2Packet.length
      sandboxId := sandboxId
      portIndex := portIndex
      pktDir := .transmit
      innerPktType := .l2
      pktDataBuffer := HeapBuffer.alloc (8 + UInt16.ofNat l2Packet.length).toNat }
  rw [totalLengthField, transmitPacket_header _ _ _ 2 (by decide),
    transmitPacket_header _ _ _ 3 (by decide)]
  exact fields.2.2.2

/-- What a transmitted datagram looks like on the wire. -/
def transmitDatagram (sandboxId portIndex : UInt16) (l2Packet : Str) : Str :=
  let totalLength := UInt16.ofNat (8 + l2Packet.length)
  [0x08, 0, netHigh totalLength, netLow totalLength, netHigh sandboxId, netLow sandboxId,
    netHigh portIndex, netLow portIndex] ++ l2Packet

theorem transmitDatagram_length :
    (transmitDatagram sandboxId portIndex l2Packet).length = 8 + l2Packet.length := by
  simp only [transmitDatagram, List.length_append, List.length_cons, List.length_nil]

theorem transmitPacket_datagram (fits : l2Packet.length ≤ 65527) :
    (transmitPacket sandboxId portIndex l2Packet).datagram =
      transmitDatagram sandboxId portIndex l2Packet := by
  have total := transmitPacket_totalLength sandboxId portIndex l2Packet fits
  have sum : 8 + UInt16.ofNat l2Packet.length = UInt16.ofNat (8 + l2Packet.length) := by
    rw [UInt16.ofNat_add]
    rfl
  have header := createTransmit_header (UInt16.ofNat l2Packet.length) sandboxId portIndex .l2
  rw [sum] at header
  rw [datagram, size, total, ← transmitDatagram_length sandboxId portIndex l2Packet]
  apply HeapBuffer.load_eq
  intro i inside
  rw [transmitDatagram_length] at inside
  rw [Nat.zero_add]
  by_cases within : i < 8
  · rw [transmitPacket_header _ _ _ i within]
    have cell := HeapBuffer.load_getElem (createTransmit (UInt16.ofNat l2Packet.length) sandboxId
      portIndex .l2).pktDataBuffer 0 headerSize i (by rw [HeapBuffer.load_length]; exact within)
    rw [Nat.zero_add] at cell
    rw [← cell, List.getElem_of_eq header]
    exact (List.getElem_append_left (by simpa using within)).symm
  · obtain ⟨j, rfl⟩ : ∃ j, i = 8 + j := ⟨i - 8, by omega⟩
    have copied := HeapBuffer.storeBytes_inside (createTransmit (UInt16.ofNat l2Packet.length)
      sandboxId portIndex .l2).pktDataBuffer 8 l2Packet j (by omega)
    simp only [transmitDatagram]
    rw [List.getElem_append_right (by simp)]
    simpa [transmitPacket, fillData] using copied

end
end DeviceHPPacket

namespace Hostpath
open DeviceHPPacket

/-- `injectL2Packet` comes to `send_to` with this packet: the copy stayed inside the allocation,
and so does `pktTrace` inside its array, whatever that held. -/
def ReachesSendTo (pkt : DeviceHPPacket) : Prop :=
  (∀ offset ∈ pkt.pktDataBuffer.stored, offset < pkt.pktDataBuffer.size) ∧
    ∀ dataHexStr, Utils.Bounded 10000 (Utils.pktTrace pkt.datagram dataHexStr)

instance (pkt : DeviceHPPacket) : Decidable (ReachesSendTo pkt) :=
  decidable_of_iff
    ((∀ offset ∈ pkt.pktDataBuffer.stored, offset < pkt.pktDataBuffer.size) ∧
      pkt.datagram.length ≤ 3265)
    (and_congr_right fun _ =>
      ⟨fun short dataHexStr => (Utils.bounded_pktTrace_iff _ dataHexStr).mpr short,
        fun traced => (Utils.bounded_pktTrace_iff _ _).mp (traced fun _ => 0)⟩)

/-- The frames that are sent at all. -/
theorem reachesSendTo_iff (sandboxId portIndex : UInt16) (l2Packet : Str) :
    ReachesSendTo (transmitPacket sandboxId portIndex l2Packet) ↔ l2Packet.length ≤ 3257 := by
  have total := transmitPacket_totalLength sandboxId portIndex l2Packet
  have length : (transmitPacket sandboxId portIndex l2Packet).datagram.length =
      (transmitPacket sandboxId portIndex l2Packet).totalLength.toNat :=
    HeapBuffer.load_length ..
  unfold ReachesSendTo
  simp only [Utils.bounded_pktTrace_iff, forall_const, length, transmitPacket_allocated,
    mem_transmitPacket_stored]
  constructor
  · rintro ⟨inside, traced⟩
    -- the last byte of the frame is inside the allocation
    have last := inside (7 + l2Packet.length) (by omega)
    omega
  · intro short
    rw [total (by omega)]
    exact ⟨fun offset inside => inside, by omega⟩

/-- Below 2 GiB the `int` length is the length. -/
theorem injectL2Packet_eq (sandboxId portIndex : UInt16) (l2Packet : Str)
    (small : l2Packet.length < 2147483648) :
    injectL2Packet sandboxId portIndex l2Packet (toInt32 l2Packet.length) =
      .ok (transmitPacket sandboxId portIndex l2Packet) := by
  rw [toInt32_of_lt small, injectL2Packet, if_neg (by omega)]
  simp only [transmitPacket, Int.toNat_natCast, List.take_length, uint16_ofInt_natCast]

theorem sendPacketOut_eq {pkt : Str} (accepted : Accepted pkt)
    (small : pkt.length < 2147483648) :
    sendPacketOut pkt = .ok (some (transmitPacket 0
      (netWord (pkt.getD 10 0) (pkt.getD 11 0)) (pkt.drop cpuHdrSz))) := by
  have length : pkt.length - cpuHdrSz = (pkt.drop cpuHdrSz).length := by
    rw [List.length_drop]
  rw [sendPacketOut, if_pos accepted, length]
  dsimp only
  rw [injectL2Packet_eq _ _ _ (by omega)]
  rfl

end Hostpath
end JP4Agent
