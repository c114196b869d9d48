import JP4Agent.HostpathTransmit

set_option autoImplicit false

/- The length of a PacketOut payload is a `size_t`, then an `int`, then a
`uint16_t`. This file says for which lengths nothing is lost on the way. -/
namespace JP4Agent.Hostpath
open DeviceHPPacket

/-- The arithmetic of the transmit path did not wrap for this payload. -/
structure LengthsFit (payload : Str) (pkt : DeviceHPPacket) : Prop where
  total : pkt.totalLength.toNat = 8 + (payload.length - 12)
  allocated : pkt.pktDataBuffer.size = 8 + (payload.length - 12)
  inBounds : ∀ offset ∈ pkt.pktDataBuffer.stored, offset < pkt.pktDataBuffer.size
  field : pkt.totalLengthField.toNat = pkt.datagram.length

/-- A frame of at most 65527 bytes leaves room for the header in 16 bits. -/
theorem transmitPacket_lengthsFit (sandboxId portIndex : UInt16) (payload : Str)
    (fits : payload.length - 12 ≤ 65527) :
    LengthsFit payload (transmitPacket sandboxId portIndex (payload.drop cpuHdrSz)) := by
  have frame : (payload.drop cpuHdrSz).length = payload.length - 12 := List.length_drop
  have total := transmitPacket_totalLength sandboxId portIndex (payload.drop cpuHdrSz) (by omega)
  have allocated := transmitPacket_allocated sandboxId portIndex (payload.drop cpuHdrSz)
  refine ⟨by rw [total, frame], by rw [allocated, total, frame], ?_, ?_⟩
  · intro offset stored
    rw [allocated, total]
    exact (mem_transmitPacket_stored _ _ _ offset).mp stored
  · rw [transmitPacket_totalLengthField, datagram, HeapBuffer.load_length, size]

/-- The lengths of the datagram built for an accepted payload are right exactly
when header and frame together stay below `2 ^ 16` bytes. -/
theorem sendPacketOut_lengths_fit_iff (payload : Str) (accepted : Accepted payload) :
    (∃ pkt, sendPacketOut payload = .ok (some pkt) ∧ LengthsFit payload pkt) ↔
      8 + (payload.length - 12) < 65536 := by
  constructor
  · rintro ⟨pkt, _, fit⟩
    have word := pkt.totalLength.toNat_lt
    rw [fit.total] at word
    exact word
  · intro fits
    exact ⟨_, sendPacketOut_eq accepted (by omega),
      transmitPacket_lengthsFit _ _ payload (by omega)⟩

theorem sendPacketOut_lengths_fit_iff_ping :
    Accepted (List.replicate 112 0) ∧
      ((∃ pkt, sendPacketOut (List.replicate 112 0) = .ok (some pkt) ∧
        LengthsFit (List.replicate 112 0) pkt) ↔
          8 + ((List.replicate 112 (0 : UInt8)).length - 12) < 65536) :=
  ⟨by decide, sendPacketOut_lengths_fit_iff _ (by decide)⟩

/-- The shortest payload of zero bytes for which the 16-bit sum wraps: the
buffer it gets has no bytes at all. -/
theorem sendPacketOut_lengths_wrap :
    ¬ ∀ payload : Str, Accepted payload →
      ∃ pkt, sendPacketOut payload = .ok (some pkt) ∧ LengthsFit payload pkt := by
  intro all
  have accepted : Accepted (List.replicate 65540 0) := by
    refine ⟨by rw [List.length_replicate]; decide, ?_⟩
    rw [List.take_replicate]
    rfl
  obtain ⟨pkt, _, fit⟩ := all _ accepted
  have word := pkt.totalLength.toNat_lt
  rw [fit.total, List.length_replicate] at word
  exact absurd word (by decide)

end JP4Agent.Hostpath
