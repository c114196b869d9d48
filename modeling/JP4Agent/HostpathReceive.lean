import JP4Agent.HostpathRoundTrip

set_option autoImplicit false

namespace JP4Agent.Hostpath
open DeviceHPPacket

/-- "Total length of packet including header", as the sender wrote it. -/
def declaredLength (fromDevice : Str) : Nat :=
  (netWord (fromDevice.getD 2 0) (fromDevice.getD 3 0)).toNat

/-- The datagram is dropped, or the bytes after the CPU header are those after its own. -/
def Intact (fromDevice : Str) : Prop :=
  ∀ payload, handlePacketFromDevice fromDevice = some payload →
    payload.drop cpuHdrSz = fromDevice.drop headerSize

theorem handlePacketFromDevice_take (d : Str) :
    handlePacketFromDevice (d.take recvBufSz) = handlePacketFromDevice d := by
  unfold handlePacketFromDevice
  simp only [List.take_take, Nat.min_self]

theorem cpuHeader_bytes_length (portIndex : UInt16) :
    (cpuHeader portIndex).bytes.length = cpuHdrSz := rfl

theorem handlePacketFromDevice_payload (d : Str) (long : 8 < d.length) :
    ∃ payload, handlePacketFromDevice d = some payload ∧
      payload.drop cpuHdrSz = (d.take recvBufSz).drop headerSize := by
  have received : 8 < (d.take recvBufSz).length := by
    rw [List.length_take, recvBufSz]
    omega
  have bounded : (d.take recvBufSz).length ≤ 2000 := List.length_take_le _ _
  have payload := handlePacketFromDevice_eq (d.take recvBufSz) received bounded
  rw [handlePacketFromDevice_take] at payload
  exact ⟨_, payload, List.drop_left' (cpuHeader_bytes_length _)⟩

theorem length_le_of_intact {d : Str} (intact : Intact d) : d.length ≤ recvBufSz := by
  unfold recvBufSz
  by_cases short : d.length ≤ 8
  · omega
  · obtain ⟨payload, received, frame⟩ := handlePacketFromDevice_payload d (by omega)
    have whole := congrArg List.length (frame.symm.trans (intact payload received))
    simp only [List.length_drop, List.length_take, recvBufSz, headerSize] at whole
    omega

/-- Whatever length it declares, a datagram arrives whole or not at all exactly if it
fits into the receive buffer. -/
theorem datagram_intact_iff (d : Str) : Intact d ↔ d.length ≤ recvBufSz := by
  constructor
  · exact length_le_of_intact
  · intro fits payload received
    have whole : d.take recvBufSz = d := List.take_of_length_le fits
    by_cases short : d.length ≤ 8
    · unfold handlePacketFromDevice at received
      simp [whole, short, headerSize] at received
    · obtain ⟨payload', received', frame⟩ := handlePacketFromDevice_payload d (by omega)
      have same : payload = payload' := Option.some.inj (received.symm.trans received')
      rw [same, frame, whole]

/-- A frame of 2001 bytes, header included, with the length the header declares. -/
def jumbo : Str := [0, 0, 0x07, 0xD1, 0, 0, 0, 1] ++ List.replicate 1993 0xAA

theorem jumbo_truncated : ¬ ∀ d : Str, declaredLength d = d.length → Intact d := by
  intro all
  have length : jumbo.length = 2001 := by
    rw [jumbo, List.length_append, List.length_replicate]
    rfl
  have declared : declaredLength jumbo = jumbo.length := by
    rw [length]
    rfl
  have fits := length_le_of_intact (all jumbo declared)
  rw [length] at fits
  exact absurd fits (by decide)

end JP4Agent.Hostpath
