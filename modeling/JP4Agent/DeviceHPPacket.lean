import JP4Agent.Library.HeapBuffer

set_option autoImplicit false

/- The hostpath packet: an 8-byte header followed by the inner layer 2 packet,
kept in one heap buffer. -/
namespace JP4Agent

inductive PacketDir where
  | receive
  | transmit
  deriving DecidableEq, Repr

inductive PacketType where
  | l2
  | l3
  deriving DecidableEq, Repr

structure DeviceHPPacket where
  totalLength : UInt16 := 1500
  sandboxId : UInt16 := 0
  portIndex : UInt16 := 0
  pktDir : PacketDir := .receive
  innerPktType : PacketType := .l2
  pktDataBuffer : HeapBuffer

namespace DeviceHPPacket

abbrev headerSize : Nat := 8

/-- `uint8_t version`, shifted into the high nibble. -/
def versionBits (version : UInt8) : UInt8 := version <<< 4 &&& 0xF0

/-- `uint8_t direction`, shifted into bit 3. -/
def directionBits (direction : UInt8) : UInt8 := direction <<< 3 &&& 0x08

def headerSerialize (pkt : DeviceHPPacket) : DeviceHPPacket :=
  let version : UInt8 := 0
  let direction : UInt8 := 1
  let hdr := pkt.pktDataBuffer
  let hdr := hdr.modify 0 (· &&& 0x0F)
  let hdr := hdr.modify 0 (· ||| versionBits version)
  let hdr := hdr.modify 0 (· &&& 0xF7)
  let hdr := hdr.modify 0 (· ||| directionBits direction)
  let hdr := hdr.store 1 0
  let hdr := hdr.storeBytes 2 [netHigh pkt.totalLength, netLow pkt.totalLength]
  let hdr := hdr.storeBytes 4 [netHigh pkt.sandboxId, netLow pkt.sandboxId]
  let hdr := hdr.storeBytes 6 [netHigh pkt.portIndex, netLow pkt.portIndex]
  { pkt with pktDataBuffer := hdr }

/-- The Total Length field is read by the source and not used. -/
def headerParse (pkt : DeviceHPPacket) : DeviceHPPacket :=
  let hdr := pkt.pktDataBuffer
  let direction := (hdr.cells 0 &&& 0x08) >>> 3
  { pkt with
    sandboxId := netWord (hdr.cells 4) (hdr.cells 5)
    portIndex := netWord (hdr.cells 6) (hdr.cells 7)
    pktDir := if direction = 0 then .receive else .transmit
    innerPktType := .l2 }

/-- `8 + dataSize` is an `int`; the assignment to `_totalLength` keeps 16 bits. -/
def createTransmit (dataSize sandboxId portIndex : UInt16) (packetType : PacketType) :
    DeviceHPPacket :=
  let totalLength := 8 + dataSize
  headerSerialize
    { totalLength := totalLength
      sandboxId := sandboxId
      portIndex := portIndex
      pktDir := .transmit
      innerPktType := packetType
      pktDataBuffer := HeapBuffer.alloc totalLength.toNat }

def createReceive (dataSize : UInt16) : DeviceHPPacket :=
  let totalLength := 8 + dataSize
  { totalLength := totalLength
    pktDir := .receive
    pktDataBuffer := HeapBuffer.alloc totalLength.toNat }

def dataSize (pkt : DeviceHPPacket) : Int := pkt.totalLength.toNat - 8

def size (pkt : DeviceHPPacket) : Nat := pkt.totalLength.toNat

/-- `std::copy_n` to `header()`. -/
def fillHeader (pkt : DeviceHPPacket) (bytes : Str) : DeviceHPPacket :=
  { pkt with pktDataBuffer := pkt.pktDataBuffer.storeBytes 0 bytes }

/-- `memcpy` to `data()`, the bytes after the header. -/
def fillData (pkt : DeviceHPPacket) (bytes : Str) : DeviceHPPacket :=
  { pkt with pktDataBuffer := pkt.pktDataBuffer.storeBytes headerSize bytes }

/-- `size()` bytes from `header()`. -/
def datagram (pkt : DeviceHPPacket) : Str := pkt.pktDataBuffer.load 0 pkt.size

/-- The Total Length field of the header. -/
def totalLengthField (pkt : DeviceHPPacket) : UInt16 :=
  netWord (pkt.pktDataBuffer.cells 2) (pkt.pktDataBuffer.cells 3)

theorem headerSerialize_size (pkt : DeviceHPPacket) :
    pkt.headerSerialize.pktDataBuffer.size = pkt.pktDataBuffer.size := by
  simp only [headerSerialize, HeapBuffer.storeBytes_size, HeapBuffer.store_size,
    HeapBuffer.modify_size]

@[simp] theorem headerSerialize_totalLength (pkt : DeviceHPPacket) :
    pkt.headerSerialize.totalLength = pkt.totalLength := rfl

theorem mem_headerSerialize_stored (pkt : DeviceHPPacket) (i : Nat) :
    i ∈ pkt.headerSerialize.pktDataBuffer.stored ↔ i < 8 ∨ i ∈ pkt.pktDataBuffer.stored := by
  simp only [headerSerialize, HeapBuffer.mem_storeBytes_stored, HeapBuffer.store_stored,
    HeapBuffer.modify_stored, List.mem_cons, List.length_cons, List.length_nil]
  by_cases old : i ∈ pkt.pktDataBuffer.stored
  · simp only [old, or_true]
  · simp only [old, or_false]
    omega

/-- Bits 4 to 7 and bit 3 of the first byte are overwritten, bits 0 to 2 are kept. -/
theorem headerSerialize_first (pkt : DeviceHPPacket) :
    pkt.headerSerialize.pktDataBuffer.cells 0 =
      ((pkt.pktDataBuffer.cells 0 &&& 0x0F ||| versionBits 0) &&& 0xF7) ||| directionBits 1 := rfl

/-- The header of a packet for transmission; its buffer starts out zeroed. -/
theorem createTransmit_header (dataSize sandboxId portIndex : UInt16) (packetType : PacketType) :
    (createTransmit dataSize sandboxId portIndex packetType).pktDataBuffer.load 0 headerSize =
      [0x08, 0, netHigh (8 + dataSize), netLow (8 + dataSize), netHigh sandboxId,
        netLow sandboxId, netHigh portIndex, netLow portIndex] := by
  have first : ((0 &&& 0x0F ||| versionBits 0) &&& 0xF7) ||| directionBits 1 = (0x08 : UInt8) := by
    decide
  rw [← first]
  rfl

/-- Parsing a serialized header gives back the fields it was made from. -/
theorem headerParse_headerSerialize (pkt : DeviceHPPacket) :
    pkt.headerSerialize.headerParse.sandboxId = pkt.sandboxId ∧
      pkt.headerSerialize.headerParse.portIndex = pkt.portIndex ∧
      pkt.headerSerialize.headerParse.pktDir = .transmit ∧
      pkt.headerSerialize.totalLengthField = pkt.totalLength := by
  refine ⟨netWord_high_low pkt.sandboxId, netWord_high_low pkt.portIndex, ?_,
    netWord_high_low pkt.totalLength⟩
  have set : (pkt.headerSerialize.pktDataBuffer.cells 0 &&& 0x08) >>> 3 = 1 := by
    rw [headerSerialize_first]
    generalize pkt.pktDataBuffer.cells 0 = old
    revert old
    decide +kernel
  simp only [headerParse, set]
  rfl

end DeviceHPPacket
end JP4Agent
