import JP4Agent.DeviceHPPacket

set_option autoImplicit false

/- The UDP host path: datagrams from the device become PacketIn payloads behind a
12-byte CPU header, PacketOut payloads become datagrams to the device. -/
namespace JP4Agent.Hostpath

/-- `cpu_header_t`, packed; the port is kept in network byte order. -/
structure CpuHeader where
  zeros : Str
  reason : UInt8 × UInt8
  port : UInt8 × UInt8

abbrev cpuHdrSz : Nat := 12

def CpuHeader.bytes (hdr : CpuHeader) : Str :=
  hdr.zeros ++ [hdr.reason.1, hdr.reason.2, hdr.port.1, hdr.port.2]

/-- `memset(&cpu_hdr, 0, cpu_hdr_sz)`, then the port. -/
def cpuHeader (portIndex : UInt16) : CpuHeader :=
  ⟨List.replicate 8 0, (0, 0), (netHigh portIndex, netLow portIndex)⟩

/-- `receive_from` a buffer of this size keeps no more bytes. -/
abbrev recvBufSz : Nat := 2000

/-- The packet `handlePacketFromDevice` makes from the bytes it received. -/
def receivePacket (buf : Str) : DeviceHPPacket :=
  ((DeviceHPPacket.createReceive (UInt16.ofNat (buf.length - DeviceHPPacket.headerSize))).fillHeader
    buf).headerParse

/-- The payload handed to `send_pkt_in`, if the datagram is not dropped. -/
def handlePacketFromDevice (fromDevice : Str) : Option Str :=
  let buf := fromDevice.take recvBufSz
  let recvlen := buf.length
  if recvlen = 0 then none
  else if recvlen ≤ DeviceHPPacket.headerSize then none
  else
    let pkt := receivePacket buf
    let payloadLen := pkt.dataSize.toNat
    some ((cpuHeader pkt.portIndex).bytes ++
      pkt.pktDataBuffer.load DeviceHPPacket.headerSize payloadLen)

/-- A `memcpy` whose `int` length was negative and became a huge `size_t`. -/
inductive Fault where
  | wildCopy
  deriving DecidableEq, Repr

/-- The packet that is traced and handed to `send_to` (see `ReachesSendTo`). `createTransmit`
takes the length as a `uint16_t`, the copy takes the whole `int`. -/
def injectL2Packet (sandboxId portIndex : UInt16) (l2Packet : Str) (l2PacketLen : Int) :
    Except Fault DeviceHPPacket :=
  let pkt := DeviceHPPacket.createTransmit (UInt16.ofInt l2PacketLen) sandboxId portIndex .l2
  if l2PacketLen < 0 then .error .wildCopy
  else .ok (pkt.fillData (l2Packet.take l2PacketLen.toNat))

def Accepted (pkt : Str) : Prop :=
  cpuHdrSz < pkt.length ∧ pkt.take 8 = List.replicate 8 0

instance (pkt : Str) : Decidable (Accepted pkt) := inferInstanceAs (Decidable (_ ∧ _))

/-- `none` is a malformed packet, for which nothing is sent. -/
def sendPacketOut (pkt : Str) : Except Fault (Option DeviceHPPacket) :=
  if Accepted pkt then
    let egressPort := netWord (pkt.getD 10 0) (pkt.getD 11 0)
    (injectL2Packet 0 egressPort (pkt.drop cpuHdrSz) (toInt32 (pkt.length - cpuHdrSz))).map some
  else .ok none

end JP4Agent.Hostpath
