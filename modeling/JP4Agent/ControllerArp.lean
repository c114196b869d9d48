import JP4Agent.ControllerPackets
import JP4Agent.Library.Segments

set_option autoImplicit false

namespace JP4Agent.Controller
open Hostpath StreamChannel

/-- `interface_t`. -/
structure Interface where
  port : UInt16
  ipAddr : Str
  macAddr : Str
  ipAddr_length : ipAddr.length = 4
  macAddr_length : macAddr.length = 6

/-- The static configuration: ge-0.0.2-vmx1 and ge-0.0.3-vmx1. -/
def intfs : List Interface :=
  [⟨0, [103, 30, 120, 1], [0xfe, 0x26, 0x0a, 0x2e, 0xaa, 0xf2], rfl, rfl⟩,
    ⟨1, [103, 30, 130, 1], [0xfe, 0x26, 0x0a, 0x2e, 0xaa, 0xf3], rfl, rfl⟩]

/-- The CPU header, the Ethernet header and `ether_arp`. -/
abbrev arpPktLen : Nat := cpuHdrSz + 14 + 28

/-- The bytes of `htons`. -/
def netBytes (v : UInt16) : Str := [netHigh v, netLow v]

abbrev etherTypeArp : UInt16 := 0x0806
abbrev etherTypeIp : UInt16 := 0x0800
abbrev arpOpRequest : UInt16 := 1
abbrev arpOpReply : UInt16 := 2

/-- The reply, written into a string of zeros. -/
def arpReply (intf : Interface) (recvdPkt : Str) : Str :=
  let sha := loadAt recvdPkt 34 6
  let arpReply := List.replicate arpPktLen 0
  -- the CPU header, with the reason `ArpMsg`
  let arpReply := storeAt arpReply 8 (netBytes 1)
  let arpReply := storeAt arpReply 10 (netBytes intf.port)
  -- Ethernet
  let arpReply := storeAt arpReply 12 sha
  let arpReply := storeAt arpReply 18 intf.macAddr
  let arpReply := storeAt arpReply 24 (netBytes etherTypeArp)
  -- ARP
  let arpReply := storeAt arpReply 26 (netBytes 1)
  let arpReply := storeAt arpReply 28 (netBytes etherTypeIp)
  let arpReply := storeAt arpReply 30 [6]
  let arpReply := storeAt arpReply 31 [4]
  let arpReply := storeAt arpReply 32 (netBytes arpOpReply)
  let arpReply := storeAt arpReply 34 intf.macAddr
  let arpReply := storeAt arpReply 40 intf.ipAddr
  let arpReply := storeAt arpReply 44 sha
  storeAt arpReply 50 (loadAt recvdPkt 40 4)

/-- The packet sent; `none` if it returns false. -/
def handleArpReq (intfs : List Interface) (response : StreamMessageResponse) : Option Str :=
  match packetPayload response with
  | none => none
  | some recvdPkt =>
    if recvdPkt.length < arpPktLen ∨ recvdPkt.take 8 ≠ List.replicate 8 0 then none
    else if netWord (recvdPkt.getD 24 0) (recvdPkt.getD 25 0) ≠ etherTypeArp ∨
        netWord (recvdPkt.getD 32 0) (recvdPkt.getD 33 0) ≠ arpOpRequest then none
    else
      (intfs.find? fun intf => intf.ipAddr = loadAt recvdPkt 50 4).map fun intf =>
        arpReply intf recvdPkt

def controllerHandleArpReq : StreamMessageResponse → Option Str := handleArpReq intfs

/-- An ARP packet for IPv4 over Ethernet. -/
structure ArpPacket where
  dhost : Str
  shost : Str
  op : UInt16
  sha : Str
  spa : Str
  tha : Str
  tpa : Str

def ArpPacket.frame (p : ArpPacket) : Str :=
  p.dhost ++ (p.shost ++ (netBytes etherTypeArp ++ (netBytes 1 ++ (netBytes etherTypeIp ++
    ([6] ++ ([4] ++ (netBytes p.op ++ (p.sha ++ (p.spa ++ (p.tha ++ p.tpa))))))))))

/-- The interface tells the sender of the request its address. -/
def replyPacket (intf : Interface) (request : Str) : ArpPacket where
  dhost := loadAt request 22 6
  shost := intf.macAddr
  op := arpOpReply
  sha := intf.macAddr
  spa := intf.ipAddr
  tha := loadAt request 22 6
  tpa := loadAt request 28 4

theorem netBytes_length (v : UInt16) : (netBytes v).length = 2 := rfl

theorem arpReply_eq (intf : Interface) {cpuHdr frame : Str} (hdr : cpuHdr.length = 12)
    (long : 42 ≤ frame.length) :
    arpReply intf (cpuHdr ++ frame) =
      List.replicate 8 0 ++ (netBytes 1 ++ (netBytes intf.port ++
        (replyPacket intf frame).frame)) := by
  have sha : loadAt (cpuHdr ++ frame) 34 6 = loadAt frame 22 6 := by
    rw [loadAt_skip _ (by omega), hdr]
  have spa : loadAt (cpuHdr ++ frame) 40 4 = loadAt frame 28 4 := by
    rw [loadAt_skip _ (by omega), hdr]
  have shaLength : (loadAt frame 22 6).length = 6 := loadAt_length (by omega)
  have spaLength : (loadAt frame 28 4).length = 4 := loadAt_length (by omega)
  have mac := intf.macAddr_length
  have ip := intf.ipAddr_length
  have word : ∀ v, (netBytes v).length = 2 := netBytes_length
  have blank (n : Nat) : (List.replicate n (0 : UInt8)).length = n := List.length_replicate
  have pieces : List.replicate arpPktLen (0 : UInt8) =
      .replicate 8 0 ++ (.replicate 2 0 ++ (.replicate 2 0 ++ (.replicate 6 0 ++ (.replicate 6 0 ++
        (.replicate 2 0 ++ (.replicate 2 0 ++ (.replicate 2 0 ++ (.replicate 1 0 ++
          (.replicate 1 0 ++ (.replicate 2 0 ++ (.replicate 6 0 ++ (.replicate 4 0 ++
            (.replicate 6 0 ++ .replicate 4 0))))))))))))) := rfl
  rw [arpReply, sha, spa, pieces]
  simp (disch := simp [*]) only [storeAt_skip, storeAt_front, storeAt_whole, blank, word, mac,
    shaLength, ip, List.length_singleton, Nat.reduceSub]
  rfl

/-- A frame with an ARP request. -/
def ArpRequest (frame : Str) : Prop :=
  42 ≤ frame.length ∧ netWord (frame.getD 12 0) (frame.getD 13 0) = etherTypeArp ∧
    netWord (frame.getD 20 0) (frame.getD 21 0) = arpOpRequest

instance (frame : Str) : Decidable (ArpRequest frame) := inferInstanceAs (Decidable (_ ∧ _))

/-- The interface that a frame asks for. -/
def asked (intfs : List Interface) (frame : Str) : Option Interface :=
  if ArpRequest frame then intfs.find? fun intf => intf.ipAddr = loadAt frame 38 4 else none

theorem handleArpReq_eq (intfs : List Interface) (port : UInt16) (frame : Str) :
    handleArpReq intfs (.packet ((cpuHeader port).bytes ++ frame)) =
      (asked intfs frame).map fun intf => arpReply intf ((cpuHeader port).bytes ++ frame) := by
  have hdr : (cpuHeader port).bytes.length = 12 := rfl
  have target : loadAt ((cpuHeader port).bytes ++ frame) 50 4 = loadAt frame 38 4 := by
    rw [loadAt_skip _ (by omega), hdr]
  have short : ((cpuHeader port).bytes ++ frame).length < arpPktLen ↔ ¬ 42 ≤ frame.length := by
    rw [List.length_append, hdr]
    show 12 + frame.length < 54 ↔ _
    omega
  have zeros : ((cpuHeader port).bytes ++ frame).take 8 = List.replicate 8 0 := rfl
  have fields : ArpRequest frame ↔ 42 ≤ frame.length ∧
      ¬ (netWord (((cpuHeader port).bytes ++ frame).getD 24 0)
          (((cpuHeader port).bytes ++ frame).getD 25 0) ≠ etherTypeArp ∨
        netWord (((cpuHeader port).bytes ++ frame).getD 32 0)
          (((cpuHeader port).bytes ++ frame).getD 33 0) ≠ arpOpRequest) := by
    rw [not_or, not_not, not_not]
    rfl
  rw [handleArpReq, packetPayload, asked]
  dsimp only
  by_cases long : 42 ≤ frame.length
  · rw [if_neg (by rw [short, zeros]; simp [long]), target]
    by_cases request : ArpRequest frame
    · rw [if_neg (fields.mp request).2, if_pos request]
    · rw [if_pos (by by_contra other; exact request (fields.mpr ⟨long, other⟩)), if_neg request,
        Option.map_none]
  · rw [if_pos (Or.inl (short.mpr long)), if_neg (fun request => long request.1), Option.map_none]

section
variable (intf : Interface) {frame : Str} (long : 42 ≤ frame.length)
include long

theorem replyPacket_length : (replyPacket intf frame).frame.length = 42 := by
  have sha : (loadAt frame 22 6).length = 6 := loadAt_length (by omega)
  have spa : (loadAt frame 28 4).length = 4 := loadAt_length (by omega)
  simp only [ArpPacket.frame, replyPacket, List.length_append, sha, spa, netBytes_length,
    intf.macAddr_length, intf.ipAddr_length, List.length_singleton]

/-- A reply is not taken for a request. -/
theorem replyPacket_not_request : ¬ ArpRequest (replyPacket intf frame).frame := by
  have sha : (loadAt frame 22 6).length = 6 := loadAt_length (by omega)
  have op : netWord ((replyPacket intf frame).frame.getD 20 0)
      ((replyPacket intf frame).frame.getD 21 0) = arpOpReply := by
    simp (disch := simp [*, intf.macAddr_length]) only [ArpPacket.frame, replyPacket,
      List.getD_append_right, sha, intf.macAddr_length, Nat.reduceSub]
    exact netWord_high_low arpOpReply
  intro request
  rw [ArpRequest, op] at request
  exact absurd request.2.2 (by decide)

end

/-- Who asks for an address of the controller gets it, on the port of that interface, in a
frame that nobody answers. Nothing else is answered. -/
theorem arp_answered (intfs : List Interface) (fromDevice payload : Str)
    (punted : handlePacketFromDevice fromDevice = some payload) :
    let frame := (fromDevice.take recvBufSz).drop 8
    (asked intfs frame = none → handleArpReq intfs (.packet payload) = none) ∧
      ∀ intf, asked intfs frame = some intf →
        ∃ reply pkt, handleArpReq intfs (.packet payload) = some reply ∧
          sendPacketOut reply = .ok (some pkt) ∧
          pkt.datagram = DeviceHPPacket.transmitDatagram 0 intf.port
            (replyPacket intf frame).frame ∧
          ∀ others, asked others (replyPacket intf frame).frame = none := by
  intro frame
  by_cases short : fromDevice.length ≤ 8
  · rw [handlePacketFromDevice_dropped short] at punted
    cases punted
  have payloadOf := handlePacketFromDevice_punted (d := fromDevice) (by omega)
  rw [punted, Option.some.injEq] at payloadOf
  rw [payloadOf, handleArpReq_eq]
  generalize netWord (fromDevice.getD 6 0) (fromDevice.getD 7 0) = ingressPort
  constructor
  · intro nobody
    rw [nobody, Option.map_none]
  · intro intf owner
    have request : ArpRequest frame := by
      by_contra other
      rw [asked, if_neg other] at owner
      cases owner
    have long := request.1
    have reply := arpReply_eq intf (show (cpuHeader ingressPort).bytes.length = 12 from rfl) long
    have length := replyPacket_length intf long
    have size : (arpReply intf ((cpuHeader ingressPort).bytes ++ frame)).length = 54 := by
      rw [reply, List.length_append, List.length_append, List.length_append, length]
      rfl
    have accepted : Accepted (arpReply intf ((cpuHeader ingressPort).bytes ++ frame)) :=
      ⟨by rw [size]; decide, by rw [reply]; rfl⟩
    have sent := sendPacketOut_eq accepted (by omega)
    have port : netWord ((arpReply intf ((cpuHeader ingressPort).bytes ++ frame)).getD 10 0)
        ((arpReply intf ((cpuHeader ingressPort).bytes ++ frame)).getD 11 0) = intf.port := by
      rw [reply]
      exact netWord_high_low intf.port
    have body : (arpReply intf ((cpuHeader ingressPort).bytes ++ frame)).drop cpuHdrSz =
        (replyPacket intf frame).frame := by
      rw [reply]
      rfl
    rw [port, body] at sent
    have datagram := DeviceHPPacket.transmitPacket_datagram 0 intf.port
      (replyPacket intf frame).frame (by omega)
    refine ⟨_, _, by rw [owner, Option.map_some], sent, datagram, fun others => ?_⟩
    rw [asked, if_neg (replyPacket_not_request intf long)]

/-- A host asks on port 3 for the first address of the controller. -/
theorem arp_answered_host :
    let request : ArpPacket := ⟨List.replicate 6 0xFF, [2, 0, 0, 0, 0, 9], arpOpRequest,
      [2, 0, 0, 0, 0, 9], [103, 30, 120, 7], List.replicate 6 0, [103, 30, 120, 1]⟩
    let fromDevice := [0, 0, 0, 0x32, 0, 0, 0, 3] ++ request.frame
    ∃ payload reply pkt, handlePacketFromDevice fromDevice = some payload ∧
      controllerHandleArpReq (.packet payload) = some reply ∧
      sendPacketOut reply = .ok (some pkt) ∧
      pkt.datagram = DeviceHPPacket.transmitDatagram 0 0
        (ArpPacket.frame ⟨[2, 0, 0, 0, 0, 9], [0xfe, 0x26, 0x0a, 0x2e, 0xaa, 0xf2], arpOpReply,
          [0xfe, 0x26, 0x0a, 0x2e, 0xaa, 0xf2], [103, 30, 120, 1], [2, 0, 0, 0, 0, 9],
          [103, 30, 120, 7]⟩) := by
  intro request fromDevice
  have punted := handlePacketFromDevice_punted (d := fromDevice) (by decide)
  have framed : (fromDevice.take recvBufSz).drop 8 = request.frame := by decide
  have owner : asked intfs request.frame =
      some ⟨0, [103, 30, 120, 1], [0xfe, 0x26, 0x0a, 0x2e, 0xaa, 0xf2], rfl, rfl⟩ := by
    have target : loadAt request.frame 38 4 = [103, 30, 120, 1] := by decide
    rw [asked, if_pos (by decide), target]
    rfl
  rw [← framed] at owner
  obtain ⟨reply, pkt, answer, sent, datagram, -⟩ :=
    (arp_answered intfs fromDevice _ punted).2 _ owner
  rw [framed] at datagram
  exact ⟨_, reply, pkt, punted, answer, sent, datagram⟩

end JP4Agent.Controller
