import JP4Agent.AfiMessages
import JP4Agent.Library.Proto3

set_option autoImplicit false

/- The AFI messages on the wire. Fields are written in the order of their numbers,
each in its wrapper message; a wrapper around a default value is empty. -/
namespace JP4Agent.AfiWire
open Proto3

def stringField (number : Nat) (value : Option Str) : List Field :=
  value.toList.map fun s => .bytes number (encodeFields (if s = [] then [] else [.bytes 1 s]))

def uintField (number : Nat) (value : Option UInt64) : List Field :=
  value.toList.map fun v =>
    .bytes number (encodeFields (if v = 0 then [] else [.varint 1 v.toNat]))

def boolField (number : Nat) (value : Option Bool) : List Field :=
  value.toList.map fun v => .bytes number (encodeFields (if v then [.varint 1 1] else []))

section
variable (fields : List Field) (number : Nat)

def getString : Option Str :=
  (lastBytes fields number).map fun wrapper => (lastBytes (fieldsOf wrapper) 1).getD []

def getUint : Option UInt64 :=
  (lastBytes fields number).map fun wrapper =>
    UInt64.ofNat ((lastVarint (fieldsOf wrapper) 1).getD 0)

def getBool : Option Bool :=
  (lastBytes fields number).map fun wrapper =>
    decide ((lastVarint (fieldsOf wrapper) 1).getD 0 ≠ 0)

end

/-- The field numbers of an integer attribute and of its mask. -/
def uintNumber : UintAttribute → Nat × Nat
  | .sourcePort => (52075509, 114604274)
  | .destinationPort => (28405100, 323697253)
  | .ethertype => (153235660, 312743493)
  | .outerVlanId => (153122173, 416561082)
  | .outerVlanDot1p => (406427760, 231397713)
  | .ipv4Ttl => (480696818, 126093135)
  | .ipProtocol => (327635748, 105929149)
  | .tos => (336707838, 401640867)
  | .sourceIpv4Address => (358418578, 284393839)
  | .destinationIpv4Address => (378476815, 367865752)
  | .l4SourcePort => (382902254, 92916691)
  | .l4DestinationPort => (268263093, 305938482)
  | .ingressClassId => (450894048, 45503681)
  | .virtualRoutingAndForwardingId => (462196242, 195867119)
  | .arpTargetIpv4Address => (117014930, 263367791)
  | .icmpType => (73805004, 374409797)

def bytesNumber : BytesAttribute → Nat × Nat
  | .sourceMacAddress => (181758066, 335549135)
  | .destinationMacAddress => (54776669, 143906330)

/-- The attributes of a match in the order of their field numbers. -/
def matchFields (m : AfiCapEntryMatch) : List Field :=
  uintField 28405100 (m.uint .destinationPort) ++
  uintField 45503681 (m.uintMask .ingressClassId) ++
  uintField 52075509 (m.uint .sourcePort) ++
  stringField 54776669 (m.bytes .destinationMacAddress) ++
  uintField 73805004 (m.uint .icmpType) ++
  uintField 92916691 (m.uintMask .l4SourcePort) ++
  uintField 105929149 (m.uintMask .ipProtocol) ++
  uintField 114604274 (m.uintMask .sourcePort) ++
  uintField 117014930 (m.uint .arpTargetIpv4Address) ++
  uintField 126093135 (m.uintMask .ipv4Ttl) ++
  stringField 143906330 (m.bytesMask .destinationMacAddress) ++
  uintField 153122173 (m.uint .outerVlanId) ++
  uintField 153235660 (m.uint .ethertype) ++
  stringField 181758066 (m.bytes .sourceMacAddress) ++
  uintField 195867119 (m.uintMask .virtualRoutingAndForwardingId) ++
  uintField 231397713 (m.uintMask .outerVlanDot1p) ++
  uintField 263367791 (m.uintMask .arpTargetIpv4Address) ++
  uintField 268263093 (m.uint .l4DestinationPort) ++
  uintField 284393839 (m.uintMask .sourceIpv4Address) ++
  uintField 305938482 (m.uintMask .l4DestinationPort) ++
  uintField 312743493 (m.uintMask .ethertype) ++
  uintField 323697253 (m.uintMask .destinationPort) ++
  uintField 327635748 (m.uint .ipProtocol) ++
  stringField 335549135 (m.bytesMask .sourceMacAddress) ++
  uintField 336707838 (m.uint .tos) ++
  uintField 358418578 (m.uint .sourceIpv4Address) ++
  uintField 367865752 (m.uintMask .destinationIpv4Address) ++
  uintField 374409797 (m.uintMask .icmpType) ++
  uintField 378476815 (m.uint .destinationIpv4Address) ++
  uintField 382902254 (m.uint .l4SourcePort) ++
  uintField 401640867 (m.uintMask .tos) ++
  uintField 406427760 (m.uint .outerVlanDot1p) ++
  uintField 416561082 (m.uintMask .outerVlanId) ++
  uintField 450894048 (m.uint .ingressClassId) ++
  uintField 462196242 (m.uint .virtualRoutingAndForwardingId) ++
  uintField 480696818 (m.uint .ipv4Ttl)

def getMatch (fields : List Field) : AfiCapEntryMatch where
  uint field := getUint fields (uintNumber field).1
  uintMask field := getUint fields (uintNumber field).2
  bytes field := getString fields (bytesNumber field).1
  bytesMask field := getString fields (bytesNumber field).2

/-- The numbers of the enumerators of `AfiEncapEntryAfiField`. -/
def tagNumber : AfiEncapEntryAfiField → Nat
  | .unset => 0
  | .egressPort => 2
  | .packetEtherSaddr => 4
  | .packetEtherDaddr => 3
  | .packetL3ClassId => 23

def tagOf (number : Nat) : AfiEncapEntryAfiField :=
  if number = 2 then .egressPort else if number = 3 then .packetEtherDaddr
  else if number = 4 then .packetEtherSaddr else if number = 23 then .packetL3ClassId
  else .unset

def keyFields (key : AfiKeyKey) : List Field :=
  (if tagNumber key.fieldName = 0 then [] else [.varint 1 (tagNumber key.fieldName)]) ++
  [.bytes 2 (encodeFields (stringField 53072422 key.fieldData))]

def getKey (wrapper : Str) : AfiKeyKey where
  fieldName := tagOf ((lastVarint (fieldsOf wrapper) 1).getD 0)
  fieldData := getString (fieldsOf ((lastBytes (fieldsOf wrapper) 2).getD [])) 53072422

/-- The elements of the repeated field of this number. -/
def getRepeated (fields : List Field) (number : Nat) : List Str :=
  fields.filterMap fun field =>
    match field with
    | .bytes n value => if n = number then some value else none
    | .varint _ _ => none

def toFields : (c : AfiClass) → c.Message → List Field
  | .tree, m =>
    stringField 32307618 m.keyField ++ stringField 71110621 m.name ++
    stringField 188585364 m.defaultNextNode ++ uintField 228442342 m.proto ++
    uintField 287392455 m.size
  | .treeEntry, m =>
    uintField 35426751 m.prefixLength ++ stringField 84475654 m.parentName ++
    stringField 227270412 m.targetAfiObject ++ uintField 245987046 m.vrfId ++
    stringField 298281935 m.name ++ stringField 312714340 m.prefixBytes
  | .cap, m =>
    stringField 89788449 m.matchObject ++ uintField 302957514 m.groupPriority ++
    stringField 359987726 m.actionObject ++ uintField 502911037 m.groupId
  | .capMatch, m =>
    boolField 4420347 m.destinationIpv4Address ++ boolField 282240232 m.ethertype ++
    boolField 335291014 m.sourceMacAddress
  | .capAction, m => boolField 33275360 m.vrf
  | .capEntry, m =>
    stringField 27856950 m.actionObject ++ stringField 87410884 m.parentName ++
    stringField 215134633 m.matchObject
  | .capEntryMatch, m => matchFields m
  | .capEntryAction, m =>
    uintField 72687718 m.vrf ++ uintField 163126875 m.destinationClassId ++
    boolField 244904514 m.copyToCpu ++ uintField 319334888 m.cpuQueue
  | .encap, _ => []
  | .encapEntry, m =>
    stringField 155499100 m.parentName ++
    m.afiKey.map fun key => .bytes 212250188 (encodeFields (keyFields key))
  | .treeEncap, _ => []
  | .treeEncapEntry, m =>
    stringField 174244527 m.treeEntryObject ++ stringField 299512082 m.encapEntryObject ++
    stringField 448450194 m.parentName

def ofFields (fields : List Field) : (c : AfiClass) → c.Message
  | .tree =>
    { name := getString fields 71110621
      keyField := getString fields 32307618
      proto := getUint fields 228442342
      defaultNextNode := getString fields 188585364
      size := getUint fields 287392455 }
  | .treeEntry =>
    { name := getString fields 298281935
      parentName := getString fields 84475654
      prefixBytes := getString fields 312714340
      prefixLength := getUint fields 35426751
      targetAfiObject := getString fields 227270412
      vrfId := getUint fields 245987046 }
  | .cap =>
    { groupId := getUint fields 502911037
      groupPriority := getUint fields 302957514
      matchObject := getString fields 89788449
      actionObject := getString fields 359987726 }
  | .capMatch =>
    { ethertype := getBool fields 282240232
      sourceMacAddress := getBool fields 335291014
      destinationIpv4Address := getBool fields 4420347 }
  | .capAction => { vrf := getBool fields 33275360 }
  | .capEntry =>
    { parentName := getString fields 87410884
      matchObject := getString fields 215134633
      actionObject := getString fields 27856950 }
  | .capEntryMatch => getMatch fields
  | .capEntryAction =>
    { vrf := getUint fields 72687718
      destinationClassId := getUint fields 163126875
      cpuQueue := getUint fields 319334888
      copyToCpu := getBool fields 244904514 }
  | .encap => ()
  | .encapEntry =>
    { afiKey := (getRepeated fields 212250188).map getKey
      parentName := getString fields 155499100 }
  | .treeEncap => ()
  | .treeEncapEntry =>
    { parentName := getString fields 448450194
      encapEntryObject := getString fields 299512082
      treeEntryObject := getString fields 174244527 }

/-- The wire format as an instance of the library. It takes any bytes for a string. -/
def protobuf : Protobuf where
  serialize c message := encodeFields (toFields c message)
  parse c bytes := ofFields (fieldsOf bytes) c

end JP4Agent.AfiWire
