import JP4Agent.Library.Bytes

set_option autoImplicit false

/- The AFI data model messages, with the fields that the agent writes or reads. An
unset wrapper message is `none`. -/
namespace JP4Agent

inductive AfiClass where
  | tree
  | treeEntry
  | cap
  | capMatch
  | capAction
  | capEntry
  | capEntryMatch
  | capEntryAction
  | encap
  | encapEntry
  | treeEncap
  | treeEncapEntry
  deriving DecidableEq, Repr

structure AfiTree where
  name : Option Str := none
  keyField : Option Str := none
  proto : Option UInt64 := none
  defaultNextNode : Option Str := none
  size : Option UInt64 := none

structure AfiTreeEntry where
  name : Option Str := none
  parentName : Option Str := none
  prefixBytes : Option Str := none
  prefixLength : Option UInt64 := none
  targetAfiObject : Option Str := none
  vrfId : Option UInt64 := none

structure AfiCap where
  groupId : Option UInt64 := none
  groupPriority : Option UInt64 := none
  matchObject : Option Str := none
  actionObject : Option Str := none

structure AfiCapMatch where
  ethertype : Option Bool := none
  sourceMacAddress : Option Bool := none
  destinationIpv4Address : Option Bool := none

structure AfiCapAction where
  vrf : Option Bool := none

structure AfiCapEntry where
  parentName : Option Str := none
  matchObject : Option Str := none
  actionObject : Option Str := none

/-- The attributes of a match that hold an unsigned integer, each with a mask. -/
inductive UintAttribute where
  | sourcePort
  | destinationPort
  | ethertype
  | outerVlanId
  | outerVlanDot1p
  | ipv4Ttl
  | ipProtocol
  | tos
  | sourceIpv4Address
  | destinationIpv4Address
  | l4SourcePort
  | l4DestinationPort
  | ingressClassId
  | virtualRoutingAndForwardingId
  | arpTargetIpv4Address
  | icmpType
  deriving DecidableEq, Repr

/-- The attributes of a match that hold bytes, each with a mask. -/
inductive BytesAttribute where
  | sourceMacAddress
  | destinationMacAddress
  deriving DecidableEq, Repr

structure AfiCapEntryMatch where
  uint : UintAttribute → Option UInt64 := fun _ => none
  uintMask : UintAttribute → Option UInt64 := fun _ => none
  bytes : BytesAttribute → Option Str := fun _ => none
  bytesMask : BytesAttribute → Option Str := fun _ => none

structure AfiCapEntryAction where
  vrf : Option UInt64 := none
  destinationClassId : Option UInt64 := none
  cpuQueue : Option UInt64 := none
  copyToCpu : Option Bool := none

inductive AfiEncapEntryAfiField where
  | unset
  | egressPort
  | packetEtherSaddr
  | packetEtherDaddr
  | packetL3ClassId
  deriving DecidableEq, Repr

structure AfiKeyKey where
  fieldName : AfiEncapEntryAfiField := .unset
  fieldData : Option Str := none

structure AfiEncapEntry where
  afiKey : List AfiKeyKey := []
  parentName : Option Str := none

structure AfiTreeEncapEntry where
  parentName : Option Str := none
  encapEntryObject : Option Str := none
  treeEntryObject : Option Str := none

/-- The message that an object of this class is made from. No field of an encap or
of a tree encap is read. -/
@[reducible] def AfiClass.Message : AfiClass → Type
  | .tree => AfiTree
  | .treeEntry => AfiTreeEntry
  | .cap => AfiCap
  | .capMatch => AfiCapMatch
  | .capAction => AfiCapAction
  | .capEntry => AfiCapEntry
  | .capEntryMatch => AfiCapEntryMatch
  | .capEntryAction => AfiCapEntryAction
  | .encap => Unit
  | .encapEntry => AfiEncapEntry
  | .treeEncap => Unit
  | .treeEncapEntry => AfiTreeEncapEntry

/-- The protobuf library: `SerializeToArray`, and what `ParseFromArray` leaves in a new
message, whether or not it returned true. -/
structure Protobuf where
  serialize : (c : AfiClass) → c.Message → Str
  parse : (c : AfiClass) → Str → c.Message

/-- The values of the `string` fields of a message, as opposed to its `bytes` fields. -/
def stringFields : (c : AfiClass) → c.Message → List Str
  | .tree, m => m.name.toList ++ m.keyField.toList ++ m.defaultNextNode.toList
  | .treeEntry, m =>
    m.name.toList ++ m.parentName.toList ++ m.prefixBytes.toList ++ m.targetAfiObject.toList
  | .cap, m => m.matchObject.toList ++ m.actionObject.toList
  | .capEntry, m => m.parentName.toList ++ m.matchObject.toList ++ m.actionObject.toList
  | .encapEntry, m => m.parentName.toList
  | .treeEncapEntry, m =>
    m.parentName.toList ++ m.encapEntryObject.toList ++ m.treeEntryObject.toList
  | _, _ => []

/-- Parsing gives back a message whose strings are UTF-8 and that is below the 2 GiB
that the library serializes at most. -/
def Protobuf.RoundTrips (pb : Protobuf) : Prop :=
  ∀ (c : AfiClass) (message : c.Message), (∀ s ∈ stringFields c message, ValidUtf8 s) →
    (pb.serialize c message).length < 2147483648 →
    pb.parse c (pb.serialize c message) = message

end JP4Agent
