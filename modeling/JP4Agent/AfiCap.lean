import JP4Agent.AfiEntry

set_option autoImplicit false

namespace JP4Agent.AfiCap

def id : Nat := 1233457

def setUint (obj : AfiCapEntryMatch) (field : UintAttribute) (v m : UInt32) :
    AfiCapEntryMatch :=
  { obj with
    uint := Function.update obj.uint field (some v.toUInt64)
    uintMask := Function.update obj.uintMask field (some m.toUInt64) }

def setBytes (obj : AfiCapEntryMatch) (field : BytesAttribute) (v m : Str) :
    AfiCapEntryMatch :=
  { obj with
    bytes := Function.update obj.bytes field (some v)
    bytesMask := Function.update obj.bytesMask field (some m) }

/-- The dispatch on the name of a field of at most 32 bits. -/
def setUintField (obj : AfiCapEntryMatch) (name : Str) (v m : UInt32) : AfiCapEntryMatch :=
  if name = str "standard_metadata.ingress_port" then setUint obj .sourcePort v m
  else if name = str "standard_metadata.egress_spec" then setUint obj .destinationPort v m
  else if name = str "hdr.ethernet.ether_type" then setUint obj .ethertype v m
  else if name = str "hdr.vlan_tag[0].vid" then setUint obj .outerVlanId v m
  else if name = str "hdr.vlan_tag[0].pcp" then setUint obj .outerVlanDot1p v m
  else if name = str "hdr.ipv4_base.ttl" then setUint obj .ipv4Ttl v m
  else if name = str "hdr.ipv4_base.protocol" then setUint obj .ipProtocol v m
  else if name = str "hdr.ipv4_base.diffserv" then setUint obj .tos v m
  else if name = str "hdr.ipv4_base.src_addr" then setUint obj .sourceIpv4Address v m
  else if name = str "hdr.ipv4_base.dst_addr" then setUint obj .destinationIpv4Address v m
  else if name = str "hdr.ipv6_base.traffic_class" then obj
  else if name = str "hdr.ipv6_base.dst_addr" then obj
  else if name = str "local_metadata.l4_src_port" then
    -- both calls set the mask, the second replaces the value by the mask
    { obj with
      uintMask := Function.update (Function.update obj.uintMask .l4SourcePort (some v.toUInt64))
        .l4SourcePort (some m.toUInt64) }
  else if name = str "local_metadata.l4_dst_port" then setUint obj .l4DestinationPort v m
  else if name = str "local_metadata.class_id" then setUint obj .ingressClassId v m
  else if name = str "local_metadata.vrf_id" then
    setUint obj .virtualRoutingAndForwardingId v m
  else if name = str "hdr.arp.target_proto_addr" then setUint obj .arpTargetIpv4Address v m
  else if name = str "hdr.icmp.type" then setUint obj .icmpType v m
  else obj

/-- The dispatch on the name of a field of 33 to 64 bits. -/
def setBytesField (obj : AfiCapEntryMatch) (name : Str) (v m : Str) : AfiCapEntryMatch :=
  if name = str "hdr.ethernet.src_addr" then setBytes obj .sourceMacAddress v m
  else if name = str "hdr.ethernet.dst_addr" then setBytes obj .destinationMacAddress v m
  else obj

/-- One round of the loop over the match fields, for a field the table has. -/
def setField (obj : AfiCapEntryMatch) (name : Str) (bitWidth : UInt32)
    (mf : AfiTEntryMatchField) : AfiCapEntryMatch :=
  if bitWidth = 0 then obj
  else if bitWidth ≤ 32 then
    let v := readUint bitWidth mf.value
    let m := if mf.type = .ternary then readUint bitWidth mf.mask else 0xffffffff
    setUintField obj name v m
  else if bitWidth ≤ 64 then
    let m := if mf.type = .ternary then mf.mask.str else List.replicate 6 0xff
    setBytesField obj name mf.value.str m
  else obj

/-- The match object, unless a field is not one of the table's. -/
def matchObj (table : P4InfoTable) : AfiCapEntryMatch → List AfiTEntryMatchField →
    Option AfiCapEntryMatch
  | obj, [] => some obj
  | obj, mf :: mfs =>
    match table.matchFieldInfo mf.id with
    | none => none
    | some (name, bitWidth) => matchObj table (setField obj name bitWidth mf) mfs

/-- The dispatch on the name of an action parameter. The other names the source lists
do nothing, as does any name it does not list. -/
def setParam (obj : AfiCapEntryAction) (name : Str) (value : CStr) : AfiCapEntryAction :=
  if name = str "vrf_id" then { obj with vrf := some value.uint32.toUInt64 }
  else if name = str "class_id_value" then
    { obj with destinationClassId := some value.uint8.toUInt64 }
  else if name = str "queue_id" then
    { obj with cpuQueue := some value.uint8.toUInt64, copyToCpu := some true }
  else obj

/-- The action object, unless a parameter has no name. -/
def actionObj (action : P4InfoAction) : AfiCapEntryAction → List AfiAEntry →
    Option AfiCapEntryAction
  | obj, [] => some obj
  | obj, ae :: aes =>
    if action.actionParamName ae.id = [] then none
    else actionObj action (setParam obj (action.actionParamName ae.id) ae.value) aes

def matchName (table : Str) : Str := table ++ str "_entry_match" ++ str "_" ++ decimal (id + 1)
def actionName (table : Str) : Str := table ++ str "_entry_action" ++ str "_" ++ decimal (id + 2)
def entryName (table : Str) : Str := table ++ str "_entry" ++ str "_" ++ decimal id

def capEntryObj (table : Str) : AfiCapEntry :=
  { parentName := some table
    matchObject := some (matchName table)
    actionObject := some (actionName table) }

section
variable (pb : Protobuf)

/-- What is returned, and what has been appended to the result by then. -/
def childObjs (table : P4InfoTable) (action : P4InfoAction) (mfs : List AfiTEntryMatchField)
    (aes : List AfiAEntry) : Bool × List AfiJsonResource :=
  match matchObj table {} mfs with
  | none => (false, [])
  | some afiMatchObj =>
    let mObj := childJsonRes pb (str "afi-cap-entry-match") (id + 1) (matchName table.name)
      .capEntryMatch afiMatchObj
    match actionObj action {} aes with
    | none => (false, [mObj])
    | some afiActionObj =>
      let aObj := childJsonRes pb (str "afi-cap-entry-action") (id + 2) (actionName table.name)
        .capEntryAction afiActionObj
      let eObj := childJsonRes pb (str "afi-cap-entry") id (entryName table.name)
        .capEntry (capEntryObj table.name)
      (true, [mObj, aObj, eObj])

def createChildJsonRes (tId aId : UInt32) (mfs : List AfiTEntryMatchField)
    (aes : List AfiAEntry) : AfiM (Bool × List AfiJsonResource) := do
  match ← p4InfoTable tId with
  | none => pure (false, [])
  | some table =>
    match ← p4InfoAction aId with
    | none => pure (false, [])
    | some action => pure (childObjs pb table action mfs aes)

end
end JP4Agent.AfiCap
