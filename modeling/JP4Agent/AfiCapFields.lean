import JP4Agent.AfiCapInserts
import JP4Agent.Library.Overwrites
import JP4Agent.P4RuntimeWrites

set_option autoImplicit false

namespace JP4Agent
open Agent Afi P4 P4RuntimeServiceImpl

namespace AfiCap

inductive Attribute where
  | uint (field : UintAttribute)
  | bytes (field : BytesAttribute)
  deriving DecidableEq

inductive AttributeValue where
  | uint (value mask : UInt64)
  | bytes (value mask : Str)

/-- What a match object compares an attribute of a packet with: nothing, if its value or
its mask is unset. -/
def held (obj : AfiCapEntryMatch) : Attribute → Option AttributeValue
  | .uint field =>
    (obj.uint field).bind fun v => (obj.uintMask field).map fun m => .uint v m
  | .bytes field =>
    (obj.bytes field).bind fun v => (obj.bytesMask field).map fun m => .bytes v m

/-- The attribute that a field of at most 32 bits stands for. -/
def uintAttribute (name : Str) : Option UintAttribute :=
  if name = str "standard_metadata.ingress_port" then some .sourcePort
  else if name = str "standard_metadata.egress_spec" then some .destinationPort
  else if name = str "hdr.ethernet.ether_type" then some .ethertype
  else if name = str "hdr.vlan_tag[0].vid" then some .outerVlanId
  else if name = str "hdr.vlan_tag[0].pcp" then some .outerVlanDot1p
  else if name = str "hdr.ipv4_base.ttl" then some .ipv4Ttl
  else if name = str "hdr.ipv4_base.protocol" then some .ipProtocol
  else if name = str "hdr.ipv4_base.diffserv" then some .tos
  else if name = str "hdr.ipv4_base.src_addr" then some .sourceIpv4Address
  else if name = str "hdr.ipv4_base.dst_addr" then some .destinationIpv4Address
  else if name = str "hdr.ipv6_base.traffic_class" then none
  else if name = str "hdr.ipv6_base.dst_addr" then none
  else if name = str "local_metadata.l4_src_port" then some .l4SourcePort
  else if name = str "local_metadata.l4_dst_port" then some .l4DestinationPort
  else if name = str "local_metadata.class_id" then some .ingressClassId
  else if name = str "local_metadata.vrf_id" then some .virtualRoutingAndForwardingId
  else if name = str "hdr.arp.target_proto_addr" then some .arpTargetIpv4Address
  else if name = str "hdr.icmp.type" then some .icmpType
  else none

/-- The attribute that a field of 33 to 64 bits stands for. -/
def bytesAttribute (name : Str) : Option BytesAttribute :=
  if name = str "hdr.ethernet.src_addr" then some .sourceMacAddress
  else if name = str "hdr.ethernet.dst_addr" then some .destinationMacAddress
  else none

def attributeOf (name : Str) (bitWidth : UInt32) : Option Attribute :=
  if bitWidth = 0 then none
  else if bitWidth ≤ 32 then (uintAttribute name).map .uint
  else if bitWidth ≤ 64 then (bytesAttribute name).map .bytes
  else none

/-- What a field of this width is to be compared with. -/
def fieldValue (bitWidth : UInt32) (mf : AfiTEntryMatchField) : AttributeValue :=
  if bitWidth ≤ 32 then
    .uint (readUint bitWidth mf.value).toUInt64
      (if mf.type = .ternary then readUint bitWidth mf.mask else 0xffffffff).toUInt64
  else .bytes mf.value.str (if mf.type = .ternary then mf.mask.str else List.replicate 6 0xff)

/-- The attribute that the loop sets for a field. For the layer 4 source port it sets the
mask only. -/
def setAttribute (name : Str) (bitWidth : UInt32) : Option Attribute :=
  (attributeOf name bitWidth).filter fun attr => attr ≠ .uint .l4SourcePort

theorem held_setUint {field : UintAttribute} (obj : AfiCapEntryMatch) (v m : UInt32) :
    held (setUint obj field v m) =
      Function.update (held obj) (.uint field) (some (.uint v.toUInt64 m.toUInt64)) := by
  funext attr
  cases attr with
  | uint other =>
      by_cases same : other = field
      · rw [same]
        simp [held, setUint]
      · simp [held, setUint, same]
  | bytes other => simp [held, setUint]

theorem held_setBytes {field : BytesAttribute} (obj : AfiCapEntryMatch) (v m : Str) :
    held (setBytes obj field v m) =
      Function.update (held obj) (.bytes field) (some (.bytes v m)) := by
  funext attr
  cases attr with
  | uint other => simp [held, setBytes]
  | bytes other =>
      by_cases same : other = field
      · rw [same]
        simp [held, setBytes]
      · simp [held, setBytes, same]

theorem held_setMask {field : UintAttribute} {obj : AfiCapEntryMatch}
    (unset : obj.uint field = none) (f : Option UInt64) :
    held { obj with uintMask := Function.update obj.uintMask field f } = held obj := by
  funext attr
  cases attr with
  | uint other =>
      by_cases same : other = field
      · rw [same]
        simp [held, unset]
      · simp [held, same]
  | bytes other => rfl

def setUintAttribute (obj : AfiCapEntryMatch) (v m : UInt32) :
    Option UintAttribute → AfiCapEntryMatch
  | none => obj
  | some field =>
    if field = .l4SourcePort then
      { obj with
        uintMask := Function.update (Function.update obj.uintMask field (some v.toUInt64))
          field (some m.toUInt64) }
    else setUint obj field v m

def setBytesAttribute (obj : AfiCapEntryMatch) (v m : Str) :
    Option BytesAttribute → AfiCapEntryMatch
  | none => obj
  | some field => setBytes obj field v m

theorem setUintField_eq (obj : AfiCapEntryMatch) (name : Str) (v m : UInt32) :
    setUintField obj name v m = setUintAttribute obj v m (uintAttribute name) := by
  unfold setUintField uintAttribute
  simp only [apply_ite (setUintAttribute obj v m)]
  rfl

theorem setBytesField_eq (obj : AfiCapEntryMatch) (name v m : Str) :
    setBytesField obj name v m = setBytesAttribute obj v m (bytesAttribute name) := by
  unfold setBytesField bytesAttribute
  simp only [apply_ite (setBytesAttribute obj v m)]
  rfl

theorem held_setField {obj : AfiCapEntryMatch} (unset : obj.uint .l4SourcePort = none)
    (name : Str) (bitWidth : UInt32) (mf : AfiTEntryMatchField) :
    (setField obj name bitWidth mf).uint .l4SourcePort = none ∧
      held (setField obj name bitWidth mf) =
        match setAttribute name bitWidth with
        | none => held obj
        | some attr => Function.update (held obj) attr (some (fieldValue bitWidth mf)) := by
  unfold setField setAttribute attributeOf fieldValue
  by_cases zero : bitWidth = 0
  · simp [zero, unset]
  · simp only [if_neg zero]
    by_cases small : bitWidth ≤ 32
    · simp only [if_pos small, setUintField_eq]
      cases uintAttribute name with
      | none => exact ⟨unset, rfl⟩
      | some field =>
          unfold setUintAttribute
          by_cases port : field = .l4SourcePort
          · simp only [if_pos port, Function.update_idem]
            rw [port]
            exact ⟨unset, held_setMask unset _⟩
          · simp only [if_neg port]
            have kept : (Option.map Attribute.uint (some field)).filter
                (fun attr => attr ≠ .uint .l4SourcePort) = some (.uint field) := by
              simp [Option.filter, port]
            rw [kept]
            exact ⟨(Function.update_of_ne (Ne.symm port) _ _).trans unset, held_setUint _ _ _⟩
    · simp only [if_neg small]
      by_cases large : bitWidth ≤ 64
      · simp only [if_pos large, setBytesField_eq]
        cases bytesAttribute name with
        | none => exact ⟨unset, rfl⟩
        | some field => exact ⟨unset, held_setBytes _ _ _⟩
      · simp only [if_neg large]
        exact ⟨unset, rfl⟩

def written (table : P4InfoTable) (mf : AfiTEntryMatchField) :
    Option (Attribute × AttributeValue) :=
  (table.matchFieldInfo mf.id).bind fun info =>
    (setAttribute info.1 info.2).map fun attr => (attr, fieldValue info.2 mf)

theorem held_matchObj (table : P4InfoTable) (mfs : List AfiTEntryMatchField) :
    ∀ {obj m : AfiCapEntryMatch}, obj.uint .l4SourcePort = none →
      matchObj table obj mfs = some m →
      m.uint .l4SourcePort = none ∧
        held m = overwritten (held obj) (mfs.filterMap (written table)) := by
  induction mfs with
  | nil =>
      intro obj m unset made
      rw [matchObj, Option.some.injEq] at made
      rw [← made]
      exact ⟨unset, rfl⟩
  | cons mf rest ih =>
      intro obj m unset made
      rw [matchObj] at made
      cases known : table.matchFieldInfo mf.id with
      | none => simp [known] at made
      | some info =>
          simp only [known] at made
          obtain ⟨unset', held'⟩ := held_setField unset info.1 info.2 mf
          obtain ⟨last, fields⟩ := ih unset' made
          refine ⟨last, ?_⟩
          rw [fields, held', List.filterMap_cons, written, known, Option.bind_some]
          cases setAttribute info.1 info.2 <;> rfl

end AfiCap

namespace P4RuntimeServiceImpl

section
variable (mem : Memory) (tableId : UInt32)

/-- What the loop pushes to `afiMFs` for the match field at position `i`. -/
def passedField (i : Nat) (mf : FieldMatch) : Option AfiTEntryMatchField :=
  match mf.type with
  | .exact value => some ⟨mf.fieldId, .exact, ⟨value, mem.value i⟩, 0, ⟨[], mem.mask i⟩⟩
  | .lpm value prefixLen =>
    if tableId = addEntryTable then none
    else some ⟨mf.fieldId, .lpm, ⟨value, mem.value i⟩, prefixLen.toUInt32.toUInt16,
      ⟨[], mem.mask i⟩⟩
  | .ternary value mask =>
    some ⟨mf.fieldId, .ternary, ⟨value, mem.value i⟩, 0, ⟨mask, mem.mask i⟩⟩
  | _ => none

theorem passedField_id {i : Nat} {mf : FieldMatch} {afiMF : AfiTEntryMatchField}
    (passed : passedField mem tableId i mf = some afiMF) : afiMF.id = mf.fieldId := by
  rcases mf with ⟨fieldId, type⟩
  cases type with
  | exact value =>
      obtain rfl := Option.some.inj passed
      rfl
  | lpm value prefixLen =>
      unfold passedField at passed
      by_cases special : tableId = addEntryTable
      · simp [special] at passed
      · simp only [if_neg special, Option.some.injEq] at passed
        rw [← passed]
  | ternary value mask =>
      obtain rfl := Option.some.inj passed
      rfl
  | _ => simp [passedField] at passed

/-- `afiMFs` after the loop over the match fields. -/
def passedFields (i : Nat) (fieldMatches : List FieldMatch) : List AfiTEntryMatchField :=
  (fieldMatches.zipIdx i).filterMap fun p => passedField mem tableId p.2 p.1

theorem passedFields_cons (i : Nat) (mf : FieldMatch) (rest : List FieldMatch) :
    passedFields mem tableId i (mf :: rest) =
      (passedField mem tableId i mf).toList ++ passedFields mem tableId (i + 1) rest := by
  unfold passedFields
  rw [List.zipIdx_cons, List.filterMap_cons]
  cases passedField mem tableId i mf <;> rfl

/-- The calls of `addEntry` in the loop over the match fields. -/
def addEntries (pb : Protobuf) (target : Target) (tableId : UInt32) :
    List FieldMatch → AfiM (List AfiCall)
  | [] => pure []
  | mf :: rest =>
    match mf.type with
    | .lpm value prefixLen =>
      if tableId = addEntryTable then do
        let returned ← addEntry pb target value prefixLen
        let calls ← addEntries pb target tableId rest
        pure (.addEntry returned :: calls)
      else addEntries pb target tableId rest
    | _ => addEntries pb target tableId rest

/-- What is pushed does not depend on the calls made meanwhile, nor the calls on the
memory. -/
theorem convertMatch_eq (pb : Protobuf) (target : Target) (fieldMatches : List FieldMatch) :
    ∀ i, convertMatch pb target mem tableId i fieldMatches =
      (fun calls => (calls, passedFields mem tableId i fieldMatches)) <$>
        addEntries pb target tableId fieldMatches := by
  induction fieldMatches with
  | nil => exact fun i => rfl
  | cons mf rest ih =>
      intro i
      rcases mf with ⟨fieldId, type⟩
      rw [convertMatch, addEntries, passedFields_cons]
      cases type with
      | exact value =>
          dsimp only
          rw [ih (i + 1), bind_map_left, map_eq_pure_bind]
          rfl
      | lpm value prefixLen =>
          unfold passedField
          dsimp only
          by_cases special : tableId = addEntryTable
          · simp only [if_pos special]
            rw [map_bind]
            congr
            funext returned
            rw [ih (i + 1), bind_map_left, map_bind]
            rfl
          · simp only [if_neg special]
            rw [ih (i + 1), bind_map_left, map_eq_pure_bind]
            rfl
      | ternary value mask =>
          dsimp only
          rw [ih (i + 1), bind_map_left, map_eq_pure_bind]
          rfl
      | _ =>
          dsimp only
          exact ih (i + 1)

theorem convertMatch_passed (pb : Protobuf) (target : Target) (fieldMatches : List FieldMatch)
    (i : Nat) (s : Agent) :
    Ends (convertMatch pb target mem tableId i fieldMatches) s
      (fun r _ => r.2 = passedFields mem tableId i fieldMatches) (fun _ _ => True) := by
  rw [convertMatch_eq]
  exact ends_map (Ends.of_returns fun _ _ _ => rfl)

variable (table : P4InfoTable)

/-- The match object compares a packet with the value and the mask of this match field,
given with its position. -/
def Constrains (obj : AfiCapEntryMatch) (p : FieldMatch × Nat) : Prop :=
  ∃ afiMF name bitWidth attr, passedField mem tableId p.2 p.1 = some afiMF ∧
    table.matchFieldInfo p.1.fieldId = some (name, bitWidth) ∧
    AfiCap.attributeOf name bitWidth = some attr ∧
    AfiCap.held obj attr = some (AfiCap.fieldValue bitWidth afiMF)

def represented (p : FieldMatch × Nat) : Option (AfiCap.Attribute × AfiCap.AttributeValue) :=
  (passedField mem tableId p.2 p.1).bind (AfiCap.written table)

/-- Every match field is written to the match object, and none is overwritten with
something else. -/
def Representable (fieldMatches : List FieldMatch) : Prop :=
  (∀ p ∈ fieldMatches.zipIdx, (represented mem tableId table p).isSome) ∧
    ∀ p ∈ fieldMatches.zipIdx, ∀ q ∈ fieldMatches.zipIdx, ∀ w w',
      represented mem tableId table p = some w → represented mem tableId table q = some w' →
        w.1 = w'.1 → w.2 = w'.2

/-- A field constrains a match object without a layer 4 source port if what the field
writes is what the object holds. -/
theorem constrains_iff {obj : AfiCapEntryMatch} (unset : obj.uint .l4SourcePort = none)
    (p : FieldMatch × Nat) :
    Constrains mem tableId table obj p ↔
      ∃ w, represented mem tableId table p = some w ∧ AfiCap.held obj w.1 = some w.2 := by
  unfold Constrains represented AfiCap.written AfiCap.setAttribute
  cases passed : passedField mem tableId p.2 p.1 with
  | none => simp
  | some afiMF =>
      have id := passedField_id mem tableId passed
      rw [Option.bind_some, id]
      cases known : table.matchFieldInfo p.1.fieldId with
      | none => simp
      | some info =>
          rw [Option.bind_some]
          cases stands : AfiCap.attributeOf info.1 info.2 with
          | none =>
              constructor
              · intro constrains
                obtain ⟨_, name, bitWidth, attr, _, same, stands', _⟩ := constrains
                obtain rfl := Option.some.inj same
                rw [stands] at stands'
                simp at stands'
              · simp
          | some attr =>
              have reads : (∃ afiMF' name bitWidth attr', some afiMF = some afiMF' ∧
                  some info = some (name, bitWidth) ∧
                  AfiCap.attributeOf name bitWidth = some attr' ∧
                  AfiCap.held obj attr' = some (AfiCap.fieldValue bitWidth afiMF')) ↔
                    AfiCap.held obj attr = some (AfiCap.fieldValue info.2 afiMF) := by
                constructor
                · intro constrains
                  obtain ⟨_, name, bitWidth, attr', same, same', stands', holds⟩ := constrains
                  obtain rfl := Option.some.inj same
                  obtain rfl := Option.some.inj same'
                  rw [stands, Option.some.injEq] at stands'
                  rw [stands', holds]
                · exact fun holds => ⟨afiMF, info.1, info.2, attr, rfl, rfl, stands, holds⟩
              rw [reads]
              by_cases port : attr = .uint .l4SourcePort
              · simp [port, AfiCap.held, unset, Option.filter]
              · simp [port, Option.filter]

variable (pb : Protobuf) (target : Target)

/-- Every match field of an entry constrains the match object that `createChildJsonRes`
makes of it exactly if all of them can be represented. -/
theorem matchFields_constrain_iff (entry : TableEntry) (s t u v : Agent) (calls : List AfiCall)
    (afiMFs : List AfiTEntryMatchField) (table : P4InfoTable) (afiPObj : AfiObject) (aId : UInt32)
    (aes : List AfiAEntry) (eObjs : List AfiJsonResource)
    (converted : convertMatch pb target mem entry.tableId 0 entry.fieldMatches s =
      .ok (calls, afiMFs) t)
    (hasTable : u.p4Info.table? entry.tableId = some table) (isCap : afiPObj.cls = .cap)
    (created : afiPObj.createChildJsonRes pb entry.tableId aId afiMFs aes u = .ok (true, eObjs) v) :
    (∃ m, AfiCap.matchObj table {} afiMFs = some m ∧
      eObjs.head? = some (childJsonRes pb (str "afi-cap-entry-match") (AfiCap.id + 1)
        (AfiCap.matchName table.name) .capEntryMatch m) ∧
      ∀ p ∈ entry.fieldMatches.zipIdx, Constrains mem entry.tableId table m p) ↔
        Representable mem entry.tableId table entry.fieldMatches := by
  obtain ⟨action, _, _, capChildren⟩ :=
    AfiCap.createChildJsonRes_created pb hasTable isCap created
  obtain ⟨m, a, matchObj, _, listed⟩ := AfiCap.childObjs_eq pb capChildren
  have passed : afiMFs = _ :=
    (convertMatch_passed mem entry.tableId pb target entry.fieldMatches 0 s).of_ok converted
  obtain ⟨unset, fields⟩ := AfiCap.held_matchObj table afiMFs rfl matchObj
  have written : afiMFs.filterMap (AfiCap.written table) =
      entry.fieldMatches.zipIdx.filterMap (represented mem entry.tableId table) := by
    rw [passed, passedFields, List.filterMap_filterMap]
    rfl
  rw [written] at fields
  have iff := overwritten_filterMap_iff (AfiCap.held {}) (represented mem entry.tableId table)
    entry.fieldMatches.zipIdx
  rw [← fields] at iff
  unfold Representable
  rw [← iff]
  simp only [matchObj, Option.some.injEq, listed, List.head?_cons]
  constructor
  · rintro ⟨_, rfl, _, constrains⟩ p member
    exact (constrains_iff mem entry.tableId table unset p).mp (constrains p member)
  · intro constrains
    exact ⟨m, rfl, rfl, fun p member =>
      (constrains_iff mem entry.tableId table unset p).mpr (constrains p member)⟩

end

theorem matchFields_constrain_iff_spine : ∃ (s v : Agent) (afiPObj : AfiObject)
    (m : AfiCapEntryMatch),
    let entry := vrfEntry Spine.first.1 Spine.first.2
    let afiMFs := Spine.mfs Spine.first.1 Spine.first.2
    run (Process.step AfiWire.protobuf Brcm.target) {} Spine.ops = some { agent := s } ∧
      convertMatch AfiWire.protobuf Brcm.target {} entry.tableId 0 entry.fieldMatches s =
        .ok ([], afiMFs) s ∧
      afiPObj.createChildJsonRes AfiWire.protobuf entry.tableId Spine.setVrf.id afiMFs Spine.aes s =
        .ok (true, Spine.children Spine.first.1 Spine.first.2) v ∧
      AfiCap.matchObj Spine.vrfTable {} afiMFs = some m ∧
      ((∀ p ∈ entry.fieldMatches.zipIdx, Constrains {} entry.tableId Spine.vrfTable m p) ↔
        Representable {} entry.tableId Spine.vrfTable entry.fieldMatches) := by
  obtain ⟨s, afiPObj, reached, ready⟩ := Spine.ops_ready
  obtain ⟨v, created⟩ := Spine.createChildJsonRes_entry ready Spine.first.1 Spine.first.2
  have converted : convertMatch AfiWire.protobuf Brcm.target {} Spine.vrfTable.id 0
      (vrfEntry Spine.first.1 Spine.first.2).fieldMatches s =
        .ok ([], Spine.mfs Spine.first.1 Spine.first.2) s := rfl
  have iff := matchFields_constrain_iff {} AfiWire.protobuf Brcm.target
    (vrfEntry Spine.first.1 Spine.first.2) s s s v [] _ _ afiPObj _ _ _ converted ready.hasTable
    ready.cap created
  have matchObj : AfiCap.matchObj Spine.vrfTable {} (Spine.mfs Spine.first.1 Spine.first.2) =
      some (Spine.entryMatch Spine.first.1 Spine.first.2) := rfl
  refine ⟨s, v, afiPObj, _, reached, converted, created, matchObj, ?_⟩
  rw [← iff, matchObj]
  simp [Spine.children]

/-- Three of the fields of a table of the spine pipeline. -/
def classIdTable : P4InfoTable where
  id := 33554433
  name := str "ingress.class_id.class_id_assignment_table"
  matchFields := [⟨5, str "hdr.ipv6_base.dst_addr", 128⟩, ⟨7, str "hdr.ipv6_base.next_header", 8⟩,
    ⟨8, str "local_metadata.l4_src_port", 16⟩]

def setClassId : P4InfoAction where
  id := 16777218
  name := str "ingress.class_id.set_class_id"
  params := [⟨1, str "class_id_value"⟩]

/-- What the BGP speaker at an IPv6 address sends: TCP from port 179. -/
def bgpEntry : TableEntry where
  tableId := classIdTable.id
  fieldMatches := [⟨5, .ternary (List.replicate 15 0xfd ++ [1]) (List.replicate 16 0xff)⟩,
    ⟨7, .ternary [6] [0xff]⟩, ⟨8, .ternary [0, 179] [0xff, 0xff]⟩]
  action := .action setClassId.id [⟨1, [7]⟩]
  isDefaultAction := false
  hasMeterConfig := false
  hasCounterData := false

/-- No field of the entry constrains its match object, which compares no attribute at all. -/
theorem matchFields_lost : ∃ (s t : Agent) (afiPObj : AfiObject)
    (afiMFs : List AfiTEntryMatchField) (eObjs : List AfiJsonResource) (m : AfiCapEntryMatch),
    convertMatch AfiWire.protobuf Brcm.target {} bgpEntry.tableId 0 bgpEntry.fieldMatches s =
        .ok ([], afiMFs) s ∧
      afiPObj.cls = .cap ∧
      afiPObj.createChildJsonRes AfiWire.protobuf bgpEntry.tableId
        (convertAction {} bgpEntry.action).1 afiMFs (convertAction {} bgpEntry.action).2 s =
          .ok (true, eObjs) t ∧
      AfiCap.matchObj classIdTable {} afiMFs = some m ∧ (∀ attr, AfiCap.held m attr = none) ∧
      ∀ p ∈ bgpEntry.fieldMatches.zipIdx, ¬ Constrains {} bgpEntry.tableId classIdTable m p := by
  let p4Info := (({} : P4Info).insert2IdMap (.action setClassId)).insert2IdMap (.table classIdTable)
  let s : Agent := { p4Info := p4Info }
  let afiPObj : AfiObject := ⟨0, childJsonRes AfiWire.protobuf (str "afi-cap") 1 classIdTable.name
    .cap {}, .cap, {}⟩
  have hasTable : s.p4Info.table? classIdTable.id = some classIdTable := by
    rw [P4Info.table?, P4Info.p4InfoResource_insert2IdMap]
    rfl
  have hasAction : s.p4Info.action? setClassId.id = some setClassId := by
    rw [P4Info.action?, P4Info.p4InfoResource_insert2IdMap, if_neg (by decide),
      P4Info.p4InfoResource_insert2IdMap]
    rfl
  let afiMFs := passedFields {} bgpEntry.tableId 0 bgpEntry.fieldMatches
  obtain ⟨r, t, created, made, _⟩ := (createChildJsonRes_ends AfiWire.protobuf afiPObj
    bgpEntry.tableId setClassId.id afiMFs (convertAction {} bgpEntry.action).2 s).returns
  rw [AfiObject.createdChildren, show s.p4Info.table? bgpEntry.tableId = _ from hasTable,
    hasAction] at made
  rw [made] at created
  have matchObj : ∃ m, AfiCap.matchObj classIdTable {} afiMFs = some m := ⟨_, rfl⟩
  obtain ⟨m, matchObj⟩ := matchObj
  have fields := (AfiCap.held_matchObj classIdTable afiMFs rfl matchObj).2
  have unwritten : afiMFs.filterMap (AfiCap.written classIdTable) = [] := rfl
  rw [unwritten] at fields
  have nothing : ∀ attr, AfiCap.held m attr = none := by
    intro attr
    rw [fields]
    cases attr <;> rfl
  refine ⟨s, t, afiPObj, afiMFs, _, m, rfl, rfl, created, matchObj, nothing, ?_⟩
  intro p _ constrains
  obtain ⟨_, _, _, attr, _, _, _, holds⟩ := constrains
  rw [nothing attr] at holds
  simp at holds

end P4RuntimeServiceImpl
end JP4Agent
