import JP4Agent.AfiCapValues
import JP4Agent.AftRoutes
import JP4Agent.BrcmWrites
import JP4Agent.ControllerRequests

set_option autoImplicit false

namespace JP4Agent.Controller
open Agent Afi AfiDevice P4 P4RuntimeServiceImpl Brcm

/-- A call of one of the functions that add an entry to a table with a `cap`. -/
inductive Classifier where
  | vrf (etype : UInt16) (smacAddr : Str) (addr vrf : UInt32)
  | classId (vid : UInt16) (pcp : UInt8) (etype : UInt16) (proto ttl : UInt8) (dAddr : UInt32)
    (sPort dPort : UInt16) (classId : UInt8)
  | punt (iport : UInt32) (etype : UInt16) (dmac : UInt64) (tos ttl : UInt8)
    (saddr daddr : UInt32) (proto iClassId : UInt8) (vrfId : UInt32) (qId : UInt8)
  | myMac (mac : Str)

namespace Classifier

/-- The entry that the call sends. -/
def request (p4info : ForwardingPipelineConfig) : Classifier → TableEntry
  | .vrf etype smacAddr addr id => controllerAddVrfEntry p4info etype smacAddr addr id
  | .classId vid pcp etype proto ttl dAddr sPort dPort id =>
    controllerAddClassIdEntry p4info vid pcp etype proto ttl dAddr sPort dPort id
  | .punt iport etype dmac tos ttl saddr daddr proto iClassId vrfId qId =>
    controllerAddPuntEntry p4info iport etype dmac tos ttl saddr daddr proto iClassId vrfId qId
  | .myMac mac => controllerAddMyMacEntry p4info mac

def tableName : Classifier → Str
  | .vrf .. => vrfTableName
  | .classId .. => classIdTableName
  | .punt .. => puntTableName
  | .myMac .. => str "ingress.l3_admit.dst_mac_classifier_table"

def actionName : Classifier → Str
  | .vrf .. => str "ingress.vrf.set_vrf"
  | .classId .. => str "ingress.class_id.set_class_id"
  | .punt .. => puntActionName
  | .myMac .. => str "ingress.l3_admit.set_l3_admit"

/-- The names of the match fields, with what is compared with them. -/
def fields : Classifier → List (Str × FieldMatchType)
  | .vrf etype smacAddr addr _ =>
    [(str "hdr.ethernet.ether_type", .ternary (uint2Str (.u16 etype)) (uint2Str (.u16 0xffff))),
      (str "hdr.ethernet.src_addr", .ternary smacAddr (List.replicate 6 0xff)),
      (str "hdr.ipv4_base.dst_addr",
        .ternary (uint2Str (.u32 addr)) (uint2Str (.u32 0xffffffff)))]
  | .classId vid pcp etype proto ttl dAddr sPort dPort _ =>
    [(str "hdr.vlan_tag[0].vid", .ternary (uint2Str (.u16 vid)) (uint2Str (.u16 0x0fff))),
      (str "hdr.vlan_tag[0].pcp", .ternary (uint2Str (.u8 pcp)) (uint2Str (.u8 0x07))),
      (str "hdr.ethernet.ether_type", .exact (uint2Str (.u16 etype))),
      (str "hdr.ipv4_base.ttl", .ternary (uint2Str (.u8 ttl)) (uint2Str (.u8 0xff))),
      (str "hdr.ipv4_base.protocol", .ternary (uint2Str (.u8 proto)) (uint2Str (.u8 0xff))),
      (str "hdr.ipv4_base.dst_addr",
        .ternary (uint2Str (.u32 dAddr)) (uint2Str (.u32 0xffffffff))),
      (str "local_metadata.l4_src_port",
        .ternary (uint2Str (.u16 sPort)) (uint2Str (.u16 0xffff))),
      (str "local_metadata.l4_dst_port",
        .ternary (uint2Str (.u16 dPort)) (uint2Str (.u16 0xffff)))]
  | .punt iport etype dmac tos ttl saddr daddr proto iClassId vrfId _ =>
    let ternary (mf : Uint) (bitWidth : Nat) : FieldMatchType :=
      .ternary (uint2Str mf) (uint2Str (mfMask mf bitWidth))
    [(str "standard_metadata.ingress_port", ternary (.u32 iport) 32),
      (str "hdr.ethernet.ether_type", ternary (.u16 etype) 16),
      (str "hdr.ethernet.dst_addr", ternary (.u64 dmac) 64),
      (str "hdr.ipv4_base.diffserv", ternary (.u8 tos) 8),
      (str "hdr.ipv4_base.ttl", ternary (.u8 ttl) 8),
      (str "hdr.ipv4_base.src_addr", ternary (.u32 saddr) 32),
      (str "hdr.ipv4_base.dst_addr", ternary (.u32 daddr) 32),
      (str "hdr.ipv4_base.protocol", ternary (.u8 proto) 8),
      (str "local_metadata.class_id", ternary (.u8 iClassId) 8),
      (str "local_metadata.vrf_id", ternary (.u32 vrfId) 32)]
  | .myMac mac => [(str "hdr.ethernet.dst_addr", .exact mac)]

/-- The name of the action parameter, if the action has one, and its value. -/
def param : Classifier → Option (Str × Str)
  | .vrf _ _ _ id => some (str "vrf_id", uint2Str (.u32 id))
  | .classId _ _ _ _ _ _ _ _ id => some (str "class_id_value", uint2Str (.u8 id))
  | .punt _ _ _ _ _ _ _ _ _ _ qId => some (str "queue_id", uint2Str (.u8 qId))
  | .myMac _ => none

/- What the rule compares with the type and the destination: with zero, where the entry has
neither. -/

def etype : Classifier → UInt16
  | .vrf etype _ _ _ => etype
  | .classId _ _ etype _ _ _ _ _ _ => etype
  | .punt _ etype _ _ _ _ _ _ _ _ _ => etype
  | .myMac _ => 0

def daddr : Classifier → UInt32
  | .vrf _ _ addr _ => addr
  | .classId _ _ _ _ _ dAddr _ _ _ => dAddr
  | .punt _ _ _ _ _ _ daddr _ _ _ _ => daddr
  | .myMac _ => 0

/-- The six bytes that the rule compares with the source MAC address: where the entry has
none, the terminator of an empty string and what is behind it. -/
def smac (after : Nat → UInt8) : Classifier → Str
  | .vrf _ smacAddr _ _ => smacAddr
  | _ => [0, after 1, after 2, after 3, after 4, after 5]

def vrfId : Classifier → UInt32
  | .vrf _ _ _ id => id
  | _ => 0

/-- What becomes of an entry: the other fields, the class and the queue are lost. -/
def rule (co : AfiCap) (after : Nat → UInt8) (e : Classifier) : Rule where
  group := co.groupId.getD 0
  matchFields :=
    [(.etherType, .number e.etype.toNat, .number 0xffff),
      (.srcMac, .bytes (e.smac after), .bytes (List.replicate 6 0xff)),
      (.inetDstAddr, .number e.daddr.toNat, .number 0xffffffff)]
  actions := [(.vrfId, e.vrfId.toUInt64, 0xffff)]
  priority := 2

/-- The rules of these entries, latest first. -/
def rules (memory : Nat → Nat → UInt8) (cap : Str → AfiCap) : Nat → List Classifier → List Rule
  | _, [] => []
  | addr, e :: rest =>
    rules memory cap (addr + 3) rest ++ [e.rule (cap e.tableName) (memory addr)]

theorem request_eq (p4info : ForwardingPipelineConfig) (e : Classifier) :
    e.request p4info = tableEntry p4info e.tableName
      (e.fields.map fun f => ⟨getMfId p4info e.tableName f.1, f.2⟩) e.actionName
      (e.param.toList.map fun p => ⟨getParamId p4info e.actionName p.1, p.2⟩) := by
  cases e with
  | punt => simp only [request, controllerAddPuntEntry, addTEntryMF, if_true]; rfl
  | _ => rfl

/-- The pipeline has the table and the action of the entry, with the fields of the headers
in their widths. -/
structure Offers (p4info : ForwardingPipelineConfig) (e : Classifier) (table : P4InfoTable)
    (action : P4InfoAction) : Prop where
  hasTable : table ∈ p4info.tables
  tableName : table.name = e.tableName
  fields : ∀ f ∈ e.fields, ∃ field ∈ table.matchFields, field.name = f.1
  etherType : ∀ field ∈ table.matchFields, field.name = str "hdr.ethernet.ether_type" →
    field.bitwidth = 16
  srcAddr : ∀ field ∈ table.matchFields, field.name = str "hdr.ethernet.src_addr" →
    field.bitwidth = 48
  dstAddr : ∀ field ∈ table.matchFields, field.name = str "hdr.ipv4_base.dst_addr" →
    field.bitwidth = 32
  hasAction : action ∈ p4info.actions
  actionName : action.name = e.actionName
  param : ∀ p, e.param = some p → ∃ param ∈ action.params, param.name = p.1

/-- A MAC address that the caller gives as a string has six bytes. -/
def SixBytes : Classifier → Prop
  | .vrf _ smacAddr _ _ => smacAddr.length = 6
  | .myMac mac => mac.length = 6
  | _ => True

end Classifier

theorem uint16_uint2Str (v : UInt16) (after : Nat → UInt8) :
    CStr.uint16 ⟨uint2Str (.u16 v), after⟩ = v.toUInt32 := by
  show (netWord (netHigh v) (netLow v)).toUInt32 = _
  rw [netWord_high_low]

theorem uint32_uint2Str (v : UInt32) (after : Nat → UInt8) :
    CStr.uint32 ⟨uint2Str (.u32 v), after⟩ = v := by
  have below := v.toNat_lt
  have high : (v >>> 16).toUInt16.toNat = v.toNat / 65536 % 65536 := by
    rw [UInt32.toNat_toUInt16, UInt32.toNat_shiftRight]
    exact congrArg (· % 65536) (Nat.shiftRight_eq_div_pow v.toNat 16)
  apply UInt32.toNat_inj.mp
  rw [CStr.uint32_toNat]
  show (((netHigh (v >>> 16).toUInt16).toNat * 256 + (netLow (v >>> 16).toUInt16).toNat) * 256 +
    (netHigh v.toUInt16).toNat) * 256 + (netLow v.toUInt16).toNat = v.toNat
  rw [netHigh_toNat, netLow_toNat, netHigh_toNat, netLow_toNat, high, UInt32.toNat_toUInt16]
  omega

section
variable (mem : Memory) (tableId : UInt32)

/-- The bytes that a match field is compared with. -/
def compared : FieldMatchType → Option Str
  | .exact value => some value
  | .ternary value _ => some value
  | _ => none

theorem passedField_compared (i : Nat) (mf : FieldMatch) {value : Str}
    (given : compared mf.type = some value) :
    ∃ afiMF, passedField mem tableId i mf = some afiMF ∧ afiMF.id = mf.fieldId ∧
      afiMF.value.str = value := by
  rcases mf with ⟨fieldId, type⟩
  cases type with
  | exact => exact ⟨_, rfl, rfl, Option.some.inj given⟩
  | ternary => exact ⟨_, rfl, rfl, Option.some.inj given⟩
  | _ => cases given

theorem passedFields_append (pre post : List FieldMatch) (i : Nat) :
    passedFields mem tableId i (pre ++ post) =
      passedFields mem tableId i pre ++ passedFields mem tableId (i + pre.length) post := by
  rw [passedFields, List.zipIdx_append, List.filterMap_append]
  rfl

end

section
open AfiCap

theorem attributeOf_uint {name : Str} {bitWidth : UInt32} {field : UintAttribute}
    (sets : setAttribute name bitWidth = some (.uint field)) : uintAttribute name = some field := by
  have stands := (Option.filter_eq_some_iff.mp sets).1
  unfold attributeOf at stands
  split_ifs at stands with _ _ _
  · simpa using stands
  · simp at stands

theorem attributeOf_bytes {name : Str} {bitWidth : UInt32} {field : BytesAttribute}
    (sets : setAttribute name bitWidth = some (.bytes field)) :
    bytesAttribute name = some field := by
  have stands := (Option.filter_eq_some_iff.mp sets).1
  unfold attributeOf at stands
  split_ifs at stands with _ _ _
  · simp at stands
  · simpa using stands

theorem ite_ne {α : Type} {p : Prop} [Decidable p] {a b c : α} (first : a ≠ c) (second : b ≠ c) :
    (if p then a else b) ≠ c := by
  split
  · exact first
  · exact second

/-- The fields that the attributes of a rule are read from. -/
theorem name_of_etherType {name : Str} (stands : uintAttribute name = some .ethertype) :
    name = str "hdr.ethernet.ether_type" := by
  by_contra other
  revert stands
  rw [uintAttribute, if_neg other]
  repeat refine ite_ne (by decide) ?_
  decide

theorem name_of_dstAddr {name : Str}
    (stands : uintAttribute name = some .destinationIpv4Address) :
    name = str "hdr.ipv4_base.dst_addr" := by
  by_contra other
  revert stands
  rw [uintAttribute, if_neg other]
  repeat refine ite_ne (by decide) ?_
  decide

theorem name_of_srcAddr {name : Str} (stands : bytesAttribute name = some .sourceMacAddress) :
    name = str "hdr.ethernet.src_addr" := by
  by_contra other
  revert stands
  rw [bytesAttribute, if_neg other]
  exact ite_ne (by decide) (by decide)

variable {table : P4InfoTable} {ids : Str → UInt32} {mem : Memory} {tableId : UInt32}

/-- The match fields of a request, by the ids of their names. -/
def fieldMatches (ids : Str → UInt32) (fields : List (Str × FieldMatchType)) : List FieldMatch :=
  fields.map fun f => ⟨ids f.1, f.2⟩

theorem passed_name {fields : List (Str × FieldMatchType)}
    (known : ∀ f ∈ fields, ∃ bitWidth, table.matchFieldInfo (ids f.1) = some (f.1, bitWidth))
    {i : Nat} {q : AfiTEntryMatchField}
    (passed : q ∈ passedFields mem tableId i (fieldMatches ids fields)) :
    ∃ f ∈ fields, ∃ bitWidth, table.matchFieldInfo q.id = some (f.1, bitWidth) := by
  unfold passedFields at passed
  obtain ⟨p, member, same⟩ := List.mem_filterMap.mp passed
  obtain ⟨f, listed, named⟩ := List.mem_map.mp (List.fst_mem_of_mem_zipIdx member)
  obtain ⟨bitWidth, found⟩ := known f listed
  refine ⟨f, listed, bitWidth, ?_⟩
  rw [passedField_id mem tableId same, ← named, found]

/-- A field that does not have the name that stands for the attribute does not set it. -/
theorem sets_other {fields : List (Str × FieldMatchType)} {name : Str} {attr : Attribute}
    (known : ∀ f ∈ fields, ∃ bitWidth, table.matchFieldInfo (ids f.1) = some (f.1, bitWidth))
    (only : ∀ name' bitWidth, setAttribute name' bitWidth = some attr → name' = name)
    (others : ∀ f ∈ fields, f.1 ≠ name) (i : Nat) :
    ∀ q ∈ passedFields mem tableId i (fieldMatches ids fields), ∀ w,
      valueWrite table q = some w → w.1 ≠ attr := by
  intro q passed w wrote same
  obtain ⟨f, listed, bitWidth, found⟩ := passed_name known passed
  rw [valueWrite, found, Option.bind_some] at wrote
  obtain ⟨attr', sets, rfl⟩ := Option.map_eq_some_iff.mp wrote
  have same : attr' = attr := same
  rw [same] at sets
  exact others f listed (only f.1 bitWidth sets)

/-- An attribute holds what the field of its name is compared with. -/
theorem value_read {m : AfiCapEntryMatch} {fields : List (Str × FieldMatchType)}
    {name value : Str} {type : FieldMatchType} {bitWidth : UInt32} {attr : Attribute}
    (made : matchObj table {} (passedFields mem tableId 0 (fieldMatches ids fields)) = some m)
    (known : ∀ f ∈ fields, ∃ bitWidth, table.matchFieldInfo (ids f.1) = some (f.1, bitWidth))
    (only : ∀ name' bitWidth, setAttribute name' bitWidth = some attr → name' = name)
    (nodup : (fields.map Prod.fst).Nodup) (member : (name, type) ∈ fields)
    (given : compared type = some value)
    (found : table.matchFieldInfo (ids name) = some (name, bitWidth))
    (sets : setAttribute name bitWidth = some attr) :
    ∃ mf : AfiTEntryMatchField, mf.value.str = value ∧
      valueOf m attr = some (decodedValue bitWidth mf attr) := by
  obtain ⟨pre, post, rfl⟩ := List.append_of_mem member
  have last : ∀ f ∈ post, f.1 ≠ name := by
    intro f listed same
    rw [List.map_append, List.map_cons] at nodup
    have behind : name ∉ post.map Prod.fst :=
      (List.nodup_cons.mp (List.nodup_append.mp nodup).2.1).1
    rw [← same] at behind
    exact behind (List.mem_map_of_mem listed)
  obtain ⟨mf, passed, id, text⟩ := passedField_compared mem tableId
    (0 + (fieldMatches ids pre).length) ⟨ids name, type⟩ given
  refine ⟨mf, text, ?_⟩
  rw [(matchObj_values table _ made).1, fieldMatches, List.map_append, List.map_cons,
    passedFields_append, passedFields_cons]
  show overwritten _ (List.filterMap _ (_ ++ ((passedField mem tableId
    (0 + (fieldMatches ids pre).length) ⟨ids name, type⟩).toList ++ _))) attr = _
  rw [passed]
  have known : ∀ f ∈ post, ∃ bitWidth, table.matchFieldInfo (ids f.1) = some (f.1, bitWidth) :=
    fun f listed => known f (List.mem_append_right _ (List.mem_cons_of_mem _ listed))
  refine overwritten_filterMap_last _ _ ?_ (sets_other known only last _)
  rw [valueWrite, id]
  show (table.matchFieldInfo (ids name)).bind _ = _
  rw [found, Option.bind_some, sets]
  rfl

theorem value_unset {m : AfiCapEntryMatch} {fields : List (Str × FieldMatchType)} {name : Str}
    {attr : Attribute}
    (made : matchObj table {} (passedFields mem tableId 0 (fieldMatches ids fields)) = some m)
    (known : ∀ f ∈ fields, ∃ bitWidth, table.matchFieldInfo (ids f.1) = some (f.1, bitWidth))
    (only : ∀ name' bitWidth, setAttribute name' bitWidth = some attr → name' = name)
    (absent : name ∉ fields.map Prod.fst) : valueOf m attr = none := by
  have others : ∀ f ∈ fields, f.1 ≠ name :=
    fun f listed same => absent (same ▸ List.mem_map_of_mem listed)
  rw [(matchObj_values table _ made).1,
    overwritten_filterMap_absent _ (sets_other known only others 0), valueOf_empty]

end

theorem Classifier.fields_nodup (e : Classifier) : (e.fields.map Prod.fst).Nodup := by
  cases e <;> exact of_decide_eq_true rfl

/-- The entry has the field, and compares it with these bytes. -/
def Classifier.Compares (e : Classifier) (name bytes : Str) : Prop :=
  ∃ type, (name, type) ∈ e.fields ∧ compared type = some bytes

theorem Classifier.etherType_compared (e : Classifier) :
    e.Compares (str "hdr.ethernet.ether_type") (uint2Str (.u16 e.etype)) ∨
      str "hdr.ethernet.ether_type" ∉ e.fields.map Prod.fst ∧ e.etype = 0 := by
  cases e with
  | vrf => exact Or.inl ⟨_, .head _, rfl⟩
  | classId => exact Or.inl ⟨_, .tail _ (.tail _ (.head _)), rfl⟩
  | punt => exact Or.inl ⟨_, .tail _ (.head _), rfl⟩
  | myMac => exact Or.inr ⟨of_decide_eq_true rfl, rfl⟩

theorem Classifier.dstAddr_compared (e : Classifier) :
    e.Compares (str "hdr.ipv4_base.dst_addr") (uint2Str (.u32 e.daddr)) ∨
      str "hdr.ipv4_base.dst_addr" ∉ e.fields.map Prod.fst ∧ e.daddr = 0 := by
  cases e with
  | vrf => exact Or.inl ⟨_, .tail _ (.tail _ (.head _)), rfl⟩
  | classId => exact Or.inl ⟨_, .tail _ (.tail _ (.tail _ (.tail _ (.tail _ (.head _))))), rfl⟩
  | punt =>
      exact Or.inl ⟨_, .tail _ (.tail _ (.tail _ (.tail _ (.tail _ (.tail _ (.head _)))))), rfl⟩
  | myMac => exact Or.inr ⟨of_decide_eq_true rfl, rfl⟩

section
variable {p4info : ForwardingPipelineConfig} (wellFormed : WellFormed p4info) {e : Classifier}
  {table : P4InfoTable} {action : P4InfoAction} (offers : e.Offers p4info table action)
include wellFormed offers

/-- The agent finds the fields of the entry in the table. -/
theorem Classifier.Offers.known : ∀ f ∈ e.fields, ∃ bitWidth,
    table.matchFieldInfo (getMfId p4info e.tableName f.1) = some (f.1, bitWidth) := by
  intro f listed
  obtain ⟨field, member, named⟩ := offers.fields f listed
  refine ⟨field.bitwidth.toUInt32, ?_⟩
  rw [← offers.tableName, ← named, getMfId_name wellFormed offers.hasTable member,
    matchFieldInfo_id wellFormed offers.hasTable member]

theorem Classifier.Offers.width {f : Str × FieldMatchType} (listed : f ∈ e.fields)
    {bitWidth : Int32}
    (width : ∀ field ∈ table.matchFields, field.name = f.1 → field.bitwidth = bitWidth) :
    table.matchFieldInfo (getMfId p4info e.tableName f.1) = some (f.1, bitWidth.toUInt32) := by
  obtain ⟨field, member, named⟩ := offers.fields f listed
  rw [← width field member named, ← offers.tableName, ← named,
    getMfId_name wellFormed offers.hasTable member,
    matchFieldInfo_id wellFormed offers.hasTable member]

variable {mem : Memory} {tableId : UInt32} {m : AfiCapEntryMatch}
  (made : AfiCap.matchObj table {} (passedFields mem tableId 0
    (fieldMatches (getMfId p4info e.tableName) e.fields)) = some m)
include made

theorem Classifier.Offers.etype : (m.uint .ethertype).getD 0 = e.etype.toUInt32.toUInt64 := by
  have only (name : Str) (bitWidth : UInt32)
      (sets : AfiCap.setAttribute name bitWidth = some (.uint .ethertype)) :
      name = str "hdr.ethernet.ether_type" := name_of_etherType (attributeOf_uint sets)
  rcases e.etherType_compared with ⟨type, member, given⟩ | ⟨absent, zero⟩
  · obtain ⟨mf, text, value⟩ := value_read made (offers.known wellFormed)
      only e.fields_nodup member given (offers.width wellFormed member offers.etherType)
      (show AfiCap.setAttribute _ 16 = some (.uint .ethertype) from rfl)
    have read : readUint 16 mf.value = e.etype.toUInt32 := by
      rcases mf with ⟨id, type, ⟨bytes, after⟩, len, mask⟩
      obtain rfl : bytes = uint2Str (.u16 e.etype) := text
      exact uint16_uint2Str e.etype after
    have value : (m.uint .ethertype).map AfiCap.Datum.uint =
        some (.uint (readUint 16 mf.value).toUInt64) := value
    rw [read] at value
    obtain ⟨n, found, same⟩ := Option.map_eq_some_iff.mp value
    rw [found, AfiCap.Datum.uint.inj same, Option.getD_some]
  · have unset := value_unset made (offers.known wellFormed) only absent
    have unset : m.uint .ethertype = none := Option.map_eq_none_iff.mp unset
    rw [unset, zero]
    rfl

theorem Classifier.Offers.daddr :
    (m.uint .destinationIpv4Address).getD 0 = e.daddr.toUInt64 := by
  have only (name : Str) (bitWidth : UInt32)
      (sets : AfiCap.setAttribute name bitWidth = some (.uint .destinationIpv4Address)) :
      name = str "hdr.ipv4_base.dst_addr" := name_of_dstAddr (attributeOf_uint sets)
  rcases e.dstAddr_compared with ⟨type, member, given⟩ | ⟨absent, zero⟩
  · obtain ⟨mf, text, value⟩ := value_read made (offers.known wellFormed)
      only e.fields_nodup member given (offers.width wellFormed member offers.dstAddr)
      (show AfiCap.setAttribute _ 32 = some (.uint .destinationIpv4Address) from rfl)
    have read : readUint 32 mf.value = e.daddr := by
      rcases mf with ⟨id, type, ⟨bytes, after⟩, len, mask⟩
      obtain rfl : bytes = uint2Str (.u32 e.daddr) := text
      exact uint32_uint2Str e.daddr after
    have value : (m.uint .destinationIpv4Address).map AfiCap.Datum.uint =
        some (.uint (readUint 32 mf.value).toUInt64) := value
    rw [read] at value
    obtain ⟨n, found, same⟩ := Option.map_eq_some_iff.mp value
    rw [found, AfiCap.Datum.uint.inj same, Option.getD_some]
  · have unset := value_unset made (offers.known wellFormed) only absent
    have unset : m.uint .destinationIpv4Address = none := Option.map_eq_none_iff.mp unset
    rw [unset, zero]
    rfl

/-- The six bytes behind the pointer to the source MAC address. -/
theorem Classifier.Offers.smac (six : e.SixBytes) (after : Nat → UInt8) :
    (List.range 6).map (CStr.byte ⟨(m.bytes .sourceMacAddress).getD [], after⟩) =
      e.smac after := by
  have only (name : Str) (bitWidth : UInt32)
      (sets : AfiCap.setAttribute name bitWidth = some (.bytes .sourceMacAddress)) :
      name = str "hdr.ethernet.src_addr" := name_of_srcAddr (attributeOf_bytes sets)
  have unset (absent : str "hdr.ethernet.src_addr" ∉ e.fields.map Prod.fst) :
      m.bytes .sourceMacAddress = none :=
    Option.map_eq_none_iff.mp (value_unset made (offers.known wellFormed) only absent)
  cases e with
  | vrf etype smacAddr addr id =>
      have member : (str "hdr.ethernet.src_addr", .ternary smacAddr (List.replicate 6 0xff)) ∈
          (Classifier.vrf etype smacAddr addr id).fields := .tail _ (.head _)
      obtain ⟨mf, text, value⟩ := value_read made (offers.known wellFormed) only
        (Classifier.fields_nodup _) member rfl (offers.width wellFormed member offers.srcAddr)
        (show AfiCap.setAttribute _ 48 = some (.bytes .sourceMacAddress) from rfl)
      have value : (m.bytes .sourceMacAddress).map AfiCap.Datum.bytes =
        some (.bytes mf.value.str) := value
      obtain ⟨bytes, found, same⟩ := Option.map_eq_some_iff.mp value
      rw [found, AfiCap.Datum.bytes.inj same, text]
      exact six_bytes (s := ⟨smacAddr, after⟩) six
  | classId =>
      rw [unset (of_decide_eq_true rfl)]
      rfl
  | punt =>
      rw [unset (of_decide_eq_true rfl)]
      rfl
  | myMac =>
      rw [unset (of_decide_eq_true rfl)]
      rfl

end

/-- The action object that the parameter makes. -/
def Classifier.actionObj (e : Classifier) (after : Nat → UInt8) : AfiCapEntryAction :=
  e.param.elim {} fun p => AfiCap.setParam {} p.1 ⟨p.2, after⟩

theorem Classifier.vrf_read (e : Classifier) (after : Nat → UInt8) :
    (e.actionObj after).vrf.getD 0 = e.vrfId.toUInt64 := by
  cases e with
  | vrf etype smacAddr addr id => exact congrArg UInt32.toUInt64 (uint32_uint2Str id after)
  | _ => rfl

section
open AfiWire Proto3

theorem lowBytes_length (j : Nat) : ∀ (i : UInt64) (c : Str),
    (lowBytes j i c).length = j + 1 + c.length := by
  induction j with
  | zero =>
      intro i c
      simp [lowBytes]
      omega
  | succ j ih =>
      intro i c
      rw [lowBytes, ih, List.length_cons]
      omega

theorem uint2Str_length (i : Uint) : (uint2Str i).length ≤ 6 := by
  cases i with
  | u64 i => exact Nat.le_of_eq (lowBytes_length 5 i [])
  | _ => simp [uint2Str]

/-- The strings of a match field are not longer than a MAC address. -/
def ShortType : FieldMatchType → Prop
  | .exact value => value.length ≤ 6
  | .ternary value mask => value.length ≤ 6 ∧ mask.length ≤ 6
  | _ => False

theorem Classifier.fields_short {e : Classifier} (six : e.SixBytes) :
    ∀ f ∈ e.fields, ShortType f.2 := by
  cases e with
  | vrf etype smacAddr addr id =>
      have six : smacAddr.length = 6 := six
      simp [fields, ShortType, uint2Str_length, six]
  | myMac mac =>
      have six : mac.length = 6 := six
      simp [fields, ShortType, six]
  | _ => simp [fields, ShortType, uint2Str_length]

theorem passedFields_short {mem : Memory} {tableId : UInt32} {ids : Str → UInt32}
    {fields : List (Str × FieldMatchType)} (short : ∀ f ∈ fields, ShortType f.2) (i : Nat) :
    ∀ q ∈ passedFields mem tableId i (fieldMatches ids fields),
      q.value.str.length ≤ 6 ∧ q.mask.str.length ≤ 6 := by
  intro q passed
  obtain ⟨p, member, same⟩ := List.mem_filterMap.mp passed
  obtain ⟨f, listed, named⟩ := List.mem_map.mp (List.fst_mem_of_mem_zipIdx member)
  have short := short f listed
  unfold passedField at same
  rw [← named] at same
  rcases f with ⟨name, type⟩
  cases type with
  | exact value =>
      obtain rfl := Option.some.inj same
      exact ⟨short, Nat.zero_le _⟩
  | ternary value mask =>
      obtain rfl := Option.some.inj same
      exact short
  | _ => exact absurd short id

/-- The strings of a match object are those of its fields. -/
theorem matchObj_short {table : P4InfoTable} {mfs : List AfiTEntryMatchField}
    {m : AfiCapEntryMatch} (made : AfiCap.matchObj table {} mfs = some m)
    (short : ∀ q ∈ mfs, q.value.str.length ≤ 6 ∧ q.mask.str.length ≤ 6) (field : BytesAttribute) :
    (m.bytes field).toList.flatten.length ≤ 6 ∧
      (m.bytesMask field).toList.flatten.length ≤ 6 := by
  obtain ⟨values, masks⟩ := AfiCap.matchObj_values table mfs made
  have value := congrFun values (.bytes field)
  have mask := congrFun masks (.bytes field)
  rw [AfiCap.valueOf_empty] at value
  rw [AfiCap.maskOf_empty] at mask
  have value : (m.bytes field).map AfiCap.Datum.bytes = _ := value
  have mask : (m.bytesMask field).map AfiCap.Datum.bytes = _ := mask
  constructor
  · cases held : m.bytes field with
    | none => exact Nat.zero_le _
    | some bytes =>
        rw [held] at value
        obtain ⟨_, q, _, rfl, wrote, _⟩ := overwritten_filterMap_found value.symm
        obtain ⟨info, _, wrote⟩ := Option.bind_eq_some_iff.mp wrote
        obtain ⟨attr, _, same⟩ := Option.map_eq_some_iff.mp wrote
        obtain ⟨rfl, same⟩ := Prod.mk.inj same
        have same : q.value.str = bytes := AfiCap.Datum.bytes.inj same
        rw [← same]
        simpa using (short q (by simp)).1
  · cases held : m.bytesMask field with
    | none => exact Nat.zero_le _
    | some bytes =>
        rw [held] at mask
        obtain ⟨_, q, _, rfl, wrote, _⟩ := overwritten_filterMap_found mask.symm
        obtain ⟨info, _, wrote⟩ := Option.bind_eq_some_iff.mp wrote
        obtain ⟨attr, _, same⟩ := Option.map_eq_some_iff.mp wrote
        obtain ⟨rfl, same⟩ := Prod.mk.inj same
        have same : (if q.type = .ternary then q.mask.str else List.replicate 6 0xff) = bytes :=
          AfiCap.Datum.bytes.inj same
        rw [← same]
        split
        · simpa using (short q (by simp)).2
        · simp

theorem encode_append_le {first second : List Field} {n : Nat}
    (before : (encodeFields first).length ≤ 46 * n)
    (behind : (encodeFields second).length ≤ 46) :
    (encodeFields (first ++ second)).length ≤ 46 * (n + 1) := by
  rw [encodeFields_append, List.length_append]
  omega

theorem matches_short {m : AfiCapEntryMatch}
    (short : ∀ field, (m.bytes field).toList.flatten.length ≤ 6 ∧
      (m.bytesMask field).toList.flatten.length ≤ 6) :
    (encodeFields (matchFields m)).length ≤ 46 * 36 := by
  have text (number : Nat) {value : Option Str} (few : value.toList.flatten.length ≤ 6) :
      (encodeFields (stringField number value)).length ≤ 46 :=
    (Aft.stringField_length_le number value).trans (by omega)
  have number (number : Nat) (value : Option UInt64) :
      (encodeFields (uintField number value)).length ≤ 46 :=
    (uintField_short number value).trans (by omega)
  -- one field for each of the 36 values and masks
  unfold matchFields
  iterate 35 refine encode_append_le ?_ ?_
  all_goals
    first
    | exact number _ _
    | exact text _ (short _).1
    | exact text _ (short _).2

theorem matches_fit {m : AfiCapEntryMatch}
    (short : ∀ field, (m.bytes field).toList.flatten.length ≤ 6 ∧
      (m.bytesMask field).toList.flatten.length ≤ 6) :
    (AfiWire.protobuf.serialize .capEntryMatch m).length < 5000 := by
  have bound := matches_short short
  have same : AfiWire.protobuf.serialize .capEntryMatch m = encodeFields (matchFields m) := by
    unfold AfiWire.protobuf
    dsimp only
    rw [toFields]
  rw [same]
  omega

end
theorem Classifier.named (e : Classifier) : ValidUtf8 e.tableName := by
  cases e with
  | vrf =>
      show ValidUtf8 vrfTableName
      exact ⟨"ingress.vrf.vrf_classifier_table".toList, by decide⟩
  | classId =>
      show ValidUtf8 classIdTableName
      exact ⟨"ingress.class_id.class_id_assignment_table".toList, by decide⟩
  | punt =>
      show ValidUtf8 puntTableName
      exact ⟨"ingress.punt.punt_table".toList, by decide⟩
  | myMac =>
      show ValidUtf8 (str "ingress.l3_admit.dst_mac_classifier_table")
      exact ⟨"ingress.l3_admit.dst_mac_classifier_table".toList, by decide⟩

theorem Classifier.entry_short (e : Classifier) :
    (AfiWire.protobuf.serialize .capEntry (AfiCap.capEntryObj e.tableName)).length < 5000 := by
  have each : ∀ name ∈ [vrfTableName, classIdTableName, puntTableName,
        str "ingress.l3_admit.dst_mac_classifier_table"],
      (AfiWire.protobuf.serialize .capEntry (AfiCap.capEntryObj name)).length < 5000 := by
    decide +kernel
  apply each
  cases e with
  | vrf => exact .head _
  | classId => exact .tail _ (.head _)
  | punt => exact .tail _ (.tail _ (.head _))
  | myMac => exact .tail _ (.tail _ (.tail _ (.head _)))

/-- The update that the call sends, and the memory that the agent finds. -/
def Classifier.update (p4info : ForwardingPipelineConfig) (call : Classifier × Memory) :
    Update × Memory :=
  (⟨.insert, .tableEntry (call.1.request p4info)⟩, call.2)

theorem Classifier.noRoute (p4info : ForwardingPipelineConfig) (call : Classifier × Memory) :
    NoRoute (update p4info call) := by
  intro entry same adds
  obtain rfl := Entity.tableEntry.inj same
  obtain ⟨_, mf, member, lpm⟩ := adds
  rw [request_eq] at member
  obtain ⟨f, listed, rfl⟩ := List.mem_map.mp member
  have none : ∀ f ∈ call.1.fields, FieldMatchType.isLpm f.2 = false := by
    cases call.1 <;> simp [fields, FieldMatchType.isLpm]
  rw [none f listed] at lpm
  cases lpm

theorem Classifier.param_named {e : Classifier} {p : Str × Str} (has : e.param = some p) :
    p.1 ≠ [] := by
  cases e with
  | vrf =>
      cases has
      exact of_decide_eq_true rfl
  | classId =>
      cases has
      exact of_decide_eq_true rfl
  | punt =>
      cases has
      exact of_decide_eq_true rfl
  | myMac => cases has

section
variable {p4info : ForwardingPipelineConfig} (wellFormed : WellFormed p4info) {s : Agent}
  (knows : Knows p4info s)
include wellFormed

theorem Classifier.Offers.actionObj {e : Classifier} {table : P4InfoTable} {action : P4InfoAction}
    (offers : e.Offers p4info table action) (mem : Memory) :
    AfiCap.actionObj action {} (convertAction mem (.action (getActionId p4info e.actionName)
      (e.param.toList.map fun p => ⟨getParamId p4info e.actionName p.1, p.2⟩))).2 =
        some (e.actionObj (mem.param 0)) := by
  unfold Classifier.actionObj
  cases has : e.param with
  | none => rfl
  | some p =>
      obtain ⟨param, listed, paramName⟩ := offers.param p has
      have paramId : action.actionParamName (getParamId p4info e.actionName p.1) = p.1 := by
        rw [← offers.actionName, ← paramName, getParamId_name wellFormed offers.hasAction listed,
          actionParamName_id wellFormed offers.hasAction listed]
      show AfiCap.actionObj action {} [⟨getParamId p4info e.actionName p.1,
        ⟨p.2, mem.param 0⟩⟩] = _
      rw [AfiCap.actionObj, paramId, if_neg (param_named has)]
      rfl

include knows

/-- The request asks for one entry, and its rule is that of the call. -/
theorem Classifier.Offers.requested {e : Classifier} {table : P4InfoTable} {action : P4InfoAction}
    (offers : e.Offers p4info table action) (six : e.SixBytes) {co : AfiCap}
    (found : capOf s e.tableName = some co) (mem : Memory) :
    ∃ request, Brcm.requested s (update p4info (e, mem)) = some request ∧
      request.Fits AfiWire.protobuf ∧ ∀ after, request.rule after = e.rule co after := by
  have known := offers.known wellFormed
  obtain ⟨m, made⟩ := (AfiCap.matchObj_some_iff table (passedFields mem table.id 0
    (fieldMatches (getMfId p4info e.tableName) e.fields)) {}).mpr fun q passed => by
      obtain ⟨f, _, bitWidth, found⟩ := passed_name known passed
      exact ⟨_, found⟩
  have tableId : getTableId p4info e.tableName = table.id := by
    rw [← offers.tableName, getTableId_name wellFormed offers.hasTable]
  have actionId : getActionId p4info e.actionName = action.id := by
    rw [← offers.actionName, getActionId_name wellFormed offers.hasAction]
  let a := e.actionObj (mem.param 0)
  refine ⟨⟨table.name, co, m, a⟩, ?_, ?_, ?_⟩
  · have request : e.request p4info = tableEntry p4info e.tableName
        (fieldMatches (getMfId p4info e.tableName) e.fields) e.actionName
          (e.param.toList.map fun p => ⟨getParamId p4info e.actionName p.1, p.2⟩) :=
      e.request_eq p4info
    apply requested_iff.mpr
    refine ⟨e.request p4info, table, action, rfl, ?_, ?_, ?_, ?_, rfl, ?_, ?_, ?_⟩
    · rw [request]
      rfl
    · rw [request]
      exact ⟨rfl, rfl⟩
    · rw [request]
      show s.p4Info.table? (getTableId p4info e.tableName) = _
      rw [tableId, knows.table table offers.hasTable]
    · rw [request]
      show s.p4Info.action? (getActionId p4info e.actionName) = _
      rw [actionId, knows.action action offers.hasAction]
    · rw [offers.tableName]
      exact found
    · rw [request]
      show AfiCap.matchObj table {} (passedFields mem (getTableId p4info e.tableName) 0 _) = _
      rw [tableId]
      exact made
    · rw [request]
      exact offers.actionObj wellFormed mem
  · have bound := matches_fit (matchObj_short made
      (passedFields_short (Classifier.fields_short six) 0))
    have name : table.name = e.tableName := offers.tableName
    refine ⟨?_, bound, actions_short a, ?_⟩
    · rw [name]
      exact e.named
    · rw [name]
      exact e.entry_short
  · intro after
    show BrcmCapEntry.bind co m a after = _
    rw [BrcmCapEntry.bind, offers.etype wellFormed made, offers.daddr wellFormed made,
      offers.smac wellFormed made six after]
    show (⟨_, _, [(_, (e.actionObj (mem.param 0)).vrf.getD 0, _)], _⟩ : Rule) = _
    rw [e.vrf_read]
    rfl

theorem Classifier.requests_made (memory : Nat → Nat → UInt8) (cap : Str → AfiCap)
    (calls : List (Classifier × Memory)) (six : ∀ call ∈ calls, call.1.SixBytes)
    (offers : ∀ call ∈ calls, ∃ table action, call.1.Offers p4info table action)
    (caps : ∀ call ∈ calls, capOf s call.1.tableName = some (cap call.1.tableName)) (addr : Nat) :
    (∀ request ∈ (calls.map (update p4info)).filterMap (Brcm.requested s),
        request.Fits AfiWire.protobuf) ∧
      madeRules memory addr ((calls.map (update p4info)).filterMap (Brcm.requested s)) =
        rules memory cap addr (calls.map Prod.fst) := by
  induction calls generalizing addr with
  | nil => exact ⟨fun _ member => absurd member List.not_mem_nil, rfl⟩
  | cons call rest ih =>
      rw [List.forall_mem_cons] at six offers caps
      obtain ⟨fits, made⟩ := ih six.2 offers.2 caps.2 (addr + 3)
      obtain ⟨table, action, offers⟩ := offers.1
      obtain ⟨request, asked, fit, rule⟩ :=
        offers.requested wellFormed knows six.1 caps.1 call.2
      rw [List.map_cons, List.filterMap_cons, asked]
      constructor
      · exact List.forall_mem_cons.mpr ⟨fit, fits⟩
      · show madeRules memory (addr + 3) _ ++ [request.rule (memory addr)] = _
        rw [made, rule, List.map_cons, rules]

/-- Over any sequence of calls that add entries to the tables with a `cap`, all of them
answered with OK, each entry becomes one rule, in the order of the calls: with its Ethernet
type, its destination address and, where it has them, its source MAC address and its VRF. -/
theorem classifiers_become_rules {pb : Protobuf} (roundTrips : pb.RoundTrips)
    (memory : Nat → Nat → UInt8) (apart : Apart s)
    (cap : Str → AfiCap) (calls : List (Classifier × Memory))
    (six : ∀ call ∈ calls, call.1.SixBytes)
    (offers : ∀ call ∈ calls, ∃ table action, call.1.Offers p4info table action)
    (caps : ∀ call ∈ calls, capOf s call.1.tableName = some (cap call.1.tableName))
    (fits : ∀ request ∈ (calls.map (Classifier.update p4info)).filterMap (Brcm.requested s),
      request.Fits pb) :
    ∃ t, run (writeStep pb Brcm.target) s
        (calls.map fun call => [Classifier.update p4info call]) = some t ∧
      Brcm.rules memory t.installed =
        Classifier.rules memory cap s.nextAddr (calls.map Prod.fst) ++
          Brcm.rules memory s.installed := by
  have made := (Classifier.requests_made wellFormed knows memory cap calls six offers caps
    s.nextAddr).2
  have noRoutes : ∀ round ∈ calls.map (Classifier.update p4info), NoRoute round :=
    List.forall_mem_map.mpr fun call _ => Classifier.noRoute p4info call
  obtain ⟨t, ran, added⟩ := updates_make_rules roundTrips memory
    (calls.map (Classifier.update p4info)) s apart noRoutes fits
  rw [made] at added
  refine ⟨t, writeSteps_of_run pb _ ?_, added⟩
  have flat : (calls.map fun call => [Classifier.update p4info call]).flatten =
      calls.map (Classifier.update p4info) := by
    rw [← List.flatMap_def, ← List.map_eq_flatMap]
  rw [flat, ran]

end
/-- The entries of the VRF classifier that the test of the spine adds. -/
def spineCalls : List (Classifier × Memory) :=
  [(.vrf 0x0800 Spine.first.1 0x0b0b0b01 5, {}), (.vrf 0x0800 Spine.second.1 0x0c0c0c01 5, {})]

theorem spine_offers : ∀ call ∈ spineCalls,
    call.1.Offers (spineConfig []) Spine.vrfTable Spine.setVrf := by
  have offers (etype : UInt16) (smacAddr : Str) (addr vrf : UInt32) :
      (Classifier.vrf etype smacAddr addr vrf).Offers (spineConfig []) Spine.vrfTable
        Spine.setVrf :=
    { hasTable := .head _
      tableName := rfl
      fields := by
        simp [Classifier.fields, Spine.vrfTable]
      etherType := by decide +kernel
      srcAddr := by decide +kernel
      dstAddr := by decide +kernel
      hasAction := .head _
      actionName := rfl
      param := fun _ same => Option.some.inj same ▸ ⟨_, .head _, rfl⟩ }
  exact List.forall_mem_cons.mpr ⟨offers _ _ _ _, List.forall_mem_singleton.mpr (offers _ _ _ _)⟩

theorem classifiers_become_rules_spine : ∃ s t co,
    run (Process.step AfiWire.protobuf Brcm.target) {} Spine.ops = some { agent := s } ∧
      run (writeStep AfiWire.protobuf Brcm.target) s
        (spineCalls.map fun call => [Classifier.update (spineConfig []) call]) = some t ∧
      Brcm.rules (fun _ _ => 0) t.installed =
        [Classifier.rule co (fun _ => 0) (.vrf 0x0800 Spine.second.1 0x0c0c0c01 5),
            Classifier.rule co (fun _ => 0) (.vrf 0x0800 Spine.first.1 0x0b0b0b01 5)] ++
          Brcm.rules (fun _ _ => 0) s.installed := by
  obtain ⟨s, reached, _, contents, info⟩ := Spine.ops_loaded
  have bound := (congrFun contents Spine.vrfTable.name).trans Spine.loaded_vrfTable
  obtain ⟨⟨addr, res, cls, co⟩, found, value⟩ := Option.map_eq_some_iff.mp bound
  obtain rfl : cls = .cap := congrArg Sigma.fst value
  have knows : Knows (spineConfig []) s :=
    { table := List.forall_mem_singleton.mpr ((info.table _).trans Spine.p4Info_table)
      action := List.forall_mem_singleton.mpr ((info.action _).trans Spine.p4Info_action) }
  have caps : ∀ call ∈ spineCalls, capOf s call.1.tableName = some co := by
    have cap : capOf s vrfTableName = some co := capOf_eq_some.mpr ⟨addr, res, found⟩
    exact List.forall_mem_cons.mpr ⟨cap, List.forall_mem_singleton.mpr cap⟩
  have six : ∀ call ∈ spineCalls, call.1.SixBytes :=
    List.forall_mem_cons.mpr ⟨rfl, List.forall_mem_singleton.mpr rfl⟩
  have offers : ∀ call ∈ spineCalls, ∃ table action,
      call.1.Offers (spineConfig []) table action :=
    fun call member => ⟨_, _, spine_offers call member⟩
  have fits := (Classifier.requests_made (spineConfig_wellFormed []) knows (fun _ _ => 0)
    (fun _ => co) spineCalls six offers caps 0).1
  obtain ⟨t, ran, made⟩ := classifiers_become_rules (spineConfig_wellFormed []) knows
    AfiWire.protobuf_roundTrips (fun _ _ => 0) (spine_apart info) (fun _ => co) spineCalls six
    offers caps fits
  exact ⟨s, t, co, reached, ran, made⟩

end JP4Agent.Controller
