import JP4Agent.AfiCapFields
import JP4Agent.Library.Folds

set_option autoImplicit false

namespace JP4Agent.AfiCap

/-- The name of a field in the dispatch. -/
def uintName : UintAttribute → Str
  | .sourcePort => str "standard_metadata.ingress_port"
  | .destinationPort => str "standard_metadata.egress_spec"
  | .ethertype => str "hdr.ethernet.ether_type"
  | .outerVlanId => str "hdr.vlan_tag[0].vid"
  | .outerVlanDot1p => str "hdr.vlan_tag[0].pcp"
  | .ipv4Ttl => str "hdr.ipv4_base.ttl"
  | .ipProtocol => str "hdr.ipv4_base.protocol"
  | .tos => str "hdr.ipv4_base.diffserv"
  | .sourceIpv4Address => str "hdr.ipv4_base.src_addr"
  | .destinationIpv4Address => str "hdr.ipv4_base.dst_addr"
  | .l4SourcePort => str "local_metadata.l4_src_port"
  | .l4DestinationPort => str "local_metadata.l4_dst_port"
  | .ingressClassId => str "local_metadata.class_id"
  | .virtualRoutingAndForwardingId => str "local_metadata.vrf_id"
  | .arpTargetIpv4Address => str "hdr.arp.target_proto_addr"
  | .icmpType => str "hdr.icmp.type"

def bytesName : BytesAttribute → Str
  | .sourceMacAddress => str "hdr.ethernet.src_addr"
  | .destinationMacAddress => str "hdr.ethernet.dst_addr"

theorem eq_name_of_ite {α : Type} (named : α → Str) (a : α) {name : Str} {field : α}
    {rest : Option α} (later : rest = some field → name = named field) :
    (if name = named a then some a else rest) = some field → name = named field := by
  intro found
  by_cases here : name = named a
  · rw [if_pos here] at found
    rw [here, Option.some.inj found]
  · rw [if_neg here] at found
    exact later found

theorem eq_name_of_skip {α : Type} (named : α → Str) {name skipped : Str} {field : α}
    {rest : Option α} (later : rest = some field → name = named field) :
    (if name = skipped then none else rest) = some field → name = named field := by
  intro found
  by_cases here : name = skipped
  · rw [if_pos here] at found
    cases found
  · rw [if_neg here] at found
    exact later found

theorem eq_uintName {name : Str} {field : UintAttribute}
    (found : uintAttribute name = some field) : name = uintName field := by
  unfold uintAttribute at found
  revert found
  apply eq_name_of_ite uintName .sourcePort
  apply eq_name_of_ite uintName .destinationPort
  apply eq_name_of_ite uintName .ethertype
  apply eq_name_of_ite uintName .outerVlanId
  apply eq_name_of_ite uintName .outerVlanDot1p
  apply eq_name_of_ite uintName .ipv4Ttl
  apply eq_name_of_ite uintName .ipProtocol
  apply eq_name_of_ite uintName .tos
  apply eq_name_of_ite uintName .sourceIpv4Address
  apply eq_name_of_ite uintName .destinationIpv4Address
  apply eq_name_of_skip uintName
  apply eq_name_of_skip uintName
  apply eq_name_of_ite uintName .l4SourcePort
  apply eq_name_of_ite uintName .l4DestinationPort
  apply eq_name_of_ite uintName .ingressClassId
  apply eq_name_of_ite uintName .virtualRoutingAndForwardingId
  apply eq_name_of_ite uintName .arpTargetIpv4Address
  apply eq_name_of_ite uintName .icmpType
  exact fun wrong => by cases wrong

theorem eq_bytesName {name : Str} {field : BytesAttribute}
    (found : bytesAttribute name = some field) : name = bytesName field := by
  unfold bytesAttribute at found
  revert found
  apply eq_name_of_ite bytesName .sourceMacAddress
  apply eq_name_of_ite bytesName .destinationMacAddress
  exact fun wrong => by cases wrong

/-- Two fields of the dispatch write to different attributes, whatever their values. -/
theorem setUintAttribute_comm (obj : AfiCapEntryMatch) (v m v' m' : UInt32)
    {field field' : UintAttribute} (different : field ≠ field') :
    setUintAttribute (setUintAttribute obj v m (some field)) v' m' (some field') =
      setUintAttribute (setUintAttribute obj v' m' (some field')) v m (some field) := by
  unfold setUintAttribute
  simp only [setUint]
  by_cases port : field = .l4SourcePort
  · simp only [if_pos port]
    have other : field' ≠ .l4SourcePort := fun same => different (port.trans same.symm)
    simp only [if_neg other, Function.update_idem]
    rw [Function.update_comm different]
  · simp only [if_neg port]
    by_cases port' : field' = .l4SourcePort
    · simp only [if_pos port', Function.update_idem]
      rw [Function.update_comm different]
    · simp only [if_neg port']
      rw [Function.update_comm different, Function.update_comm different]

theorem setBytesAttribute_comm (obj : AfiCapEntryMatch) (v m v' m' : Str)
    {field field' : BytesAttribute} (different : field ≠ field') :
    setBytesAttribute (setBytesAttribute obj v m (some field)) v' m' (some field') =
      setBytesAttribute (setBytesAttribute obj v' m' (some field')) v m (some field) := by
  simp only [setBytesAttribute, setBytes]
  rw [Function.update_comm different, Function.update_comm different]

def attributeName : Attribute → Str
  | .uint field => uintName field
  | .bytes field => bytesName field

theorem eq_attributeName {name : Str} {bitWidth : UInt32} {attr : Attribute}
    (found : attributeOf name bitWidth = some attr) : name = attributeName attr := by
  unfold attributeOf at found
  by_cases zero : bitWidth = 0
  · rw [if_pos zero] at found
    cases found
  · rw [if_neg zero] at found
    by_cases small : bitWidth ≤ 32
    · rw [if_pos small] at found
      obtain ⟨field, named, rfl⟩ := Option.map_eq_some_iff.mp found
      exact eq_uintName named
    · rw [if_neg small] at found
      by_cases large : bitWidth ≤ 64
      · rw [if_pos large] at found
        obtain ⟨field, named, rfl⟩ := Option.map_eq_some_iff.mp found
        exact eq_bytesName named
      · rw [if_neg large] at found
        cases found

/-- A round of the loop, by the attribute of the field. -/
def setTo (obj : AfiCapEntryMatch) (bitWidth : UInt32) (mf : AfiTEntryMatchField) :
    Option Attribute → AfiCapEntryMatch
  | none => obj
  | some (.uint field) =>
    setUintAttribute obj (readUint bitWidth mf.value)
      (if mf.type = .ternary then readUint bitWidth mf.mask else 0xffffffff) (some field)
  | some (.bytes field) =>
    setBytesAttribute obj mf.value.str
      (if mf.type = .ternary then mf.mask.str else List.replicate 6 0xff) (some field)

theorem setField_eq (obj : AfiCapEntryMatch) (name : Str) (bitWidth : UInt32)
    (mf : AfiTEntryMatchField) :
    setField obj name bitWidth mf = setTo obj bitWidth mf (attributeOf name bitWidth) := by
  unfold setField attributeOf
  by_cases zero : bitWidth = 0
  · rw [if_pos zero, if_pos zero]
    rfl
  · rw [if_neg zero, if_neg zero]
    by_cases small : bitWidth ≤ 32
    · rw [if_pos small, if_pos small]
      dsimp only
      rw [setUintField_eq]
      cases uintAttribute name <;> rfl
    · rw [if_neg small, if_neg small]
      by_cases large : bitWidth ≤ 64
      · rw [if_pos large, if_pos large]
        dsimp only
        rw [setBytesField_eq]
        cases bytesAttribute name <;> rfl
      · rw [if_neg large, if_neg large]
        rfl

theorem setTo_comm (obj : AfiCapEntryMatch) (bitWidth bitWidth' : UInt32)
    (mf mf' : AfiTEntryMatchField) {attr attr' : Attribute} (different : attr ≠ attr') :
    setTo (setTo obj bitWidth mf (some attr)) bitWidth' mf' (some attr') =
      setTo (setTo obj bitWidth' mf' (some attr')) bitWidth mf (some attr) := by
  cases attr with
  | uint field =>
      cases attr' with
      | uint field' =>
          exact setUintAttribute_comm _ _ _ _ _ fun same => different (congrArg _ same)
      | bytes field' =>
          simp only [setTo, setUintAttribute, setBytesAttribute, setBytes, setUint]
          by_cases port : field = .l4SourcePort
          · simp only [if_pos port]
          · simp only [if_neg port]
  | bytes field =>
      cases attr' with
      | uint field' =>
          simp only [setTo, setUintAttribute, setBytesAttribute, setBytes, setUint]
          by_cases port : field' = .l4SourcePort
          · simp only [if_pos port]
          · simp only [if_neg port]
      | bytes field' =>
          exact setBytesAttribute_comm _ _ _ _ _ fun same => different (congrArg _ same)

/-- The rounds for two fields with different names commute, whatever their widths. -/
theorem setField_comm (obj : AfiCapEntryMatch) {name name' : Str} (bitWidth bitWidth' : UInt32)
    (mf mf' : AfiTEntryMatchField) (different : name ≠ name') :
    setField (setField obj name bitWidth mf) name' bitWidth' mf' =
      setField (setField obj name' bitWidth' mf') name bitWidth mf := by
  simp only [setField_eq]
  cases found : attributeOf name bitWidth with
  | none => rfl
  | some attr =>
      cases found' : attributeOf name' bitWidth' with
      | none => rfl
      | some attr' =>
          apply setTo_comm
          intro same
          rw [eq_attributeName found, eq_attributeName found', same] at different
          exact different rfl

/-- What a parameter sets depends on its name only. -/
theorem setParam_cases (name : Str) :
    (name = str "vrf_id" ∧ ∀ obj value, setParam obj name value =
      { obj with vrf := some value.uint32.toUInt64 }) ∨
    (name = str "class_id_value" ∧ ∀ obj value, setParam obj name value =
      { obj with destinationClassId := some value.uint8.toUInt64 }) ∨
    (name = str "queue_id" ∧ ∀ obj value, setParam obj name value =
      { obj with cpuQueue := some value.uint8.toUInt64, copyToCpu := some true }) ∨
    ∀ obj value, setParam obj name value = obj := by
  by_cases vrf : name = str "vrf_id"
  · exact Or.inl ⟨vrf, fun obj value => by rw [setParam, if_pos vrf]⟩
  · by_cases classId : name = str "class_id_value"
    · exact Or.inr (Or.inl ⟨classId, fun obj value => by
        rw [setParam, if_neg vrf, if_pos classId]⟩)
    · by_cases queue : name = str "queue_id"
      · exact Or.inr (Or.inr (Or.inl ⟨queue, fun obj value => by
          rw [setParam, if_neg vrf, if_neg classId, if_pos queue]⟩))
      · exact Or.inr (Or.inr (Or.inr fun obj value => by
          rw [setParam, if_neg vrf, if_neg classId, if_neg queue]))

/-- Different parameters set different parts of the action. -/
theorem setParam_comm (obj : AfiCapEntryAction) {name name' : Str} (value value' : CStr)
    (different : name ≠ name') :
    setParam (setParam obj name value) name' value' =
      setParam (setParam obj name' value') name value := by
  rcases setParam_cases name with ⟨here, sets⟩ | ⟨here, sets⟩ | ⟨here, sets⟩ | sets
  · rcases setParam_cases name' with ⟨other, sets'⟩ | ⟨_, sets'⟩ | ⟨_, sets'⟩ | sets'
    · exact absurd (here.trans other.symm) different
    · simp only [sets, sets']
    · simp only [sets, sets']
    · simp only [sets, sets']
  · rcases setParam_cases name' with ⟨_, sets'⟩ | ⟨other, sets'⟩ | ⟨_, sets'⟩ | sets'
    · simp only [sets, sets']
    · exact absurd (here.trans other.symm) different
    · simp only [sets, sets']
    · simp only [sets, sets']
  · rcases setParam_cases name' with ⟨_, sets'⟩ | ⟨_, sets'⟩ | ⟨other, sets'⟩ | sets'
    · simp only [sets, sets']
    · simp only [sets, sets']
    · exact absurd (here.trans other.symm) different
    · simp only [sets, sets']
  · simp only [sets]

section
variable (table : P4InfoTable) (action : P4InfoAction)

/-- The name of a field, if it is one of the table's. -/
def fieldName (mf : AfiTEntryMatchField) : Option Str :=
  (table.matchFieldInfo mf.id).map Prod.fst

/-- The name of a parameter, if it is one of the action's. -/
def paramName (ae : AfiAEntry) : Option Str :=
  if action.actionParamName ae.id = [] then none else some (action.actionParamName ae.id)

theorem matchObj_eq_foldlM (mfs : List AfiTEntryMatchField) : ∀ obj : AfiCapEntryMatch,
    matchObj table obj mfs = mfs.foldlM (fun obj mf =>
      (table.matchFieldInfo mf.id).map fun info => setField obj info.1 info.2 mf) obj := by
  induction mfs with
  | nil => exact fun _ => rfl
  | cons mf rest ih =>
      intro obj
      rw [matchObj, List.foldlM_cons]
      cases table.matchFieldInfo mf.id with
      | none => rfl
      | some info => exact ih _

theorem actionObj_eq_foldlM (aes : List AfiAEntry) : ∀ obj : AfiCapEntryAction,
    actionObj action obj aes = aes.foldlM (fun obj ae =>
      (paramName action ae).map fun name => setParam obj name ae.value) obj := by
  induction aes with
  | nil => exact fun _ => rfl
  | cons ae rest ih =>
      intro obj
      rw [actionObj, List.foldlM_cons, paramName]
      by_cases unnamed : action.actionParamName ae.id = []
      · rw [if_pos unnamed, if_pos unnamed]
        rfl
      · rw [if_neg unnamed, if_neg unnamed]
        exact ih _

variable {table action}

theorem matchObj_perm {mfs mfs' : List AfiTEntryMatchField} (perm : mfs.Perm mfs')
    (distinct : (mfs.filterMap (fieldName table)).Nodup) (obj : AfiCapEntryMatch) :
    matchObj table obj mfs = matchObj table obj mfs' := by
  rw [matchObj_eq_foldlM, matchObj_eq_foldlM]
  apply foldlM_lookup_perm perm
  intro mf first mf' second different info info' known known' obj
  have names : info.1 ≠ info'.1 := by
    apply ne_of_nodup_filterMap distinct first second different
    · rw [fieldName, known]
      rfl
    · rw [fieldName, known']
      rfl
  exact setField_comm obj info.2 info'.2 mf mf' names

theorem actionObj_perm {aes aes' : List AfiAEntry} (perm : aes.Perm aes')
    (distinct : (aes.filterMap (paramName action)).Nodup) (obj : AfiCapEntryAction) :
    actionObj action obj aes = actionObj action obj aes' := by
  rw [actionObj_eq_foldlM, actionObj_eq_foldlM]
  apply foldlM_lookup_perm perm
  intro ae first ae' second different name name' known known' obj
  exact setParam_comm obj ae.value ae'.value
    (ne_of_nodup_filterMap distinct first second different known known')

end

/-- Neither the order of the match fields nor that of the parameters makes a difference to
what is returned, to the objects or to the agent. -/
theorem createChildJsonRes_perm (pb : Protobuf) (tId aId : UInt32) (s : Agent)
    {mfs mfs' : List AfiTEntryMatchField} {aes aes' : List AfiAEntry}
    (fieldOrder : mfs.Perm mfs') (paramOrder : aes.Perm aes')
    (fields : ∀ table, s.p4Info.table? tId = some table →
      (mfs.filterMap (fieldName table)).Nodup)
    (params : ∀ action, s.p4Info.action? aId = some action →
      (aes.filterMap (paramName action)).Nodup) :
    createChildJsonRes pb tId aId mfs aes s = createChildJsonRes pb tId aId mfs' aes' s := by
  have same (table : P4InfoTable) (action : P4InfoAction)
      (hasTable : s.p4Info.table? tId = some table)
      (hasAction : s.p4Info.action? aId = some action) :
      childObjs pb table action mfs aes = childObjs pb table action mfs' aes' := by
    unfold childObjs
    rw [matchObj_perm fieldOrder (fields table hasTable),
      actionObj_perm paramOrder (params action hasAction)]
  have table (id : UInt32) (agent : Agent) : p4InfoTable id agent =
      .ok (agent.p4Info.table? id) { agent with p4Info := agent.p4Info.lookedUp id } := rfl
  have action (id : UInt32) (agent : Agent) : p4InfoAction id agent =
      .ok (agent.p4Info.action? id) { agent with p4Info := agent.p4Info.lookedUp id } := rfl
  unfold createChildJsonRes
  rw [bind_of_ok (table tId s), bind_of_ok (table tId s)]
  cases hasTable : s.p4Info.table? tId with
  | none => rfl
  | some found =>
      dsimp only
      rw [bind_of_ok (action aId _), bind_of_ok (action aId _)]
      dsimp only
      rw [P4Info.action?_lookedUp]
      cases hasAction : s.p4Info.action? aId with
      | none => rfl
      | some found' =>
          dsimp only
          rw [same found found' hasTable hasAction]

/-- Two match fields of the class id table, in both orders. -/
theorem createChildJsonRes_perm_classId :
    let p4Info := (({} : P4Info).insert2IdMap
      (.action P4RuntimeServiceImpl.setClassId)).insert2IdMap
        (.table P4RuntimeServiceImpl.classIdTable)
    let s : Agent := { p4Info := p4Info }
    let protocol : AfiTEntryMatchField := ⟨7, .ternary, ⟨[6], fun _ => 0⟩, 0, ⟨[0xff], fun _ => 0⟩⟩
    let port : AfiTEntryMatchField := ⟨8, .exact, ⟨[0, 179], fun _ => 0⟩, 0, ⟨[], fun _ => 0⟩⟩
    createChildJsonRes AfiWire.protobuf 33554433 16777218 [protocol, port]
        [⟨1, ⟨[7], fun _ => 0⟩⟩] s =
      createChildJsonRes AfiWire.protobuf 33554433 16777218 [port, protocol]
        [⟨1, ⟨[7], fun _ => 0⟩⟩] s := by
  intro p4Info s protocol port
  have hasTable : s.p4Info.table? 33554433 = some P4RuntimeServiceImpl.classIdTable := by
    rw [P4Info.table?, P4Info.p4InfoResource_insert2IdMap]
    rfl
  have hasAction : s.p4Info.action? 16777218 = some P4RuntimeServiceImpl.setClassId := by
    rw [P4Info.action?, P4Info.p4InfoResource_insert2IdMap, if_neg (by decide),
      P4Info.p4InfoResource_insert2IdMap]
    rfl
  apply createChildJsonRes_perm
  · exact List.Perm.swap port protocol []
  · exact List.Perm.refl _
  · intro table found
    rw [hasTable, Option.some.injEq] at found
    rw [← found]
    decide
  · intro action found
    rw [hasAction, Option.some.injEq] at found
    rw [← found]
    decide

end JP4Agent.AfiCap
