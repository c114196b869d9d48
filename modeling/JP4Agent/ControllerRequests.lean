import JP4Agent.AfiFieldWidths
import JP4Agent.AfiReachable
import JP4Agent.P4RuntimePipelineReplace

set_option autoImplicit false

namespace JP4Agent.Controller
open Agent Afi AfiDevice P4 P4RuntimeServiceImpl

/-- The types that `uint2Str` and `addTEntryMF` are instantiated with. -/
inductive Uint where
  | u8 (i : UInt8)
  | u16 (i : UInt16)
  | u32 (i : UInt32)
  | u64 (i : UInt64)

/-- `c[j] = i & 0xff`, from `j` down to 0. -/
def lowBytes : Nat → UInt64 → Str → Str
  | 0, i, c => i.toUInt8 :: c
  | j + 1, i, c => lowBytes j (i >>> 8) (i.toUInt8 :: c)

def uint2Str : Uint → Str
  | .u8 i => [i]
  | .u16 i => [netHigh i, netLow i]
  | .u32 i => [netHigh (i >>> 16).toUInt16, netLow (i >>> 16).toUInt16, netHigh i.toUInt16,
      netLow i.toUInt16]
  | .u64 i => lowBytes 5 i []

def Uint.zero : Uint → Uint
  | .u8 _ => .u8 0
  | .u16 _ => .u16 0
  | .u32 _ => .u32 0
  | .u64 _ => .u64 0

/-- `mfMask <<= 1; mfMask |= 1` -/
def Uint.shiftIn : Uint → Uint
  | .u8 mask => .u8 (mask <<< 1 ||| 1)
  | .u16 mask => .u16 (mask <<< 1 ||| 1)
  | .u32 mask => .u32 (mask <<< 1 ||| 1)
  | .u64 mask => .u64 (mask <<< 1 ||| 1)

/-- The mask that `addTEntryMF` makes in the type of `mf`. -/
def mfMask (mf : Uint) (bitWidth : Nat) : Uint := Uint.shiftIn^[bitWidth] mf.zero

section
variable (p4info : ForwardingPipelineConfig)

def getTableId (tName : Str) : UInt32 :=
  ((p4info.tables.find? fun table => table.name = tName).map (·.id)).getD 0

def getActionId (aName : Str) : UInt32 :=
  ((p4info.actions.find? fun action => action.name = aName).map (·.id)).getD 0

/-- The `-1` becomes the largest id. -/
def getMfId (tName mfName : Str) : UInt32 :=
  (p4info.tables.findSome? fun table =>
    if table.name = tName then
      (table.matchFields.find? fun mf => mf.name = mfName).map (·.id)
    else none).getD 0xffffffff

def getParamId (aName paramName : Str) : UInt32 :=
  (p4info.actions.findSome? fun action =>
    if action.name = aName then
      (action.params.find? fun param => param.name = paramName).map (·.id)
    else none).getD 0xffffffff

/-- What the requests have in common. -/
def tableEntry (tName : Str) (fieldMatches : List FieldMatch) (aName : Str)
    (params : List ActionParam) : TableEntry where
  tableId := getTableId p4info tName
  fieldMatches := fieldMatches
  action := .action (getActionId p4info aName) params
  isDefaultAction := false
  hasMeterConfig := false
  hasCounterData := false

def addTEntryMF (tName mfType mfName : Str) (mf : Uint) (bitWidth : Nat) : FieldMatch where
  fieldId := getMfId p4info tName mfName
  type := if mfType = str "ternary" then .ternary (uint2Str mf) (uint2Str (mfMask mf bitWidth))
    else .notSet

def addTEntryAction (aName afName : Str) (af : Uint) : ActionParam where
  paramId := getParamId p4info aName afName
  value := uint2Str af

def controllerAddRouteEntry (dAddr : UInt32) (pLen : UInt16) (nAddr : UInt32) (oPort : UInt16) :
    TableEntry :=
  tableEntry p4info (str "ipv4_lpm")
    [⟨getMfId p4info (str "ipv4_lpm") (str "ipv4.dstAddr"),
      .lpm (uint2Str (.u32 dAddr)) pLen.toUInt32.toInt32⟩]
    (str "set_nhop")
    [⟨getParamId p4info (str "set_nhop") (str "nhop_ipv4"), uint2Str (.u32 nAddr)⟩,
      ⟨getParamId p4info (str "set_nhop") (str "port"), uint2Str (.u16 oPort)⟩]

def vrfTableName : Str := str "ingress.vrf.vrf_classifier_table"

def controllerAddVrfEntry (etype : UInt16) (smacAddr : Str) (addr vrf : UInt32) : TableEntry :=
  tableEntry p4info vrfTableName
    [⟨getMfId p4info vrfTableName (str "hdr.ethernet.ether_type"),
        .ternary (uint2Str (.u16 etype)) (uint2Str (.u16 0xffff))⟩,
      ⟨getMfId p4info vrfTableName (str "hdr.ethernet.src_addr"),
        .ternary smacAddr (List.replicate 6 0xff)⟩,
      ⟨getMfId p4info vrfTableName (str "hdr.ipv4_base.dst_addr"),
        .ternary (uint2Str (.u32 addr)) (uint2Str (.u32 0xffffffff))⟩]
    (str "ingress.vrf.set_vrf")
    [⟨getParamId p4info (str "ingress.vrf.set_vrf") (str "vrf_id"), uint2Str (.u32 vrf)⟩]

def classIdTableName : Str := str "ingress.class_id.class_id_assignment_table"

def controllerAddClassIdEntry (vid : UInt16) (pcp : UInt8) (etype : UInt16) (proto ttl : UInt8)
    (dAddr : UInt32) (sPort dPort : UInt16) (classId : UInt8) : TableEntry :=
  tableEntry p4info classIdTableName
    [⟨getMfId p4info classIdTableName (str "hdr.vlan_tag[0].vid"),
        .ternary (uint2Str (.u16 vid)) (uint2Str (.u16 0x0fff))⟩,
      ⟨getMfId p4info classIdTableName (str "hdr.vlan_tag[0].pcp"),
        .ternary (uint2Str (.u8 pcp)) (uint2Str (.u8 0x07))⟩,
      ⟨getMfId p4info classIdTableName (str "hdr.ethernet.ether_type"),
        .exact (uint2Str (.u16 etype))⟩,
      ⟨getMfId p4info classIdTableName (str "hdr.ipv4_base.ttl"),
        .ternary (uint2Str (.u8 ttl)) (uint2Str (.u8 0xff))⟩,
      ⟨getMfId p4info classIdTableName (str "hdr.ipv4_base.protocol"),
        .ternary (uint2Str (.u8 proto)) (uint2Str (.u8 0xff))⟩,
      ⟨getMfId p4info classIdTableName (str "hdr.ipv4_base.dst_addr"),
        .ternary (uint2Str (.u32 dAddr)) (uint2Str (.u32 0xffffffff))⟩,
      ⟨getMfId p4info classIdTableName (str "local_metadata.l4_src_port"),
        .ternary (uint2Str (.u16 sPort)) (uint2Str (.u16 0xffff))⟩,
      ⟨getMfId p4info classIdTableName (str "local_metadata.l4_dst_port"),
        .ternary (uint2Str (.u16 dPort)) (uint2Str (.u16 0xffff))⟩]
    (str "ingress.class_id.set_class_id")
    [⟨getParamId p4info (str "ingress.class_id.set_class_id") (str "class_id_value"),
      uint2Str (.u8 classId)⟩]

def controllerAddMyMacEntry (mac : Str) : TableEntry :=
  tableEntry p4info (str "ingress.l3_admit.dst_mac_classifier_table")
    [⟨getMfId p4info (str "ingress.l3_admit.dst_mac_classifier_table")
      (str "hdr.ethernet.dst_addr"), .exact mac⟩]
    (str "ingress.l3_admit.set_l3_admit") []

/-- The table of the routes of this type; the name stays empty for any other type. -/
def rtEncapTableName (type : Str) : Str :=
  if type = str "override" then str "ingress.l3_fwd.l3_ipv4_override_table"
  else if type = str "vrf" then str "ingress.l3_fwd.l3_ipv4_vrf_table"
  else if type = str "fallback" then str "ingress.l3_fwd.l3_ipv4_fallback_table"
  else []

def setNexthopName : Str := str "ingress.l3_fwd.set_nexthop"

def controllerAddRtEncapEntry (dAddr : UInt32) (pLen : UInt16) (vrf : UInt32) (smac dmac : UInt64)
    (oPort : UInt16) (l3ClassId : UInt8) (type : Str) : TableEntry :=
  let tName := rtEncapTableName type
  let dst : FieldMatch := ⟨getMfId p4info tName (str "hdr.ipv4_base.dst_addr"),
    .lpm (uint2Str (.u32 dAddr)) pLen.toUInt32.toInt32⟩
  let vrf : FieldMatch := ⟨getMfId p4info tName (str "local_metadata.vrf_id"),
    .exact (uint2Str (.u32 vrf))⟩
  tableEntry p4info tName (if type = str "vrf" then [dst, vrf] else [dst]) setNexthopName
    [⟨getParamId p4info setNexthopName (str "port"), uint2Str (.u16 oPort)⟩,
      ⟨getParamId p4info setNexthopName (str "smac"), uint2Str (.u64 smac)⟩,
      ⟨getParamId p4info setNexthopName (str "dmac"), uint2Str (.u64 dmac)⟩,
      ⟨getParamId p4info setNexthopName (str "l3_class_id"), uint2Str (.u8 l3ClassId)⟩]

def puntTableName : Str := str "ingress.punt.punt_table"
def puntActionName : Str := str "ingress.punt.set_queue_and_clone_to_cpu"

/-- The egress port is not part of the entry. -/
def controllerAddPuntEntry (iport : UInt32) (etype : UInt16) (dmac : UInt64) (tos ttl : UInt8)
    (saddr daddr : UInt32) (proto iClassId : UInt8) (vrfId : UInt32) (qId : UInt8) : TableEntry :=
  let mf (mfName : Str) (mf : Uint) (bitWidth : Nat) : FieldMatch :=
    addTEntryMF p4info puntTableName (str "ternary") mfName mf bitWidth
  tableEntry p4info puntTableName
    [mf (str "standard_metadata.ingress_port") (.u32 iport) 32,
      mf (str "hdr.ethernet.ether_type") (.u16 etype) 16,
      mf (str "hdr.ethernet.dst_addr") (.u64 dmac) 64,
      mf (str "hdr.ipv4_base.diffserv") (.u8 tos) 8,
      mf (str "hdr.ipv4_base.ttl") (.u8 ttl) 8,
      mf (str "hdr.ipv4_base.src_addr") (.u32 saddr) 32,
      mf (str "hdr.ipv4_base.dst_addr") (.u32 daddr) 32,
      mf (str "hdr.ipv4_base.protocol") (.u8 proto) 8,
      mf (str "local_metadata.class_id") (.u8 iClassId) 8,
      mf (str "local_metadata.vrf_id") (.u32 vrfId) 32]
    puntActionName [addTEntryAction p4info puntActionName (str "queue_id") (.u8 qId)]

/-- Ids and names stand for one thing each. -/
structure WellFormed : Prop where
  ids : (p4info.resources.map P4InfoResource.id).Nodup
  tableNames : (p4info.tables.map P4InfoTable.name).Nodup
  actionNames : (p4info.actions.map P4InfoAction.name).Nodup
  fieldIds : ∀ table ∈ p4info.tables, (table.matchFields.map P4InfoMatchField.id).Nodup
  fieldNames : ∀ table ∈ p4info.tables, (table.matchFields.map P4InfoMatchField.name).Nodup
  paramIds : ∀ action ∈ p4info.actions, (action.params.map P4InfoActionParam.id).Nodup
  paramNames : ∀ action ∈ p4info.actions, (action.params.map P4InfoActionParam.name).Nodup

/-- The agent finds the tables and actions under their ids. -/
structure Knows (s : Agent) : Prop where
  table : ∀ table ∈ p4info.tables, s.p4Info.table? table.id = some table
  action : ∀ action ∈ p4info.actions, s.p4Info.action? action.id = some action

/-- What the controller names is what the agent finds for the id it is sent. -/
structure Understands (s : Agent) : Prop where
  table : ∀ table ∈ p4info.tables, s.p4Info.table? (getTableId p4info table.name) = some table
  action : ∀ action ∈ p4info.actions,
    s.p4Info.action? (getActionId p4info action.name) = some action
  field : ∀ table ∈ p4info.tables, ∀ field ∈ table.matchFields,
    table.matchFieldInfo (getMfId p4info table.name field.name) =
      some (field.name, field.bitwidth.toUInt32)
  param : ∀ action ∈ p4info.actions, ∀ param ∈ action.params,
    action.actionParamName (getParamId p4info action.name param.name) = param.name

end

section
variable {α β γ : Type} [DecidableEq β] {f : α → β} {l : List α} {a : α}

/-- A key that no two members share finds its member. -/
theorem find?_of_nodup (nodup : (l.map f).Nodup) (member : a ∈ l) :
    l.find? (fun b => f b = f a) = some a := by
  induction l with
  | nil => exact absurd member List.not_mem_nil
  | cons b rest ih =>
      rw [List.map_cons, List.nodup_cons] at nodup
      rw [List.find?_cons]
      by_cases same : f b = f a
      · rcases List.mem_cons.mp member with rfl | later
        · simp
        · exact absurd (List.mem_map_of_mem later) (same ▸ nodup.1)
      · rcases List.mem_cons.mp member with rfl | later
        · exact absurd rfl same
        · simpa [same] using ih nodup.2 later

theorem findSome?_of_nodup (nodup : (l.map f).Nodup) (member : a ∈ l) (g : α → Option γ) :
    l.findSome? (fun b => if f b = f a then g b else none) = g a := by
  induction l with
  | nil => exact absurd member List.not_mem_nil
  | cons b rest ih =>
      rw [List.map_cons, List.nodup_cons] at nodup
      rw [List.findSome?_cons]
      rcases List.mem_cons.mp member with rfl | later
      · have others : rest.findSome? (fun b => if f b = f a then g b else none) = none := by
          rw [List.findSome?_eq_none_iff]
          intro b listed
          rw [if_neg]
          exact fun same => nodup.1 (same ▸ List.mem_map_of_mem listed)
        rw [if_pos rfl, others]
        cases g a <;> rfl
      · have other : f b ≠ f a := fun same => nodup.1 (same ▸ List.mem_map_of_mem later)
        rw [if_neg other]
        exact ih nodup.2 later

end

section
variable {p4info : ForwardingPipelineConfig} (wellFormed : WellFormed p4info)
include wellFormed

theorem getTableId_name {table : P4InfoTable} (member : table ∈ p4info.tables) :
    getTableId p4info table.name = table.id := by
  rw [getTableId, find?_of_nodup wellFormed.tableNames member]
  rfl

theorem getActionId_name {action : P4InfoAction} (member : action ∈ p4info.actions) :
    getActionId p4info action.name = action.id := by
  rw [getActionId, find?_of_nodup wellFormed.actionNames member]
  rfl

theorem getMfId_name {table : P4InfoTable} (member : table ∈ p4info.tables)
    {field : P4InfoMatchField} (listed : field ∈ table.matchFields) :
    getMfId p4info table.name field.name = field.id := by
  rw [getMfId, findSome?_of_nodup wellFormed.tableNames member,
    find?_of_nodup (wellFormed.fieldNames table member) listed]
  rfl

theorem getParamId_name {action : P4InfoAction} (member : action ∈ p4info.actions)
    {param : P4InfoActionParam} (listed : param ∈ action.params) :
    getParamId p4info action.name param.name = param.id := by
  rw [getParamId, findSome?_of_nodup wellFormed.actionNames member,
    find?_of_nodup (wellFormed.paramNames action member) listed]
  rfl

theorem matchFieldInfo_id {table : P4InfoTable} (member : table ∈ p4info.tables)
    {field : P4InfoMatchField} (listed : field ∈ table.matchFields) :
    table.matchFieldInfo field.id = some (field.name, field.bitwidth.toUInt32) := by
  have found : table.matchFields.find? (fun mf => mf.id == field.id) = some field := by
    simpa [beq_eq_decide] using find?_of_nodup (wellFormed.fieldIds table member) listed
  rw [P4InfoTable.matchFieldInfo, found]
  rfl

theorem actionParamName_id {action : P4InfoAction} (member : action ∈ p4info.actions)
    {param : P4InfoActionParam} (listed : param ∈ action.params) :
    action.actionParamName param.id = param.name := by
  have found : action.params.find? (fun p => p.id == param.id) = some param := by
    simpa [beq_eq_decide] using find?_of_nodup (wellFormed.paramIds action member) listed
  rw [P4InfoAction.actionParamName, found]

/-- An agent that finds tables and actions by id understands the names of the controller. -/
theorem Knows.understands {s : Agent} (knows : Knows p4info s) : Understands p4info s where
  table table member := by
    rw [getTableId_name wellFormed member, knows.table table member]
  action action member := by
    rw [getActionId_name wellFormed member, knows.action action member]
  field table member field listed := by
    rw [getMfId_name wellFormed member listed, matchFieldInfo_id wellFormed member listed]
  param action member param listed := by
    rw [getParamId_name wellFormed member listed, actionParamName_id wellFormed member listed]

theorem lastOf_resource {res : P4InfoResource} (member : res ∈ p4info.resources) :
    PtrMap.lastOf res.id (p4info.resources.map fun res => (res.id, res)) = some res := by
  have keys : (p4info.resources.map fun res => (res.id, res)).map Prod.fst =
      p4info.resources.map P4InfoResource.id := by
    rw [List.map_map]
    rfl
  cases last : PtrMap.lastOf res.id (p4info.resources.map fun res => (res.id, res)) with
  | none =>
      rw [PtrMap.lastOf_eq_none, keys] at last
      exact absurd (List.mem_map_of_mem member) last
  | some other =>
      obtain ⟨res', listed, same⟩ := List.mem_map.mp (PtrMap.lastOf_mem last)
      obtain ⟨ids, rfl⟩ := Prod.mk.inj same
      rw [List.inj_on_of_nodup_map wellFormed.ids listed member ids]

/-- Once its resources are inserted the agent knows them, whatever it knew before. -/
theorem knows_withResources (s : Agent) : Knows p4info (s.withResources p4info) := by
  have resource (res : P4InfoResource) (member : res ∈ p4info.resources) :
      (s.withResources p4info).p4Info.p4InfoResource res.id = some res := by
    show (s.p4Info.insertAll p4info.resources).p4InfoResource res.id = some res
    rw [P4Info.p4InfoResource_insertAll, lastOf_resource wellFormed member, Option.some_or]
  constructor
  · intro table member
    have found := resource (.table table)
      (List.mem_append_right _ (List.mem_map_of_mem member))
    exact Option.bind_eq_some_iff.mpr ⟨_, found, rfl⟩
  · intro action member
    have found := resource (.action action)
      (List.mem_append_left _ (List.mem_map_of_mem member))
    exact Option.bind_eq_some_iff.mpr ⟨_, found, rfl⟩

theorem Knows.insert {s : Agent} (knows : Knows p4info s) {res : P4InfoResource}
    (member : res ∈ p4info.resources) :
    Knows p4info
      { s with p4Info := (s.p4Info.insert2IdMap res).insert2NameMap res } := by
  -- a resource of the pipeline is only replaced by itself
  have resource (other : P4InfoResource) (listed : other ∈ p4info.resources) :
      ((s.p4Info.insert2IdMap res).insert2NameMap res).p4InfoResource other.id =
        if res.id = other.id then some other else s.p4Info.p4InfoResource other.id := by
    rw [P4Info.p4InfoResource_insert2NameMap, P4Info.p4InfoResource_insert2IdMap]
    by_cases same : res.id = other.id
    · rw [if_pos same, if_pos same, List.inj_on_of_nodup_map wellFormed.ids member listed same]
    · rw [if_neg same, if_neg same]
  constructor
  · intro table listed
    have found := resource (.table table)
      (List.mem_append_right _ (List.mem_map_of_mem listed))
    rw [P4Info.table?]
    show Option.bind (P4Info.p4InfoResource _ (P4InfoResource.table table).id) _ = _
    rw [found]
    split
    · rfl
    · exact knows.table table listed
  · intro action listed
    have found := resource (.action action)
      (List.mem_append_left _ (List.mem_map_of_mem listed))
    rw [P4Info.action?]
    show Option.bind (P4Info.p4InfoResource _ (P4InfoResource.action action).id) _ = _
    rw [found]
    split
    · rfl
    · exact knows.action action listed

end

theorem Knows.congr {p4info : ForwardingPipelineConfig} {s t : Agent} (knows : Knows p4info s)
    (same : SameInfo s t) : Knows p4info t where
  table table member := (same.table table.id).trans (knows.table table member)
  action action member := (same.action action.id).trans (knows.action action member)

section
variable (pb : Protobuf) (target : Target)

theorem handleAfiJsonObject_info (cfgObj : Option AfiJsonResource) (pipelineStage : Bool)
    (s : Agent) :
    Ends (handleAfiJsonObject pb target cfgObj pipelineStage) s (fun _ t => SameInfo s t)
      (fun _ t => SameInfo s t) := by
  cases cfgObj with
  | none => exact ends_throw (SameInfo.refl s)
  | some res =>
      apply (handleAfiJsonObject_ends pb target res pipelineStage s).mono
      · intro r t post
        rcases post with ⟨_, _, rfl⟩ | ⟨_, _, _, stored, _⟩
        · exact SameInfo.refl t
        · exact stored.toSameInfo
      · intro e t failed
        rw [failed.1]
        exact SameInfo.refl s

theorem handleAfiJsonObjects_info (pipelineStage : Bool) (cfg : List (Option AfiJsonResource)) :
    ∀ s : Agent, Ends (handleAfiJsonObjects pb target pipelineStage cfg) s
      (fun _ t => SameInfo s t) (fun _ t => SameInfo s t) := by
  induction cfg with
  | nil => exact fun s => ends_pure (SameInfo.refl s)
  | cons cfgObj rest ih =>
      intro s
      apply ends_bind
      apply (handleAfiJsonObject_info pb target cfgObj pipelineStage s).mono
      · intro r t first
        cases r with
        | false => exact ends_pure first
        | true => exact (ih t).mono (fun _ _ => first.trans) fun _ _ => first.trans
      · exact fun _ _ failed => failed

theorem handlePipelineConfig_info (cfgRoot : List (Option AfiJsonResource)) (s : Agent) :
    Ends (handlePipelineConfig pb target cfgRoot) s (fun _ t => SameInfo s t)
      (fun e t => e = .json → SameInfo s t) := by
  apply ends_bind
  apply (handleAfiJsonObjects_info pb target true cfgRoot s).mono
  · intro r t first
    cases r with
    | false => exact ends_pure first
    | true =>
        apply ends_bind
        apply (bindAfiObjects_ends target t).mono
        · exact fun _ u post => ends_pure (first.trans post.1.toSameInfo)
        · intro e u failed json
          rw [failed.1] at json
          cases json
  · exact fun _ _ failed _ => failed

/-- Operations that insert nothing else into the maps keep what the agent knows. -/
theorem Knows.program {p4info : ForwardingPipelineConfig} (wellFormed : WellFormed p4info)
    {s : Agent} (knows : Knows p4info s) (op : AgentOp)
    (own : ∀ res, op = .p4InfoResource res → res ∈ p4info.resources) :
    Ends (op.program pb target) s (fun _ t => Knows p4info t)
      (fun e t => e = .json → Knows p4info t) := by
  cases op with
  | p4InfoResource res => exact ends_modify (knows.insert wellFormed (own res rfl))
  | handlePipelineConfig cfgRoot =>
      apply ends_map
      exact (handlePipelineConfig_info pb target cfgRoot s).mono (fun _ _ => knows.congr)
        fun _ _ failed json => knows.congr (failed json)
  | addAfiTree =>
      apply ends_map
      exact (handleAfiJsonObject_info pb target _ false s).mono (fun _ _ => knows.congr)
        fun _ _ failed _ => knows.congr failed
  | addEntry =>
      apply ends_map
      exact (handleAfiJsonObject_info pb target _ false s).mono (fun _ _ => knows.congr)
        fun _ _ failed _ => knows.congr failed
  | afiAddObjEntry tId aId mfs aes =>
      apply ends_map
      apply afiAddObjEntry_ends
      · exact fun t _ unchanged _ => knows.congr unchanged.toSameInfo
      · intro eObjs t _ looked
        have first := knows.congr looked.toSameInfo
        exact (handleAfiJsonObjects_info pb target false _ t).mono (fun _ _ => first.congr)
          fun _ _ failed _ => first.congr failed
  | getAfiObject name =>
      apply ends_map
      rw [Ends, getAfiObject_run]
      exact knows.congr (same_touch s name).toSameInfo
  | showAfiObjects =>
      apply ends_map
      apply (CLIService.showAfiObjects_ends s).mono
      · intro _ t same
        rwa [same]
      · intro e t failed json
        rw [failed.2.1] at json
        cases json

/-- A process that has crashed does not come back. -/
theorem run_crashed {r : Process} {e : Fault} (dead : r.crashed = some e) (ops : List AgentOp)
    (u : Agent) : run (Process.step pb target) r ops ≠ some { agent := u } := by
  intro ran
  cases ops with
  | nil =>
      cases ran
      cases dead
  | cons op rest =>
      obtain ⟨_, taken, _⟩ := run_cons ran
      simp only [Process.step, dead] at taken
      cases taken

theorem Knows.run {p4info : ForwardingPipelineConfig} (wellFormed : WellFormed p4info)
    (ops : List AgentOp) : ∀ {s u : Agent}, Knows p4info s →
      (∀ res, .p4InfoResource res ∈ ops → res ∈ p4info.resources) →
      run (Process.step pb target) { agent := s } ops = some { agent := u } → Knows p4info u := by
  induction ops with
  | nil =>
      intro s u knows _ ran
      cases ran
      exact knows
  | cons op rest ih =>
      intro s u knows own ran
      obtain ⟨r, taken, more⟩ := run_cons ran
      have ends := knows.program pb target wellFormed op
        fun res same => own res (same ▸ List.mem_cons_self)
      have others : ∀ res, .p4InfoResource res ∈ rest → res ∈ p4info.resources :=
        fun res member => own res (List.mem_cons_of_mem _ member)
      simp only [Process.step] at taken
      cases ended : op.program pb target s with
      | ok r' t =>
          simp only [ended, Option.some.injEq] at taken
          rw [← taken] at more
          exact ih (ends.of_ok ended) others more
      | error e t =>
          by_cases json : e = .json
          · simp only [ended, json, Option.some.injEq] at taken
            rw [← taken] at more
            exact ih (ends.of_error ended json) others more
          · have dead : r.crashed = some e := by
              cases e with
              | json => exact absurd rfl json
              | _ =>
                  simp only [ended, Option.some.injEq] at taken
                  rw [← taken]
            exact absurd more (run_crashed pb target dead rest u)

/-- From the request on that sets the pipeline, whatever operations follow, the agent
understands every name that the controller puts into an entry: as long as it lives, and
nothing but this pipeline is inserted again. -/
theorem names_understood (parsers : Parsers) {p4info : ForwardingPipelineConfig}
    (wellFormed : WellFormed p4info) (s t : Agent) (status : Status)
    (set : setForwardingPipelineConfig parsers pb target p4info s = .ok status t)
    (ops : List AgentOp) (own : ∀ res, .p4InfoResource res ∈ ops → res ∈ p4info.resources)
    (u : Agent) (ran : run (Process.step pb target) { agent := t } ops = some { agent := u }) :
    Understands p4info u := by
  have inserted := knows_withResources wellFormed s
  have knows : Knows p4info t := by
    rw [setForwardingPipelineConfig_run] at set
    cases read : parsers.json (parsers.p4DeviceConfig p4info.p4DeviceConfig).2 with
    | none =>
        rw [read] at set
        cases set
    | some cfgRoot =>
        have info := handlePipelineConfig_info pb target cfgRoot (s.withResources p4info)
        rw [read] at set
        dsimp only at set
        cases handled : handlePipelineConfig pb target cfgRoot (s.withResources p4info) with
        | ok r t' =>
            rw [handled] at set
            cases set
            exact inserted.congr (info.of_ok handled)
        | error e t' =>
            rw [handled] at set
            cases set
  exact (knows.run pb target wellFormed ops own ran).understands wellFormed

end

theorem spineConfig_wellFormed (cfg : List AfiJsonResource) : WellFormed (spineConfig cfg) where
  ids := (by decide : [Spine.setVrf.id, Spine.vrfTable.id].Nodup)
  tableNames := List.nodup_singleton _
  actionNames := List.nodup_singleton _
  fieldIds := List.forall_mem_singleton.mpr (by decide)
  fieldNames := List.forall_mem_singleton.mpr (by decide)
  paramIds := List.forall_mem_singleton.mpr (by decide)
  paramNames := List.forall_mem_singleton.mpr (by decide)

/-- The table is inserted once more after the pipeline is set. -/
theorem names_understood_spine : ∃ t u,
    setForwardingPipelineConfig (arrayParsers []) AfiWire.protobuf Brcm.target (spineConfig []) {} =
        .ok .OK t ∧
      run (Process.step AfiWire.protobuf Brcm.target) { agent := t }
        [.p4InfoResource (.table Spine.vrfTable)] = some { agent := u } ∧
      Understands (spineConfig []) u := by
  have nothing : AllBound Brcm.target ({} : Agent).contents := by
    intro name value bound
    simp [Agent.contents, Agent.lookup, PtrMap.deref] at bound
  obtain ⟨t, set, _⟩ := setForwardingPipelineConfig_returns AfiWire.protobuf Brcm.target
    (spineConfig []) {} (spineConfig_read []) PtrMap.noNulls_empty rfl nothing
  let res : P4InfoResource := .table Spine.vrfTable
  let u : Agent := { t with p4Info := (t.p4Info.insert2IdMap res).insert2NameMap res }
  have ran : run (Process.step AfiWire.protobuf Brcm.target) { agent := t }
      [.p4InfoResource res] = some { agent := u } := by
    rw [run, Process.step_p4InfoResource, Option.bind_some, run]
  refine ⟨t, u, set, ran, ?_⟩
  exact names_understood AfiWire.protobuf Brcm.target (arrayParsers []) (spineConfig_wellFormed [])
    {} t .OK set _ (by simp [res, spineConfig, ForwardingPipelineConfig.resources]) u ran

end JP4Agent.Controller
