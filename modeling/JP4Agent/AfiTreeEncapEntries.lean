import JP4Agent.AfiFieldWidths
import JP4Agent.AfiInsertResults

set_option autoImplicit false

namespace JP4Agent.AfiTreeEncap
open Agent

/-- The names of other objects in a message. -/
def names : (c : AfiClass) → c.Message → List Str
  | .encapEntry, message => message.parentName.toList
  | .treeEntry, message => message.parentName.toList ++ message.targetAfiObject.toList
  | .treeEncapEntry, message =>
    message.parentName.toList ++ message.encapEntryObject.toList ++
      message.treeEntryObject.toList
  | _, _ => []

/-- An object that a message names stands before the object of the message. -/
def NamesEarlier (objs : List Str) (messages : List ((c : AfiClass) × c.Message)) : Prop :=
  ∀ (i j : Nat) name (value : (c : AfiClass) × c.Message), objs[i]? = some name →
    messages[j]? = some value → name ∈ names value.1 value.2 → i < j

theorem lookups_created {pb : Protobuf} {tId aId : UInt32} {mfs : List AfiTEntryMatchField}
    {aes : List AfiAEntry} {created : Bool} {eObjs : List AfiJsonResource} {s t : Agent}
    (ran : createChildJsonRes pb tId aId mfs aes s = .ok (created, eObjs) t) :
    (created, eObjs) = match s.p4Info.table? tId, s.p4Info.action? aId with
      | some table, some action => childObjs pb table action mfs aes
      | _, _ => (false, []) := by
  have ends := createChildJsonRes_ends pb ⟨0, ⟨[], 0, [], []⟩, .treeEncap, ()⟩ tId aId mfs aes s
  exact (ends.of_ok ran).1

theorem createChildJsonRes_run (pb : Protobuf) {s : Agent} {tId aId : UInt32}
    {table : P4InfoTable} {action : P4InfoAction} (hasTable : s.p4Info.table? tId = some table)
    (hasAction : s.p4Info.action? aId = some action) (mfs : List AfiTEntryMatchField)
    (aes : List AfiAEntry) :
    createChildJsonRes pb tId aId mfs aes s = .ok (childObjs pb table action mfs aes) s :=
  createChildJsonRes_known pb hasTable hasAction ⟨0, ⟨[], 0, [], []⟩, .treeEncap, ()⟩ mfs aes

/-- The three messages of an entry. -/
def messages (T : Str) (keys : List AfiKeyKey) (fields : AfiTreeEntry) :
    List ((c : AfiClass) × c.Message) :=
  [⟨.encapEntry, { afiKey := keys, parentName := some (T ++ str "_encap") }⟩,
    ⟨.treeEntry, { fields with
      parentName := some (T ++ str "_tree"), targetAfiObject := some (encapName T) }⟩,
    ⟨.treeEncapEntry, treeEncapEntryObj T⟩]

section
variable {pb : Protobuf} {table : P4InfoTable} {action : P4InfoAction}
  {mfs : List AfiTEntryMatchField} {aes : List AfiAEntry} {eObjs : List AfiJsonResource}

theorem childObjs_eq (created : childObjs pb table action mfs aes = (true, eObjs)) :
    ∃ keys fields, afiKeys action aes = some keys ∧ treeEntryObj table {} mfs = some fields ∧
      eObjs.map AfiJsonResource.name = endings.map (table.name ++ ·) ∧
      eObjs.map AfiJsonResource.objStr =
        (messages table.name keys fields).map fun value => encodeMessage pb value.1 value.2 := by
  unfold childObjs at created
  split at created
  · cases created
  · rename_i keys hasKeys
    dsimp only at created
    split at created
    · cases created
    · rename_i fields hasFields
      cases created
      rw [← childNames]
      exact ⟨keys, fields, hasKeys, hasFields, rfl, rfl⟩

end

/-- What the names in the messages append to the name of the table. -/
def nameEndings : List (List Str) :=
  [[str "_encap"], [str "_tree", str "_entry_encap_1233459"],
    [[], str "_entry_encap_1233459", str "_entry_tree_1233458"]]

theorem messages_names (T : Str) (keys : List AfiKeyKey) (fields : AfiTreeEntry) :
    (messages T keys fields).map (fun value => names value.1 value.2) =
      nameEndings.map (List.map (T ++ ·)) := by
  have children := childNames T
  simp only [endings, List.map_cons, List.cons.injEq] at children
  obtain ⟨encap, tree, _⟩ := children
  simp [messages, names, nameEndings, treeEncapEntryObj, encap, tree]

theorem endings_earlier : ∀ i < 3, ∀ j < 3, ∀ ending ∈ endings[i]?, ∀ others ∈ nameEndings[j]?,
    ending ∈ others → i < j := by
  decide +kernel

theorem names_earlier (T : Str) (keys : List AfiKeyKey) (fields : AfiTreeEntry) :
    NamesEarlier (endings.map (T ++ ·)) (messages T keys fields) := by
  intro i j name value object message named
  rw [List.getElem?_map, Option.map_eq_some_iff] at object
  obtain ⟨ending, isEnding, rfl⟩ := object
  have others : ((messages T keys fields).map fun value => names value.1 value.2)[j]? =
      some (names value.1 value.2) := by
    rw [List.getElem?_map, message, Option.map_some]
  rw [messages_names, List.getElem?_map, Option.map_eq_some_iff] at others
  obtain ⟨others, areEndings, same⟩ := others
  rw [← same, List.mem_map] at named
  obtain ⟨other, listed, cancels⟩ := named
  rw [List.append_cancel_left cancels] at listed
  have first := (List.getElem?_eq_some_iff.mp isEnding).1
  have second := (List.getElem?_eq_some_iff.mp areEndings).1
  exact endings_earlier i first j second ending isEnding others areEndings listed

/-- The prefix of an entry: its bytes and its length. -/
def prefixOf (obj : AfiTreeEntry) : Option Str × Option UInt64 :=
  (obj.prefixBytes, obj.prefixLength)

theorem setField_extends (obj : AfiTreeEntry) (name : Str) (bitWidth : UInt32)
    (mf : AfiTEntryMatchField) :
    prefixOf (setField obj name bitWidth mf) =
      if mf.type = .lpm then (some mf.value.str, some mf.len.toUInt64) else prefixOf obj := by
  have written : prefixOf (if mf.type = .lpm then
      { obj with prefixBytes := some mf.value.str, prefixLength := some mf.len.toUInt64 }
    else obj) =
      if mf.type = .lpm then (some mf.value.str, some mf.len.toUInt64) else prefixOf obj := by
    split <;> rfl
  unfold setField
  dsimp only
  generalize (if mf.type = .lpm then
      { obj with prefixBytes := some mf.value.str, prefixLength := some mf.len.toUInt64 }
    else obj) = captured at written ⊢
  rw [← written]
  by_cases zero : bitWidth = 0
  · rw [if_pos zero]
  · rw [if_neg zero]
    by_cases small : bitWidth ≤ 32
    · rw [if_pos small]
      by_cases vrf : name = str "local_metadata.vrf_id"
      · rw [if_pos vrf]
        rfl
      · rw [if_neg vrf]
    · rw [if_neg small]

section
variable {table : P4InfoTable}

/-- Fields that are not LPM fields leave the prefix. -/
theorem treeEntryObj_extends {mfs : List AfiTEntryMatchField} : ∀ {obj t : AfiTreeEntry},
    treeEntryObj table obj mfs = some t → (∀ mf ∈ mfs, mf.type ≠ .lpm) →
      prefixOf t = prefixOf obj := by
  induction mfs with
  | nil =>
      intro obj t made _
      rw [treeEntryObj, Option.some.injEq] at made
      rw [made]
  | cons mf rest ih =>
      intro obj t made others
      rw [List.forall_mem_cons] at others
      rw [treeEntryObj] at made
      cases known : table.matchFieldInfo mf.id with
      | none => simp [known] at made
      | some info =>
          rw [known] at made
          rw [ih made others.2, setField_extends, if_neg others.1]

/-- The prefix is that of the only LPM field, wherever it stands. -/
theorem treeEntryObj_lpm {mfs : List AfiTEntryMatchField} {lpm : AfiTEntryMatchField}
    {t : AfiTreeEntry} (made : treeEntryObj table {} mfs = some t)
    (only : mfs.filter (fun mf => mf.type = .lpm) = [lpm]) :
    t.prefixBytes = some lpm.value.str ∧ t.prefixLength = some lpm.len.toUInt64 := by
  obtain ⟨pre, post, rfl, _, isLpm, rest⟩ := List.filter_eq_cons_iff.mp only
  have others : ∀ mf ∈ post, mf.type ≠ .lpm := by
    intro mf later
    simpa using List.filter_eq_nil_iff.mp rest mf later
  rw [treeEntryObj_append] at made
  obtain ⟨obj, _, made⟩ := Option.bind_eq_some_iff.mp made
  rw [treeEntryObj] at made
  cases known : table.matchFieldInfo lpm.id with
  | none => simp [known] at made
  | some info =>
      rw [known] at made
      have kept := treeEntryObj_extends made others
      rw [setField_extends, if_pos (by simpa using isLpm)] at kept
      exact ⟨congrArg Prod.fst kept, congrArg Prod.snd kept⟩

/-- The VRF id is that of the only field of its name, wherever it stands, and absent if there
is no such field. -/
theorem treeEntryObj_vrf {mfs : List AfiTEntryMatchField} {t : AfiTreeEntry}
    (made : treeEntryObj table {} mfs = some t)
    (oneVrf : (mfs.filter fun mf =>
      AfiCap.fieldName table mf = some (str "local_metadata.vrf_id")).length ≤ 1)
    (sized : ∀ mf ∈ mfs, AfiCap.fieldName table mf = some (str "local_metadata.vrf_id") →
      table.matchFieldInfo mf.id = some (str "local_metadata.vrf_id", 32) ∧
        mf.value.str.length = 4) :
    (∀ mf ∈ mfs, AfiCap.fieldName table mf = some (str "local_metadata.vrf_id") →
      ∃ v, t.vrfId = some v ∧ v.toNat = bigEndian mf.value.str) ∧
    ((∀ mf ∈ mfs, AfiCap.fieldName table mf ≠ some (str "local_metadata.vrf_id")) →
      t.vrfId = none) := by
  refine ⟨fun mf member named => ?_, fun others => treeEntryObj_vrfId table mfs made others⟩
  obtain ⟨known, bytes⟩ := sized mf member named
  obtain ⟨pre, post, rfl⟩ := List.append_of_mem member
  have last : ∀ later ∈ post,
      AfiCap.fieldName table later ≠ some (str "local_metadata.vrf_id") := by
    intro later member' named'
    have another : later ∈ post.filter fun mf =>
        AfiCap.fieldName table mf = some (str "local_metadata.vrf_id") := by
      simp [member', named']
    have positive := List.length_pos_of_mem another
    rw [List.filter_append, List.filter_cons_of_pos (by simpa using named), List.length_append,
      List.length_cons] at oneVrf
    omega
  refine ⟨_, treeEntryObj_last table made (by decide) (by decide) known last, ?_⟩
  rw [UInt32.toNat_toUInt64, (readUint_bigEndian_iff (by decide) (by decide) bytes).mpr]
  exact Or.inr (Or.inl (by decide))

end

/-- The objects of an entry with one LPM field: its value and length, the value of the VRF
field and the names of the other objects reach the messages, and no object is named before
it is there. -/
theorem createChildJsonRes_treeEntry (pb : Protobuf) {s t : Agent} {tId aId : UInt32}
    {table : P4InfoTable} {mfs : List AfiTEntryMatchField} {aes : List AfiAEntry}
    {eObjs : List AfiJsonResource} {lpm : AfiTEntryMatchField}
    (hasTable : s.p4Info.table? tId = some table)
    (created : createChildJsonRes pb tId aId mfs aes s = .ok (true, eObjs) t)
    (oneLpm : mfs.filter (fun mf => mf.type = .lpm) = [lpm])
    (oneVrf : (mfs.filter fun mf =>
      AfiCap.fieldName table mf = some (str "local_metadata.vrf_id")).length ≤ 1)
    (sized : ∀ mf ∈ mfs, AfiCap.fieldName table mf = some (str "local_metadata.vrf_id") →
      table.matchFieldInfo mf.id = some (str "local_metadata.vrf_id", 32) ∧
        mf.value.str.length = 4) :
    ∃ eObj tObj teObj e m te, eObjs = [eObj, tObj, teObj] ∧
      eObj.objStr = encodeMessage pb .encapEntry e ∧ tObj.objStr = encodeMessage pb .treeEntry m ∧
      teObj.objStr = encodeMessage pb .treeEncapEntry te ∧
      m.prefixBytes = some lpm.value.str ∧
      (∃ n, m.prefixLength = some n ∧ n.toNat = lpm.len.toNat) ∧
      (∀ mf ∈ mfs, AfiCap.fieldName table mf = some (str "local_metadata.vrf_id") →
        ∃ v, m.vrfId = some v ∧ v.toNat = bigEndian mf.value.str) ∧
      ((∀ mf ∈ mfs, AfiCap.fieldName table mf ≠ some (str "local_metadata.vrf_id")) →
        m.vrfId = none) ∧
      m.parentName = some (table.name ++ str "_tree") ∧ m.targetAfiObject = some eObj.name ∧
      te.encapEntryObject = some eObj.name ∧ te.treeEntryObject = some tObj.name ∧
      NamesEarlier (eObjs.map AfiJsonResource.name)
        [⟨.encapEntry, e⟩, ⟨.treeEntry, m⟩, ⟨.treeEncapEntry, te⟩] ∧
      (eObjs.map AfiJsonResource.name).Nodup := by
  have children := lookups_created created
  rw [hasTable] at children
  cases hasAction : s.p4Info.action? aId with
  | none => simp [hasAction] at children
  | some action =>
      rw [hasAction] at children
      obtain ⟨keys, fields, _, hasFields, objNames, objStrs⟩ := childObjs_eq children.symm
      obtain ⟨prefixBytes, prefixLength⟩ := treeEntryObj_lpm hasFields oneLpm
      obtain ⟨vrfId, noVrf⟩ := treeEntryObj_vrf hasFields oneVrf sized
      have earlier := names_earlier table.name keys fields
      have apart : (eObjs.map AfiJsonResource.name).Nodup := by
        rw [objNames]
        exact nodup_map_append _ (by decide) table.name
      rw [← objNames] at earlier
      rw [← childNames] at objNames
      have three : eObjs.length = 3 := by simpa using congrArg List.length objNames
      obtain ⟨eObj, tObj, teObj, rfl⟩ := List.length_eq_three.mp three
      simp only [List.map_cons, List.map_nil, List.cons.injEq, and_true] at objNames
      simp only [messages, List.map_cons, List.map_nil, List.cons.injEq, and_true] at objStrs
      obtain ⟨eName, tName, _⟩ := objNames
      refine ⟨eObj, tObj, teObj, _, _, _, rfl, objStrs.1, objStrs.2.1, objStrs.2.2, prefixBytes,
        ⟨_, prefixLength, UInt16.toNat_toUInt64 _⟩, vrfId, noVrf, rfl, ?_, ?_, ?_, earlier, apart⟩
      · rw [eName]
      · rw [eName]
        rfl
      · rw [tName]
        rfl

/- The VRF routes of the spine pipeline, and two of the actions of their table. -/

def l3Ipv4VrfTable : P4InfoTable where
  id := 33554436
  name := str "ingress.l3_fwd.l3_ipv4_vrf_table"
  matchFields := [⟨1, str "local_metadata.vrf_id", 32⟩, ⟨2, str "hdr.ipv4_base.dst_addr", 32⟩]

def setNexthop : P4InfoAction where
  id := 16777222
  name := str "ingress.l3_fwd.set_nexthop"
  params := [⟨1, str "port"⟩, ⟨2, str "smac"⟩, ⟨3, str "dmac"⟩, ⟨4, str "l3_class_id"⟩]

def encapIpInIpAndSetNexthop : P4InfoAction where
  id := 16777224
  name := str "ingress.l3_fwd.encap_ip_in_ip_and_set_nexthop"
  params := [⟨1, str "port"⟩, ⟨2, str "smac"⟩, ⟨3, str "dmac"⟩, ⟨4, str "src_addr"⟩,
    ⟨5, str "dst_addr"⟩]

def spineAgent : Agent where
  p4Info := ((({} : P4Info).insert2IdMap (.action setNexthop)).insert2IdMap
    (.action encapIpInIpAndSetNexthop)).insert2IdMap (.table l3Ipv4VrfTable)

theorem spineAgent_table : spineAgent.p4Info.table? 33554436 = some l3Ipv4VrfTable := by
  rw [P4Info.table?, spineAgent]
  simp only [P4Info.p4InfoResource_insert2IdMap]
  rfl

theorem spineAgent_setNexthop : spineAgent.p4Info.action? 16777222 = some setNexthop := by
  rw [P4Info.action?, spineAgent]
  simp only [P4Info.p4InfoResource_insert2IdMap]
  rfl

theorem spineAgent_encap : spineAgent.p4Info.action? 16777224 = some encapIpInIpAndSetNexthop := by
  rw [P4Info.action?, spineAgent]
  simp only [P4Info.p4InfoResource_insert2IdMap]
  rfl

/-- A route of VRF 7 whose LPM field stands before the VRF field. -/
theorem createChildJsonRes_treeEntry_spine :
    let lpm : AfiTEntryMatchField := ⟨2, .lpm, ⟨[10, 1, 0, 0], fun _ => 0⟩, 16, ⟨[], fun _ => 0⟩⟩
    let vrf : AfiTEntryMatchField := ⟨1, .exact, ⟨[0, 0, 0, 7], fun _ => 0⟩, 0, ⟨[], fun _ => 0⟩⟩
    ∃ eObjs t m,
      createChildJsonRes AfiWire.protobuf 33554436 16777222 [lpm, vrf]
        [⟨1, ⟨[0, 0, 0, 9], fun _ => 0⟩⟩] spineAgent = .ok (true, eObjs) t ∧
      (∃ tObj ∈ eObjs, tObj.objStr = encodeMessage AfiWire.protobuf .treeEntry m) ∧
      m.prefixBytes = some [10, 1, 0, 0] ∧ m.prefixLength = some 16 ∧ m.vrfId = some 7 := by
  intro lpm vrf
  have ran := createChildJsonRes_run AfiWire.protobuf spineAgent_table
    spineAgent_setNexthop [lpm, vrf] [⟨1, ⟨[0, 0, 0, 9], fun _ => 0⟩⟩]
  have oneLpm : [lpm, vrf].filter (fun mf => mf.type = .lpm) = [lpm] := rfl
  obtain ⟨eObj, tObj, teObj, e, m, te, made, _, message, _, prefixBytes, ⟨n, prefixLength, length⟩,
    vrfId, _⟩ := createChildJsonRes_treeEntry AfiWire.protobuf spineAgent_table ran oneLpm
      (by decide) (by decide)
  obtain ⟨v, stored, value⟩ := vrfId vrf (by simp) rfl
  have seven : v = 7 := UInt64.toNat_inj.mp value
  have sixteen : n = 16 := UInt64.toNat_inj.mp length
  refine ⟨_, _, m, ran, ⟨tObj, ?_, message⟩, prefixBytes, ?_, ?_⟩
  · simp [made]
  · rw [prefixLength, sixteen]
  · rw [stored, seven]

/-- The names that have a field tag. -/
def taggedNames : List Str := [str "port", str "smac", str "dmac", str "l3_class_id"]

theorem keyKey_unset_iff (name : Str) (value : CStr) :
    (keyKey name value).fieldName = .unset ↔ name ∉ taggedNames := by
  unfold keyKey taggedNames
  dsimp only
  split
  · simp_all
  · split
    · simp_all
    · split
      · simp_all
      · split
        · simp_all
        · simp_all

/-- The name with this tag. -/
def taggedName : AfiEncapEntryAfiField → Str
  | .unset => []
  | .egressPort => str "port"
  | .packetEtherSaddr => str "smac"
  | .packetEtherDaddr => str "dmac"
  | .packetL3ClassId => str "l3_class_id"

theorem taggedName_keyKey {name : Str} (value : CStr) (tagged : name ∈ taggedNames) :
    taggedName (keyKey name value).fieldName = name := by
  simp only [taggedNames, List.mem_cons, List.not_mem_nil, or_false] at tagged
  rcases tagged with rfl | rfl | rfl | rfl
  · rfl
  · rfl
  · rfl
  · rfl

theorem afiKeys_eq {action : P4InfoAction} {aes : List AfiAEntry} : ∀ {keys : List AfiKeyKey},
    afiKeys action aes = some keys →
      keys = aes.map fun ae => keyKey (action.actionParamName ae.id) ae.value := by
  induction aes with
  | nil =>
      intro keys made
      rw [afiKeys, Option.some.injEq] at made
      rw [← made, List.map_nil]
  | cons ae rest ih =>
      intro keys made
      rw [afiKeys] at made
      by_cases unnamed : action.actionParamName ae.id = []
      · simp [unnamed] at made
      · rw [if_neg unnamed, Option.map_eq_some_iff] at made
        obtain ⟨more, madeMore, rfl⟩ := made
        rw [ih madeMore, List.map_cons]

/-- What the keys of an entry are for: a call that succeeds makes one for each parameter, in
order, with its bytes and with a tag of its own, and a parameter without a tag makes the call
fail. -/
structure KeysIdentify (pb : Protobuf) (s : Agent) (tId aId : UInt32) (action : P4InfoAction)
    (mfs : List AfiTEntryMatchField) (aes : List AfiAEntry) : Prop where
  keys : ∀ eObjs t, createChildJsonRes pb tId aId mfs aes s = .ok (true, eObjs) t →
    ∃ eObj rest entry, eObjs = eObj :: rest ∧ eObj.objStr = encodeMessage pb .encapEntry entry ∧
      entry.afiKey.map AfiKeyKey.fieldData = aes.map (fun ae => some ae.value.str) ∧
      (∀ key ∈ entry.afiKey, key.fieldName ≠ .unset) ∧
      (entry.afiKey.map AfiKeyKey.fieldName).Nodup
  untagged : ∀ ae ∈ aes,
    (keyKey (action.actionParamName ae.id) ae.value).fieldName = .unset →
      ∃ eObjs t, createChildJsonRes pb tId aId mfs aes s = .ok (false, eObjs) t

section
variable {pb : Protobuf} {s : Agent} {tId aId : UInt32} {action : P4InfoAction}
  {mfs : List AfiTEntryMatchField} {aes : List AfiAEntry}

/-- Parameters with different names, all of which have tags: their keys. -/
theorem keys_identify {keys : List AfiKeyKey} (made : afiKeys action aes = some keys)
    (distinct : (aes.map fun ae => action.actionParamName ae.id).Nodup)
    (tagged : ∀ ae ∈ aes, action.actionParamName ae.id ∈ taggedNames) :
    keys.map AfiKeyKey.fieldData = aes.map (fun ae => some ae.value.str) ∧
      (∀ key ∈ keys, key.fieldName ≠ .unset) ∧ (keys.map AfiKeyKey.fieldName).Nodup := by
  obtain rfl := afiKeys_eq made
  refine ⟨by simp [keyKey], ?_, ?_⟩
  · intro key member
    obtain ⟨ae, listed, rfl⟩ := List.mem_map.mp member
    rw [ne_eq, keyKey_unset_iff]
    simpa using tagged ae listed
  · have names : ((aes.map fun ae => keyKey (action.actionParamName ae.id) ae.value).map
        AfiKeyKey.fieldName).map taggedName = aes.map fun ae => action.actionParamName ae.id := by
      rw [List.map_map, List.map_map]
      apply List.map_congr_left
      intro ae listed
      exact taggedName_keyKey ae.value (tagged ae listed)
    rw [← names] at distinct
    exact distinct.of_map taggedName

variable (pb tId mfs aes) in
/-- The call returns, and it succeeds exactly if it knows the table and its fields and the
names of the parameters. -/
theorem createChildJsonRes_returns (hasAction : s.p4Info.action? aId = some action) :
    ∃ created eObjs t, createChildJsonRes pb tId aId mfs aes s = .ok (created, eObjs) t ∧
      (created = true ↔ ∃ table, s.p4Info.table? tId = some table ∧ FieldsKnown table mfs ∧
        ParamsKnown action aes) := by
  let encap : AfiObject := ⟨0, ⟨[], 0, [], []⟩, .treeEncap, ()⟩
  obtain ⟨⟨created, eObjs⟩, t, ran, computed, _⟩ :=
    (createChildJsonRes_ends pb encap tId aId mfs aes s).returns
  refine ⟨created, eObjs, t, ran, ?_⟩
  rw [AfiObject.createdChildren, hasAction] at computed
  cases hasTable : s.p4Info.table? tId with
  | none =>
      rw [hasTable] at computed
      have failed : created = false := congrArg Prod.fst computed
      simp [failed]
  | some table =>
      rw [hasTable] at computed
      have makes : childTypes encap.cls ≠ [] := by decide
      rw [show created = (encap.childObjs pb table action mfs aes).1 from
        congrArg Prod.fst computed]
      simp [(encap.childObjs_created_iff pb table action mfs aes).1, makes]

variable (pb tId mfs) in
/-- The keys of an entry identify its parameters exactly if all of them have one of the four
names, or the entry is refused for a parameter without a name, a table or a match field that
is not known. -/
theorem createChildJsonRes_keys_iff (hasAction : s.p4Info.action? aId = some action)
    (distinct : (aes.map fun ae => action.actionParamName ae.id).Nodup) :
    KeysIdentify pb s tId aId action mfs aes ↔
      (∀ ae ∈ aes, action.actionParamName ae.id ∈ taggedNames) ∨
      (∃ ae ∈ aes, action.actionParamName ae.id = []) ∨
      ∀ table, s.p4Info.table? tId = some table → ¬ FieldsKnown table mfs := by
  obtain ⟨created, eObjs, t, ran, succeeds⟩ :=
    createChildJsonRes_returns pb tId mfs aes hasAction
  constructor
  · intro identify
    by_cases tagged : ∀ ae ∈ aes, action.actionParamName ae.id ∈ taggedNames
    · exact Or.inl tagged
    · right
      push Not at tagged
      obtain ⟨ae, member, untagged⟩ := tagged
      obtain ⟨eObjs', t', failed⟩ :=
        identify.untagged ae member ((keyKey_unset_iff _ _).mpr untagged)
      rw [ran, EStateM.Result.ok.injEq, Prod.mk.injEq] at failed
      rw [failed.1.1] at succeeds
      by_cases named : ParamsKnown action aes
      · right
        intro table hasTable fields
        exact Bool.false_ne_true (succeeds.mpr ⟨table, hasTable, fields, named⟩)
      · left
        simpa [ParamsKnown] using named
  · rintro (tagged | refused)
    · refine ⟨fun eObjs' t' ran' => ?_, fun ae member unset => ?_⟩
      · have children := lookups_created ran'
        rw [hasAction] at children
        cases hasTable : s.p4Info.table? tId with
        | none => simp [hasTable] at children
        | some table =>
            rw [hasTable] at children
            obtain ⟨keys, fields, hasKeys, _, _, objStrs⟩ := childObjs_eq children.symm
            have three : eObjs'.length = 3 := by simpa [messages] using congrArg List.length objStrs
            obtain ⟨eObj, tObj, teObj, rfl⟩ := List.length_eq_three.mp three
            simp only [messages, List.map_cons, List.cons.injEq] at objStrs
            exact ⟨eObj, _, _, rfl, objStrs.1, keys_identify hasKeys distinct tagged⟩
      · exact absurd (tagged ae member) ((keyKey_unset_iff _ _).mp unset)
    · have notCreated : created = false := by
        rw [← Bool.not_eq_true, succeeds]
        rintro ⟨table, hasTable, fields, named⟩
        rcases refused with ⟨ae, member, unnamed⟩ | unknown
        · exact named ae.id (List.mem_map_of_mem member) unnamed
        · exact unknown table hasTable fields
      rw [notCreated] at ran
      refine ⟨fun eObjs' t' ran' => ?_, fun _ _ _ => ⟨eObjs, t, ran⟩⟩
      simp [ran] at ran'

end

theorem createChildJsonRes_keys_iff_setNexthop :
    let aes : List AfiAEntry := [⟨1, ⟨[0, 0, 0, 9], fun _ => 0⟩⟩, ⟨4, ⟨[1], fun _ => 0⟩⟩]
    KeysIdentify AfiWire.protobuf spineAgent 33554436 16777222 setNexthop [] aes ↔
      (∀ ae ∈ aes, setNexthop.actionParamName ae.id ∈ taggedNames) ∨
      (∃ ae ∈ aes, setNexthop.actionParamName ae.id = []) ∨
      ∀ table, spineAgent.p4Info.table? 33554436 = some table → ¬ FieldsKnown table [] :=
  createChildJsonRes_keys_iff AfiWire.protobuf 33554436 [] spineAgent_setNexthop (by decide)

/-- The key of the source address of a tunnel has no tag. -/
theorem encap_key_untagged :
    let aes : List AfiAEntry := [⟨1, ⟨[0, 0, 0, 9], fun _ => 0⟩⟩,
      ⟨4, ⟨[10, 0, 0, 1], fun _ => 0⟩⟩, ⟨5, ⟨[10, 0, 0, 2], fun _ => 0⟩⟩]
    (aes.map fun ae => encapIpInIpAndSetNexthop.actionParamName ae.id).Nodup ∧
      (∃ eObjs, createChildJsonRes AfiWire.protobuf 33554436 16777224 [] aes spineAgent =
        .ok (true, eObjs) spineAgent) ∧
      ¬ KeysIdentify AfiWire.protobuf spineAgent 33554436 16777224 encapIpInIpAndSetNexthop []
        aes := by
  intro aes
  have ran := createChildJsonRes_run AfiWire.protobuf spineAgent_table spineAgent_encap [] aes
  refine ⟨by decide, ⟨_, ran⟩, fun identify => ?_⟩
  obtain ⟨eObjs, t, failed⟩ := identify.untagged ⟨4, ⟨[10, 0, 0, 1], fun _ => 0⟩⟩ (by simp [aes])
    (by decide)
  rw [ran] at failed
  exact Bool.noConfusion (congrArg Prod.fst (EStateM.Result.ok.inj failed).1)

end JP4Agent.AfiTreeEncap
