import JP4Agent.AfiBindRuns
import JP4Agent.AfiCapInserts
import JP4Agent.AfiPipelineOrder
import JP4Agent.AftBindOrder
import JP4Agent.BrcmWrites

set_option autoImplicit false

/- The groups and the rules of the Broadcom device: which calls of its library the objects
lead to, and that no rule is made before its group. -/
namespace JP4Agent.Brcm
open Agent Afi AfiDevice P4 P4RuntimeServiceImpl PtrMap

/-- The arguments of `Fp::addGroup`. -/
structure Group where
  id : UInt64
  priority : UInt64
  keys : List MatchKey

def BrcmCap.bind (cap : AfiCap) (cmo : AfiCapMatch) : Group where
  id := cap.groupId.getD 0
  priority := cap.groupPriority.getD 0
  keys :=
    (if cmo.ethertype.getD false then [.etherType] else []) ++
    (if cmo.sourceMacAddress.getD false then [.srcMac] else []) ++
    (if cmo.destinationIpv4Address.getD false then [.inetDstAddr] else [])

/-- The calls of the library: `addGroup`, and what ends in `install`. -/
inductive FpCall where
  | addGroup (group : Group)
  | install (rule : Rule)

def fpCall (memory : Nat → Nat → UInt8) : Installed → Option FpCall
  | ⟨⟨_, _, .cap, cap⟩, [⟨_, _, .capMatch, cmo⟩, _]⟩ => some (.addGroup (BrcmCap.bind cap cmo))
  | installed => (rule memory installed).map .install

/-- The calls, latest first. -/
def fpCalls (memory : Nat → Nat → UInt8) (installed : List Installed) : List FpCall :=
  installed.filterMap (fpCall memory)

/-- The rule belongs to the group, and compares nothing that the group does not. -/
def Group.Takes (group : Group) (rule : Rule) : Prop :=
  group.id = rule.group ∧ ∀ field ∈ rule.matchFields, field.1 ∈ group.keys

/-- Every rule was installed after a group that takes it was added. -/
def Prepared : List FpCall → Prop
  | [] => True
  | .addGroup _ :: before => Prepared before
  | .install rule :: before =>
    (∃ group, .addGroup group ∈ before ∧ group.Takes rule) ∧ Prepared before

/-- The objects that the `_bind` of a `cap` looks up are there, and name the three keys. -/
def CapReady (s : Agent) (co : AfiCap) : Prop :=
  ∃ addr res cmo action, s.lookup (co.matchObject.getD []) = some ⟨addr, res, .capMatch, cmo⟩ ∧
    s.lookup (co.actionObject.getD []) = some action ∧ action.cls = .capAction ∧
      cmo.ethertype = some true ∧ cmo.sourceMacAddress = some true ∧
        cmo.destinationIpv4Address = some true

/-- With the objects of a pipeline configuration in the store each `cap` is ready, and the
entries among these objects come, in the order of the names, after the `cap` they name. The
message of an entry of a table is one that the library takes. -/
def GroupsFirst (parsers : Parsers) (pb : Protobuf) (s : Agent) : StoreOp → Prop
  | .setForwardingPipelineConfig config => ∀ cfg : List AfiJsonResource,
    parsers.json (parsers.p4DeviceConfig config.p4DeviceConfig).2 = some (cfg.map some) →
      (∀ name addr res co,
        ((s.withResources config).storeAll pb target cfg).lookup name =
            some ⟨addr, res, .cap, co⟩ →
          CapReady ((s.withResources config).storeAll pb target cfg) co) ∧
      ∀ res ∈ cfg, ∀ entry : AfiCapEntry,
        creation pb target res = .ok (some ⟨.capEntry, entry⟩) →
          compare (entry.parentName.getD []) res.name = .lt
  | .addTable .. => True
  | .tableInsert _ entry => ∀ table, s.p4Info.table? entry.tableId = some table →
    ValidUtf8 table.name ∧
      (pb.serialize .capEntry (AfiCap.capEntryObj table.name)).length < 2147483648

/-- What every operation keeps: each `cap` has had its group added, and the names of entries
come after those of their `cap`s. -/
structure Grouped (memory : Nat → Nat → UInt8) (s : Agent) : Prop where
  prepared : Prepared (fpCalls memory s.installed)
  caps : ∀ name addr res co, s.lookup name = some ⟨addr, res, .cap, co⟩ →
    ∃ group, .addGroup group ∈ fpCalls memory s.installed ∧ group.id = co.groupId.getD 0 ∧
      ∀ key, key ∈ group.keys
  named : ∀ name addr res entry, s.lookup name = some ⟨addr, res, .capEntry, entry⟩ →
    compare (entry.parentName.getD []) name = .lt

theorem compare_append (name : Str) (c : UInt8) (rest : Str) :
    compare name (name ++ c :: rest) = .lt := by
  induction name with
  | nil => rfl
  | cons d name ih =>
      rw [List.cons_append, List.compare_eq_compareLex, List.compareLex_cons_cons,
        Std.ReflOrd.compare_self, ← List.compare_eq_compareLex, ih]
      rfl

section
variable {memory : Nat → Nat → UInt8}

/-- A rule is made from an entry and the first object it was bound with, its `cap`. -/
theorem fpCall_install {installed : Installed} {rule : Rule}
    (made : fpCall memory installed = some (.install rule)) :
    installed.object.cls = .capEntry ∧ ∃ addr res co rest,
      installed.uses = ⟨addr, res, .cap, co⟩ :: rest ∧ rule.group = co.groupId.getD 0 := by
  unfold fpCall at made
  split at made
  · cases made
  · obtain ⟨rule', found, same⟩ := Option.map_eq_some_iff.mp made
    rw [← FpCall.install.inj same]
    unfold Brcm.rule at found
    split at found
    · rw [← Option.some.inj found]
      exact ⟨rfl, _, _, _, _, rfl, rfl⟩
    · cases found

/-- What the `cap` of an installed rule was found under. -/
theorem install_rule {s : Agent} {obj : AfiObject} {installed : Installed} {rule : Rule}
    (made : target.install s obj = some installed)
    (call : fpCall memory installed = some (.install rule)) :
    ∃ addr res entry addr' res' co, obj = ⟨addr, res, .capEntry, entry⟩ ∧
      s.lookup (entry.parentName.getD []) = some ⟨addr', res', .cap, co⟩ ∧
        rule.group = co.groupId.getD 0 := by
  obtain ⟨isEntry, addr', res', co, rest, uses, group⟩ := fpCall_install call
  rw [Target.install_object made] at isEntry
  rcases obj with ⟨addr, res, cls, entry⟩
  obtain rfl : cls = .capEntry := isEntry
  obtain ⟨found, resolved, rfl⟩ := Option.map_eq_some_iff.mp made
  obtain rfl : found = ⟨addr', res', .cap, co⟩ :: rest := uses
  refine ⟨addr, res, entry, addr', res', co, rfl, ?_, group⟩
  have refs : target.refs .capEntry entry = (entry.parentName.getD [], .cap) ::
      [(entry.matchObject.getD [], .capEntryMatch),
        (entry.actionObject.getD [], .capEntryAction)] := rfl
  rw [refs, Agent.resolved] at resolved
  cases parent : s.lookup (entry.parentName.getD []) with
  | none =>
      rw [parent] at resolved
      cases resolved
  | some cap =>
      rw [parent] at resolved
      dsimp only at resolved
      by_cases isCap : cap.cls = .cap
      · rw [if_pos isCap] at resolved
        obtain ⟨_, _, same⟩ := Option.map_eq_some_iff.mp resolved
        rw [(List.cons.inj same).1]
      · rw [if_neg isCap] at resolved
        cases resolved

theorem takes_of_keys {group : Group} {rule : Rule} {co : AfiCap}
    (id : group.id = co.groupId.getD 0) (keys : ∀ key, key ∈ group.keys)
    (same : rule.group = co.groupId.getD 0) : group.Takes rule :=
  ⟨id.trans same.symm, fun field _ => keys field.1⟩

theorem prepared_cons {call : FpCall} {before : List FpCall} (prepared : Prepared before)
    (grouped : ∀ rule, call = .install rule →
      ∃ group, .addGroup group ∈ before ∧ group.Takes rule) : Prepared (call :: before) := by
  cases call with
  | addGroup group => exact prepared
  | install rule => exact ⟨grouped rule rfl, prepared⟩

/-- An object other than a `cap` is stored and bound. -/
theorem Grouped.handled {s t : Agent} {obj : AfiObject} (grouped : Grouped memory s)
    (handled : Handled target s obj false t) (noCap : obj.cls ≠ .cap)
    (named : ∀ addr res entry, obj = ⟨addr, res, .capEntry, entry⟩ →
      compare (entry.parentName.getD []) obj.name = .lt) : Grouped memory t := by
  have kept : ∀ name addr res co, t.lookup name = some ⟨addr, res, .cap, co⟩ →
      s.lookup name = some ⟨addr, res, .cap, co⟩ := by
    intro name addr res co found
    rw [handled.lookup] at found
    split at found
    · rw [Option.some.inj found] at noCap
      exact absurd rfl noCap
    · exact found
  have installed := handled.installed
  rw [if_neg Bool.false_ne_true] at installed
  have before : fpCalls memory s.installed ⊆ fpCalls memory t.installed := by
    rw [installed, fpCalls, fpCalls, List.filterMap_append]
    exact List.subset_append_right _ _
  constructor
  · rw [installed]
    cases made : target.install t obj with
    | none => exact grouped.prepared
    | some made' =>
        rw [Option.toList_some, List.singleton_append, fpCalls, List.filterMap_cons]
        cases call : fpCall memory made' with
        | none => exact grouped.prepared
        | some call' =>
            apply prepared_cons grouped.prepared
            intro rule same
            rw [same] at call
            obtain ⟨_, _, _, addr', res', co, _, parent, group⟩ := install_rule made call
            obtain ⟨added, member, id, keys⟩ := grouped.caps _ _ _ _ (kept _ _ _ _ parent)
            exact ⟨added, member, takes_of_keys id keys group⟩
  · intro name addr res co found
    obtain ⟨group, member, served⟩ := grouped.caps name addr res co (kept name addr res co found)
    exact ⟨group, before member, served⟩
  · intro name addr res entry found
    rw [handled.lookup] at found
    split at found
    · rename_i here
      rw [← here]
      exact named addr res entry (Option.some.inj found)
    · exact grouped.named name addr res entry found

theorem Grouped.unchanged {s t : Agent} (grouped : Grouped memory s) (same : Unchanged s t) :
    Grouped memory t where
  prepared := by
    rw [same.installed]
    exact grouped.prepared
  caps name addr res co found := by
    rw [same.lookup] at found
    rw [same.installed]
    exact grouped.caps name addr res co found
  named name addr res entry found := by
    rw [same.lookup] at found
    exact grouped.named name addr res entry found

end

section
variable (memory : Nat → Nat → UInt8) {pb : Protobuf}

/-- What is made of a resource is no `cap`, and an entry if its name comes after its `cap`. -/
def Harmless (pb : Protobuf) (res : AfiJsonResource) : Prop :=
  ∀ value, creation pb target res = .ok (some value) → value.1 ≠ .cap ∧
    ∀ entry, value = ⟨.capEntry, entry⟩ → compare (entry.parentName.getD []) res.name = .lt

/-- An operation that keeps the tables and what is grouped. -/
structure KeepsGroups (s t : Agent) : Prop extends SameInfo s t where
  grouped : Grouped memory s → Grouped memory t

theorem KeepsGroups.refl (s : Agent) : KeepsGroups memory s s := ⟨SameInfo.refl s, id⟩

variable {memory} in
theorem KeepsGroups.trans {s t u : Agent} (first : KeepsGroups memory s t)
    (second : KeepsGroups memory t u) : KeepsGroups memory s u :=
  ⟨first.toSameInfo.trans second.toSameInfo, second.grouped ∘ first.grouped⟩

theorem handleAfiJsonObject_keeps (s : Agent) {res : AfiJsonResource}
    (harmless : Harmless pb res) :
    Ends (handleAfiJsonObject pb target (some res) false) s (fun _ t => KeepsGroups memory s t)
      (fun _ _ => True) := by
  apply (handleAfiJsonObject_handled pb target res false s).mono _ fun _ _ _ => trivial
  intro r t post
  rcases post with ⟨_, _, rfl⟩ | ⟨value, made, _, handled⟩
  · exact KeepsGroups.refl memory t
  · obtain ⟨noCap, named⟩ := harmless value made
    refine ⟨handled.toSameInfo, fun grouped => grouped.handled handled noCap ?_⟩
    intro addr res' entry same
    rcases value with ⟨cls, message⟩
    cases same
    exact named message rfl

theorem handleAfiJsonObjects_keeps {eObjs : List AfiJsonResource}
    (harmless : ∀ res ∈ eObjs, Harmless pb res) : ∀ s : Agent,
      Ends (handleAfiJsonObjects pb target false (eObjs.map some)) s
        (fun _ t => KeepsGroups memory s t) (fun _ _ => True) := by
  induction eObjs with
  | nil => exact fun s => ends_pure (KeepsGroups.refl memory s)
  | cons res rest ih =>
      intro s
      rw [List.forall_mem_cons] at harmless
      apply ends_bind
      apply (handleAfiJsonObject_keeps memory s harmless.1).mono _ fun _ _ _ => trivial
      intro r t first
      cases r with
      | false => exact ends_pure first
      | true => exact (ih harmless.2 t).mono (fun _ _ => first.trans) fun _ _ _ => trivial

/-- A resource of another type. -/
theorem harmless_of_class {res : AfiJsonResource} {c : AfiClass}
    (creator : target.creators res.type = some c) (noCap : c ≠ .cap) (noEntry : c ≠ .capEntry) :
    Harmless pb res := by
  intro value made
  have class' := class_of_creation pb target made
  rw [creator] at class'
  obtain rfl := Option.some.inj class'
  refine ⟨noCap, fun entry same => ?_⟩
  rw [same] at noEntry
  exact absurd rfl noEntry

theorem harmless_of_missing {res : AfiJsonResource} (missing : target.creators res.type = none) :
    Harmless pb res := by
  intro value made
  have class' := class_of_creation pb target made
  rw [missing] at class'
  cases class'

/-- The entry that is made for a table names the table, and has a longer name. -/
theorem harmless_entry (roundTrips : pb.RoundTrips) {table : Str} (named : ValidUtf8 table)
    (small : (pb.serialize .capEntry (AfiCap.capEntryObj table)).length < 2147483648) :
    Harmless pb (childJsonRes pb (str "afi-cap-entry") AfiCap.id (AfiCap.entryName table)
      .capEntry (AfiCap.capEntryObj table)) := by
  intro value made
  have creator : target.creators (str "afi-cap-entry") = some .capEntry := rfl
  by_cases short : (pb.serialize .capEntry (AfiCap.capEntryObj table)).length < 5000
  · rw [creation_of_short roundTrips creator (AfiCap.capEntryObj_utf8 named) short] at made
    rw [← Option.some.inj (Except.ok.inj made)]
    refine ⟨(by decide : AfiClass.capEntry ≠ .cap), fun entry same => ?_⟩
    cases same
    show compare table (AfiCap.entryName table) = .lt
    rw [AfiCap.entryName, List.append_assoc, List.append_assoc]
    exact compare_append table _ _
  · have failed : ∃ fault, creation pb target (childJsonRes pb (str "afi-cap-entry") AfiCap.id
        (AfiCap.entryName table) .capEntry (AfiCap.capEntryObj table)) = .error fault :=
      creation_of_long creator (Nat.le_of_not_lt short) small
    obtain ⟨fault, failed⟩ := failed
    rw [failed] at made
    cases made

/-- The children of an entry of a table. -/
theorem harmless_children (roundTrips : pb.RoundTrips) {table : P4InfoTable}
    (named : ValidUtf8 table.name)
    (small : (pb.serialize .capEntry (AfiCap.capEntryObj table.name)).length < 2147483648)
    (parent : AfiObject) (action : P4InfoAction) (mfs : List AfiTEntryMatchField)
    (aes : List AfiAEntry) :
    ∀ res ∈ (parent.childObjs pb table action mfs aes).2, Harmless pb res := by
  have isMatch (name : Str) (m : AfiCapEntryMatch) : Harmless pb (childJsonRes pb
      (str "afi-cap-entry-match") (AfiCap.id + 1) name .capEntryMatch m) :=
    harmless_of_class (c := .capEntryMatch) rfl (by decide) (by decide)
  have isAction (name : Str) (a : AfiCapEntryAction) : Harmless pb (childJsonRes pb
      (str "afi-cap-entry-action") (AfiCap.id + 2) name .capEntryAction a) :=
    harmless_of_class (c := .capEntryAction) rfl (by decide) (by decide)
  rcases parent with ⟨addr, res, cls, message⟩
  cases cls with
  | cap =>
      show ∀ res ∈ (AfiCap.childObjs pb table action mfs aes).2, Harmless pb res
      unfold AfiCap.childObjs
      split
      · simp
      · dsimp only
        split
        · exact List.forall_mem_singleton.mpr (isMatch _ _)
        · exact List.forall_mem_cons.mpr ⟨isMatch _ _, List.forall_mem_cons.mpr ⟨isAction _ _,
            List.forall_mem_singleton.mpr (harmless_entry roundTrips named small)⟩⟩
  | treeEncap =>
      have encap (name : Str) (m : AfiEncapEntry) : Harmless pb (childJsonRes pb
          (str "afi-encap-entry") (AfiTreeEncap.id + 2) name .encapEntry m) :=
        harmless_of_missing rfl
      have tree (name : Str) (m : AfiTreeEntry) : Harmless pb (childJsonRes pb
          (str "afi-tree-entry") (AfiTreeEncap.id + 1) name .treeEntry m) :=
        harmless_of_class (c := .treeEntry) rfl (by decide) (by decide)
      have treeEncap (name : Str) (m : AfiTreeEncapEntry) : Harmless pb (childJsonRes pb
          (str "afi-tree-encap-entry") (AfiTreeEncap.id + 1) name .treeEncapEntry m) :=
        harmless_of_missing rfl
      show ∀ res ∈ (AfiTreeEncap.childObjs pb table action mfs aes).2, Harmless pb res
      unfold AfiTreeEncap.childObjs
      split
      · simp
      · dsimp only
        split
        · exact List.forall_mem_singleton.mpr (encap _ _)
        · exact List.forall_mem_cons.mpr ⟨encap _ _, List.forall_mem_cons.mpr ⟨tree _ _,
            List.forall_mem_singleton.mpr (treeEncap _ _)⟩⟩
  | _ =>
      intro res member
      exact absurd member List.not_mem_nil

theorem afiAddObjEntry_keeps (roundTrips : pb.RoundTrips) (tId aId : UInt32)
    (mfs : List AfiTEntryMatchField) (aes : List AfiAEntry) (s : Agent)
    (takes : ∀ table, s.p4Info.table? tId = some table → ValidUtf8 table.name ∧
      (pb.serialize .capEntry (AfiCap.capEntryObj table.name)).length < 2147483648) :
    Ends (afiAddObjEntry pb target tId aId mfs aes) s (fun _ t => KeepsGroups memory s t)
      (fun _ _ => True) := by
  apply afiAddObjEntry_ends
  · exact fun t _ unchanged _ => ⟨unchanged.toSameInfo, fun grouped => grouped.unchanged unchanged⟩
  · intro eObjs t children looked
    have first : KeepsGroups memory s t :=
      ⟨looked.toSameInfo, fun grouped => grouped.unchanged looked.toUnchanged⟩
    simp only [childrenOf, Option.bind_eq_bind, Option.bind_eq_some_iff] at children
    obtain ⟨table, hasTable, action, _, parent, _, children⟩ := children
    obtain ⟨_, made⟩ := Option.ite_none_right_eq_some.mp children
    obtain rfl := Option.some.inj made
    obtain ⟨named, small⟩ := takes table hasTable
    exact (handleAfiJsonObjects_keeps memory
      (harmless_children roundTrips named small parent action mfs aes) t).mono
        (fun _ _ => first.trans) fun _ _ _ => trivial

theorem addEntries_keeps (tableId : UInt32) (fieldMatches : List FieldMatch) : ∀ s : Agent,
    Ends (addEntries pb target tableId fieldMatches) s (fun _ t => KeepsGroups memory s t)
      (fun _ _ => True) := by
  induction fieldMatches with
  | nil => exact fun s => ends_pure (KeepsGroups.refl memory s)
  | cons mf rest ih =>
      intro s
      rcases mf with ⟨fieldId, type⟩
      rw [addEntries]
      cases type with
      | lpm value prefixLen =>
          dsimp only
          by_cases special : tableId = addEntryTable
          · rw [if_pos special]
            have isEntry : target.creators (str "afi-tree-entry") = some .treeEntry := rfl
            have harmless : Harmless pb (afiTreeEntryJsonObject pb value prefixLen) :=
              harmless_of_class isEntry (by decide) (by decide)
            apply ends_bind
            apply (handleAfiJsonObject_keeps memory s harmless).mono _ fun _ _ _ => trivial
            intro returned t first
            apply ends_bind
            exact (ih t).mono (fun _ _ more => ends_pure (first.trans more)) fun _ _ _ => trivial
          · rw [if_neg special]
            exact ih s
      | _ => exact ih s

theorem tableInsert_keeps (roundTrips : pb.RoundTrips) (mem : Memory) (entry : TableEntry)
    (s : Agent)
    (takes : ∀ table, s.p4Info.table? entry.tableId = some table → ValidUtf8 table.name ∧
      (pb.serialize .capEntry (AfiCap.capEntryObj table.name)).length < 2147483648) :
    Ends (tableInsert pb target mem entry) s (fun _ t => KeepsGroups memory s t)
      (fun _ _ => True) := by
  unfold tableInsert
  by_cases isDefault : entry.isDefaultAction = true
  · rw [if_pos isDefault]
    exact ends_pure (KeepsGroups.refl memory s)
  · rw [if_neg isDefault]
    apply ends_bind
    rw [convertMatch_eq]
    apply ends_map
    apply (addEntries_keeps memory entry.tableId entry.fieldMatches s).mono _ fun _ _ _ => trivial
    intro calls t first
    apply ends_bind
    have takes' : ∀ table, t.p4Info.table? entry.tableId = some table → ValidUtf8 table.name ∧
        (pb.serialize .capEntry (AfiCap.capEntryObj table.name)).length < 2147483648 := by
      intro table found
      rw [first.table] at found
      exact takes table found
    exact (afiAddObjEntry_keeps memory roundTrips _ _ _ _ t takes').mono
      (fun _ _ more => ends_pure (first.trans more)) fun _ _ _ => trivial

/-- The `_bind` of a `cap` that is ready adds its group. -/
theorem install_cap {s : Agent} {co : AfiCap} (ready : CapReady s co) (addr : Nat)
    (res : AfiJsonResource) : ∃ installed group,
      target.install s ⟨addr, res, .cap, co⟩ = some installed ∧
      fpCall memory installed = some (.addGroup group) ∧ group.id = co.groupId.getD 0 ∧
      ∀ key, key ∈ group.keys := by
  obtain ⟨addr', res', cmo, action, hasMatch, hasAction, isAction, etherType, srcMac, dst⟩ := ready
  have install : target.install s ⟨addr, res, .cap, co⟩ =
      some ⟨⟨addr, res, .cap, co⟩, [⟨addr', res', .capMatch, cmo⟩, action]⟩ := by
    have refs : target.refs .cap co =
      [(co.matchObject.getD [], .capMatch), (co.actionObject.getD [], .capAction)] := rfl
    rw [Target.install, refs]
    simp [resolved, hasMatch, hasAction, isAction]
  refine ⟨_, BrcmCap.bind co cmo, install, rfl, rfl, ?_⟩
  intro key
  rw [BrcmCap.bind, etherType, srcMac, dst]
  cases key <;> simp

theorem storeAll_installed (cfg : List AfiJsonResource) : ∀ s : Agent,
    (s.storeAll pb target cfg).installed = s.installed := by
  induction cfg with
  | nil => exact fun _ => rfl
  | cons res rest ih =>
      intro s
      have first : (s.storeCreated pb target res).installed = s.installed := by
        unfold storeCreated
        split <;> rfl
      exact (ih _).trans first

/-- In a sorted list what is less than a member stands before it. -/
theorem mem_before {before after : List (Str × AfiObject)} {entry other : Str × AfiObject}
    (sorted : (before ++ entry :: after).Pairwise fun a b => compare a.1 b.1 = .lt)
    (member : other ∈ before ++ entry :: after) (less : compare other.1 entry.1 = .lt) :
    other ∈ before := by
  have irrefl {name : Str} : ¬ compare name name = .lt := by
    rw [Std.ReflOrd.compare_self]
    decide
  rcases List.mem_append.mp member with early | late
  · exact early
  · rcases List.mem_cons.mp late with rfl | behind
    · exact absurd less irrefl
    · have greater := List.rel_of_pairwise_cons (List.pairwise_append.mp sorted).2.1 behind
      exact absurd (Std.TransCmp.lt_trans less greater) irrefl

section
variable {s u t : Agent} (old : u.installed = s.installed) (binds : Binds target u u.objects t)
  (ready : ∀ name addr res co, u.lookup name = some ⟨addr, res, .cap, co⟩ → CapReady u co)
  (named : ∀ name addr res entry, u.lookup name = some ⟨addr, res, .capEntry, entry⟩ →
    compare (entry.parentName.getD []) name = .lt)
include ready

/-- A `cap` among the objects that have been bound has had its group added. -/
theorem group_of_bound {bound : List (Str × AfiObject)}
    (held : ∀ entry ∈ bound, u.lookup entry.1 = some entry.2) {name : Str} {addr : Nat}
    {res : AfiJsonResource} {co : AfiCap} (member : (name, ⟨addr, res, .cap, co⟩) ∈ bound) :
    ∃ group, .addGroup group ∈ fpCalls memory
        ((bound.filterMap (target.installEntry u)).reverse ++ s.installed) ∧
      group.id = co.groupId.getD 0 ∧ ∀ key, key ∈ group.keys := by
  obtain ⟨installed, group, made, call, id, keys⟩ :=
    install_cap memory (ready _ _ _ _ (held _ member)) addr res
  refine ⟨group, ?_, id, keys⟩
  apply List.mem_filterMap.mpr
  refine ⟨installed, List.mem_append_left _ (List.mem_reverse.mpr ?_), call⟩
  exact List.mem_filterMap.mpr ⟨_, member, made⟩

include named

/-- The objects are bound in the order of their names, each rule after its group. -/
theorem prepared_bound (prepared : Prepared (fpCalls memory s.installed))
    (bound later : List (Str × AfiObject)) (split : u.objectsMap.live.toList = bound ++ later) :
    Prepared (fpCalls memory
      ((bound.filterMap (target.installEntry u)).reverse ++ s.installed)) := by
  have held : ∀ entry ∈ u.objectsMap.live.toList, u.lookup entry.1 = some entry.2 :=
    fun entry member => mem_live_toList.mp member
  have sorted := u.objectsMap.live.ordered_keys_toList
  induction bound using List.reverseRecOn generalizing later with
  | nil => exact prepared
  | append_singleton bound entry ih =>
      have before := ih (entry :: later) (by rw [split, List.append_assoc]; rfl)
      rw [List.append_assoc] at split
      rw [List.filterMap_append]
      cases made : target.installEntry u entry with
      | none =>
          rw [List.filterMap_cons_none made, List.filterMap_nil, List.append_nil]
          exact before
      | some installed =>
          rw [List.filterMap_cons_some made, List.filterMap_nil, List.reverse_append,
            List.reverse_singleton, List.singleton_append, List.cons_append, fpCalls,
            List.filterMap_cons]
          cases call : fpCall memory installed with
          | none => exact before
          | some call' =>
              apply prepared_cons before
              intro rule same
              rw [same] at call
              obtain ⟨addr, res, message, addr', res', co, isEntry, parent, group⟩ :=
                install_rule made call
              have less := named entry.1 addr res message (by
                rw [held entry (by simp [split]), isEntry])
              have member : (message.parentName.getD [], ⟨addr', res', .cap, co⟩) ∈ bound := by
                have listed := mem_live_toList.mpr parent
                rw [split] at listed
                exact mem_before (split ▸ sorted) listed less
              obtain ⟨added, member, id, keys⟩ := group_of_bound memory ready
                (fun entry member => held entry (by simp [split, member])) member
              exact ⟨added, member, takes_of_keys id keys group⟩

include old binds

theorem grouped_bound (prepared : Prepared (fpCalls memory s.installed)) :
    Grouped memory t := by
  have installed : t.installed = (u.objectsMap.live.toList.filterMap
      (target.installEntry u)).reverse ++ s.installed := by
    rw [binds.installed_entries, old]
  have held : ∀ entry ∈ u.objectsMap.live.toList, u.lookup entry.1 = some entry.2 :=
    fun entry member => mem_live_toList.mp member
  constructor
  · rw [installed]
    exact prepared_bound memory ready named prepared _ [] (List.append_nil _).symm
  · intro name addr res co found
    rw [binds.lookup] at found
    rw [installed]
    exact group_of_bound memory ready held (mem_live_toList.mpr found)
  · intro name addr res entry found
    rw [binds.lookup] at found
    exact named name addr res entry found

end

/-- The entries in the store after the objects of a configuration are stored. -/
theorem named_storeAll {s : Agent} (grouped : Grouped memory s) (config : ForwardingPipelineConfig)
    {cfg : List AfiJsonResource}
    (first : ∀ res ∈ cfg, ∀ entry : AfiCapEntry,
      creation pb target res = .ok (some ⟨.capEntry, entry⟩) →
        compare (entry.parentName.getD []) res.name = .lt) (name : Str) (addr : Nat)
    (res : AfiJsonResource) (entry : AfiCapEntry)
    (found : ((s.withResources config).storeAll pb target cfg).lookup name =
      some ⟨addr, res, .capEntry, entry⟩) : compare (entry.parentName.getD []) name = .lt := by
  have shown := view_storeAll pb target cfg name (s.withResources config)
  have here : ((s.withResources config).storeAll pb target cfg).view name =
      some (res, ⟨.capEntry, entry⟩) := by
    rw [Agent.view, found]
    rfl
  rw [here] at shown
  cases last : lastOf name (madeObjects pb target cfg) with
  | some made =>
      rw [last, Option.some_or] at shown
      have same := Option.some.inj shown
      rw [← same] at last
      obtain ⟨listed, called, created⟩ := mem_madeObjects (lastOf_mem last)
      rw [← called]
      exact first res listed entry created
  | none =>
      rw [last, Option.none_or] at shown
      obtain ⟨⟨addr', res', cls, message⟩, before, same⟩ := Option.map_eq_some_iff.mp shown.symm
      cases same
      exact grouped.named name addr' res' message before

/-- One operation that meets the condition keeps what is grouped. -/
theorem step_grouped {parsers : Parsers} (roundTrips : pb.RoundTrips) {s t : Agent} {op : StoreOp}
    (grouped : Grouped memory s) (meets : GroupsFirst parsers pb s op)
    (taken : StoreOp.step parsers pb target s op = some t) : Grouped memory t := by
  cases op with
  | setForwardingPipelineConfig config =>
      obtain ⟨cfg, read, _, binds⟩ := StoreOp.step_setForwardingPipelineConfig taken
      obtain ⟨ready, first⟩ := meets cfg read
      exact grouped_bound memory (storeAll_installed cfg _) binds ready
        (named_storeAll memory grouped config first) grouped.prepared
  | addTable aftTreeName keyField protocol defaultNextObject treeSize =>
      have isTree : target.creators (str "afi-tree") = some .tree := rfl
      have harmless : Harmless pb
          (afiTreeJsonObject pb aftTreeName keyField protocol defaultNextObject treeSize) :=
        harmless_of_class isTree (by decide) (by decide)
      obtain ⟨_, kept⟩ := (handleAfiJsonObject_keeps memory s harmless).of_returnedState taken
      exact kept.grouped grouped
  | tableInsert mem entry =>
      obtain ⟨_, kept⟩ :=
        (tableInsert_keeps memory roundTrips mem entry s meets).of_returnedState taken
      exact kept.grouped grouped

theorem grouped_fresh : Grouped memory {} where
  prepared := trivial
  caps name addr res co found := by
    simp [Agent.lookup, deref] at found
  named name addr res entry found := by
    simp [Agent.lookup, deref] at found

/-- In every state of a run whose operations meet the condition, each rule of the device was
installed after a group was added that takes it. -/
theorem groups_before_rules (parsers : Parsers) (roundTrips : pb.RoundTrips) (ops : List StoreOp)
    (meets : EveryStep (StoreOp.step parsers pb target) (GroupsFirst parsers pb) {} ops) :
    EveryState (StoreOp.step parsers pb target)
      (fun s => Prepared (fpCalls memory s.installed)) {} ops := by
  have states := everyState_of_everyStep (P := Grouped memory)
    (fun _ _ _ grouped meets taken => step_grouped memory roundTrips grouped meets taken)
    (grouped_fresh memory) meets
  exact states.mono fun s grouped => grouped.prepared

end

/-- What can be loaded is what the loop stores. -/
theorem contents_of_load {pb : Protobuf} {target : Target} {cfg : List AfiJsonResource} :
    ∀ {s : Agent} {loaded : Contents}, load pb target s.contents (cfg.map some) = some loaded →
      (s.storeAll pb target cfg).contents = loaded := by
  induction cfg with
  | nil => exact fun loads => Option.some.inj loads
  | cons res rest ih =>
      intro s loaded loads
      rw [List.map_cons, load] at loads
      split at loads
      · rename_i value made
        have stored : (s.storeObject res value).contents =
            Function.update s.contents res.name (some value) := by
          funext name
          rw [Agent.contents, lookup_storeObject]
          by_cases here : name = res.name
          · rw [here, if_pos rfl, Function.update_self]
            rfl
          · rw [if_neg (Ne.symm here), Function.update_of_ne here]
            rfl
        have first : s.storeAll pb target (res :: rest) =
            (s.storeObject res value).storeAll pb target rest := by
          unfold Agent.storeAll
          rw [List.foldl_cons, storeCreated, made]
        rw [first]
        exact ih (stored ▸ loads)
      · cases loads

theorem spine_stored (c : AfiClass) (message : c.Message)
    (short : (AfiWire.protobuf.serialize c message).length < 2147483648) :
    Spine.stored c message = ⟨c, message⟩ := by
  have parsed : AfiWire.protobuf.parse c (AfiWire.protobuf.serialize c message) = message :=
    AfiWire.classRoundTrips c message short
  rw [Spine.stored, parsed]

/-- The `cap` of the spine pipeline is ready, and the pipeline has no entries. -/
theorem spine_groupsFirst : GroupsFirst (arrayParsers Spine.objects) AfiWire.protobuf {}
    (.setForwardingPipelineConfig (spineConfig Spine.objects)) := by
  intro cfg read
  have same := (spineConfig_read Spine.objects).symm.trans read
  obtain rfl : Spine.objects = cfg :=
    List.map_injective_iff.mpr (Option.some_injective _) (Option.some.inj same)
  set u := (Agent.withResources {} (spineConfig Spine.objects)).storeAll AfiWire.protobuf target
    Spine.objects with stored
  have contents : u.contents = Spine.loaded := contents_of_load Spine.load_cfgRoot
  constructor
  · intro name addr res co found
    have value : u.contents name = some ⟨.cap, co⟩ := by rw [Agent.contents, found]; rfl
    rw [contents] at value
    simp only [Spine.loaded, Function.update_apply] at value
    split at value
    · cases value
    · split at value
      · have bound := (congrFun contents Spine.matchName).trans (Function.update_self ..)
        obtain ⟨⟨addr', res', cls, cmo⟩, foundMatch, isMatch⟩ := Option.map_eq_some_iff.mp bound
        have action : u.contents Spine.actionName =
            some (Spine.stored .capAction { vrf := some true }) := by
          rw [contents]
          rfl
        obtain ⟨action, foundAction, isAction⟩ := Option.map_eq_some_iff.mp action
        have isMatch := isMatch.trans (spine_stored .capMatch Spine.capMatch (by decide +kernel))
        rw [spine_stored .cap Spine.cap (by decide +kernel)] at value
        cases isMatch
        cases value
        exact ⟨addr', res', Spine.capMatch, action, foundMatch, foundAction,
          congrArg Sigma.fst isAction, rfl, rfl, rfl⟩
      · split at value <;> cases value
  · intro res member entry made
    have listed := List.mem_map_of_mem (f := creation AfiWire.protobuf target) member
    rw [Spine.objects_creation, made] at listed
    simp [Spine.stored] at listed

/-- The spine pipeline and then an entry of its table. -/
def spineOps : List StoreOp :=
  [.setForwardingPipelineConfig (spineConfig Spine.objects),
    .tableInsert {} (vrfEntry Spine.first.1 Spine.first.2)]

/-- The entry is made. -/
theorem spineOps_run : ∃ t, run (StoreOp.step (arrayParsers Spine.objects) AfiWire.protobuf target)
    {} spineOps = some t ∧ rules (fun _ _ => 0) t.installed ≠ [] := by
  obtain ⟨s, returned, info, contents⟩ := setForwardingPipelineConfig_returns AfiWire.protobuf
    target (spineConfig Spine.objects) {} (spineConfig_read Spine.objects) noNulls_empty
    Spine.load_cfgRoot Spine.allBound_loaded
  have info : SameInfo { p4Info := Spine.p4Info } s := ⟨info.table, info.action⟩
  have bound := (congrFun contents Spine.vrfTable.name).trans Spine.loaded_vrfTable
  obtain ⟨⟨addr, res, cls, co⟩, found, value⟩ := Option.map_eq_some_iff.mp bound
  obtain rfl : cls = .cap := congrArg Sigma.fst value
  have ready : Spine.Ready s ⟨addr, res, .cap, co⟩ :=
    ⟨(info.table _).trans Spine.p4Info_table, (info.action _).trans Spine.p4Info_action, found, rfl⟩
  obtain ⟨shortMatch, shortAction, shortEntry⟩ :=
    Spine.children_short (show Spine.first ∈ _ from List.mem_cons_self)
  obtain ⟨t, taken, ruled⟩ := step_requested AfiWire.protobuf_roundTrips (fun _ _ => 0)
    (spine_requested ready Spine.first.1 Spine.first.2)
    ⟨spine_named, shortMatch, shortAction, shortEntry⟩ (spine_noRoute _ _ _)
  refine ⟨t, ?_, by simp [ruled.rules]⟩
  have first : StoreOp.step (arrayParsers Spine.objects) AfiWire.protobuf target {}
      (.setForwardingPipelineConfig (spineConfig Spine.objects)) = some s := by
    rw [StoreOp.step, spineConfig_read]
    dsimp only
    rw [if_pos ((allCreatable_iff _ _).mpr ⟨_, rfl, Spine.objects_creatable⟩), returned]
    rfl
  have second : StoreOp.step (arrayParsers Spine.objects) AfiWire.protobuf target s
      (.tableInsert {} (vrfEntry Spine.first.1 Spine.first.2)) = some t := by
    have same : writeUpdate AfiWire.protobuf target .OK
        ⟨.insert, .tableEntry (vrfEntry Spine.first.1 Spine.first.2)⟩ {} s =
          tableInsert AfiWire.protobuf target {} (vrfEntry Spine.first.1 Spine.first.2) s := rfl
    rw [P4RuntimeServiceImpl.step, same] at taken
    rw [StoreOp.step]
    cases inserted : tableInsert AfiWire.protobuf target {}
        (vrfEntry Spine.first.1 Spine.first.2) s with
    | ok _ u => simpa [inserted, returnedState] using taken
    | error _ u => simp [inserted] at taken
  rw [spineOps, run, first, Option.bind_some, run, second]
  rfl

theorem groups_before_rules_spine :
    let step := StoreOp.step (arrayParsers Spine.objects) AfiWire.protobuf target
    (∃ t, run step {} spineOps = some t ∧ rules (fun _ _ => 0) t.installed ≠ []) ∧
      EveryState step (fun s => Prepared (fpCalls (fun _ _ => 0) s.installed)) {} spineOps := by
  refine ⟨spineOps_run, groups_before_rules (fun _ _ => 0) (arrayParsers Spine.objects)
    AfiWire.protobuf_roundTrips spineOps
    ⟨spine_groupsFirst, fun s taken => ⟨?_, fun _ _ => trivial⟩⟩⟩
  intro table known
  obtain ⟨cfg, _, _, binds⟩ := StoreOp.step_setForwardingPipelineConfig taken
  have maps : s.p4Info = Spine.p4Info := binds.p4Info.trans (storeAll_p4Info _ _ _ _)
  have info : SameInfo { p4Info := Spine.p4Info } s := by
    constructor
    all_goals
      intro id
      rw [maps]
  rw [spine_tables info known]
  exact ⟨spine_named, by decide +kernel⟩

end JP4Agent.Brcm
