import JP4Agent.AfiStoreRuns

set_option autoImplicit false

namespace JP4Agent
open Agent Afi

theorem endingsOf_subset (c : AfiClass) :
    (endingsOf c).Sublist (AfiCap.endings ++ AfiTreeEncap.endings) := by
  cases c with
  | cap => exact List.sublist_append_left _ _
  | treeEncap => exact List.sublist_append_right _ _
  | _ => exact List.nil_sublist _

section
variable {s : Agent} {table : P4InfoTable} {afiPObj : AfiObject}
  {tId : UInt32} (hasTable : s.p4Info.table? tId = some table)
  (hasParent : s.lookup table.name = some afiPObj)
include hasTable hasParent

theorem generatedNames_eq :
    s.generatedNames tId = (endingsOf afiPObj.cls).map (table.name ++ ·) := by
  simp only [generatedNames, hasTable, hasParent]

theorem table_not_generated : table.name ∉ s.generatedNames tId := by
  rw [generatedNames_eq hasTable hasParent, List.mem_map]
  rintro ⟨ending, member, same⟩
  have ending_nil : ending = [] := List.append_right_eq_self.mp same
  have endings_ne_nil : [] ∉ AfiCap.endings ++ AfiTreeEncap.endings := by decide
  exact endings_ne_nil (ending_nil ▸ (endingsOf_subset afiPObj.cls).subset member)

end

section
variable (pb : Protobuf) (target : Target)

/-- In state `s` a call of `createChildJsonRes`, of whichever object, for the table named
`T` appends objects of these names. -/
def Generates (s : Agent) (T : Str) (names : List Str) : Prop :=
  ∃ (obj : AfiObject) (tId aId : UInt32) (mfs : List AfiTEntryMatchField) (aes : List AfiAEntry)
    (table : P4InfoTable) (created : Bool) (eObjs : List AfiJsonResource) (t : Agent),
    s.p4Info.table? tId = some table ∧ table.name = T ∧
      obj.createChildJsonRes pb tId aId mfs aes s = .ok (created, eObjs) t ∧
      eObjs.map AfiJsonResource.name = names

variable {pb} in
theorem Generates.sublist {s : Agent} {T : Str} {names : List Str} (made : Generates pb s T names) :
    names.Sublist ((AfiCap.endings ++ AfiTreeEncap.endings).map (T ++ ·)) := by
  obtain ⟨obj, tId, aId, mfs, aes, table, created, eObjs, t, hasTable, rfl, returned, rfl⟩ := made
  obtain ⟨children, _⟩ := (createChildJsonRes_ends pb obj tId aId mfs aes s).of_ok returned
  rw [AfiObject.createdChildren, hasTable] at children
  cases hasAction : s.p4Info.action? aId with
  | none =>
      rw [hasAction] at children
      cases children
      exact List.nil_sublist _
  | some action =>
      rw [hasAction] at children
      dsimp only at children
      have names := obj.childObjs_names pb table action mfs aes
      rw [← children] at names
      exact names.sublist.trans ((endingsOf_subset obj.cls).map (table.name ++ ·))

/-- The children of an entry have different names, the children of entries of tables
with different names too, and an insert changes no binding but those of its table's
children. -/
theorem inserts_do_not_interfere :
    (∀ (s : Agent) (T : Str) (names : List Str), Generates pb s T names → names.Nodup) ∧
    (∀ (s s' : Agent) (T T' : Str) (names names' : List Str), T ≠ T' →
      Generates pb s T names → Generates pb s' T' names' → List.Disjoint names names') ∧
    ∀ (s t : Agent) (tId aId : UInt32) (mfs : List AfiTEntryMatchField) (aes : List AfiAEntry)
      (r : Bool), afiAddObjEntry pb target tId aId mfs aes s = .ok r t →
      ∀ (name : Str) (obj : AfiObject), name ∉ s.generatedNames tId →
        s.lookup name = some obj → t.lookup name = some obj := by
  refine ⟨?_, ?_, ?_⟩
  · intro s T names made
    exact (nodup_map_append _ endings_nodup T).sublist made.sublist
  · intro s s' T T' names names' apart made made' name member member'
    exact endings_suffixFree.disjoint_map_append apart (made.sublist.subset member)
      (made'.sublist.subset member')
  · intro s t tId aId mfs aes r returned name obj outside bound
    have ends := afiAddObjEntry_adds pb target tId aId mfs aes s
    rw [(ends.of_ok returned).1.outside name outside, bound]

end

theorem generates_cap (pb : Protobuf) {s : Agent} {tId aId : UInt32} {table : P4InfoTable}
    {action : P4InfoAction} (hasTable : s.p4Info.table? tId = some table)
    (hasAction : s.p4Info.action? aId = some action) :
    Generates pb s table.name (AfiCap.endings.map (table.name ++ ·)) := by
  let obj : AfiObject := ⟨0, childJsonRes pb [] 0 table.name .cap {}, .cap, {}⟩
  obtain ⟨⟨created, eObjs⟩, t, returned, children, _⟩ :=
    (createChildJsonRes_ends pb obj tId aId [] [] s).returns
  refine ⟨obj, tId, aId, [], [], table, created, eObjs, t, hasTable, rfl, returned, ?_⟩
  rw [AfiObject.createdChildren, hasTable, hasAction] at children
  cases children
  exact AfiCap.childNames table.name

theorem inserts_do_not_interfere_spine : ∃ s t afiPObj,
    run (Process.step AfiWire.protobuf Brcm.target) {} Spine.ops = some { agent := s } ∧
      (AfiCap.endings.map (Spine.vrfTable.name ++ ·)).Nodup ∧
      List.Disjoint (AfiCap.endings.map (Spine.vrfTable.name ++ ·))
        (AfiCap.endings.map (str "ingress.class_id.class_id_table" ++ ·)) ∧
      afiAddObjEntry AfiWire.protobuf Brcm.target Spine.vrfTable.id Spine.setVrf.id
        (Spine.mfs Spine.first.1 Spine.first.2) Spine.aes s = .ok true t ∧
      s.lookup Spine.vrfTable.name = some afiPObj ∧
      t.lookup Spine.vrfTable.name = some afiPObj := by
  obtain ⟨s, afiPObj, reached, ready⟩ := Spine.ops_ready
  obtain ⟨t, returned⟩ := afiAddObjEntry_created AfiWire.protobuf Brcm.target
    (Spine.childrenOf_entry ready _ _) (Spine.children_created List.mem_cons_self)
  obtain ⟨distinct, disjoint, frame⟩ := inserts_do_not_interfere AfiWire.protobuf Brcm.target
  let classIdTable : P4InfoTable := ⟨33554444, str "ingress.class_id.class_id_table", []⟩
  let other : Agent := { p4Info := Spine.p4Info.insert2IdMap (.table classIdTable) }
  have hasTable : other.p4Info.table? classIdTable.id = some classIdTable := by
    rw [P4Info.table?, P4Info.p4InfoResource_insert2IdMap]
    rfl
  have hasAction : other.p4Info.action? Spine.setVrf.id = some Spine.setVrf := by
    rw [P4Info.action?, P4Info.p4InfoResource_insert2IdMap, if_neg (by decide)]
    exact Spine.p4Info_action
  have made := generates_cap AfiWire.protobuf ready.hasTable ready.hasAction
  exact ⟨s, t, afiPObj, reached, distinct _ _ _ made,
    disjoint _ _ _ _ _ _ (by decide) made
      (generates_cap _ hasTable hasAction), returned, ready.hasParent,
    frame _ _ _ _ _ _ _ returned _ _
      (table_not_generated ready.hasTable ready.hasParent) ready.hasParent⟩

section
variable (pb : Protobuf) (target : Target) (tId : UInt32)

structure Insert where
  aId : UInt32
  mfs : List AfiTEntryMatchField
  aes : List AfiAEntry

def insert (s : Agent) (call : Insert) : Option Agent :=
  match afiAddObjEntry pb target tId call.aId call.mfs call.aes s with
  | .ok true t => some t
  | _ => none

/-- The insert leaves the names it does not generate alone, and stores a new object under
each of those it does. -/
theorem insert_adds {s t : Agent} {call : Insert}
    (inserted : insert pb target tId s call = some t) :
    Added s (s.generatedNames tId) t ∧ ∀ name ∈ s.generatedNames tId, Fresh s t name := by
  unfold insert at inserted
  split at inserted
  · rename_i returned
    cases inserted
    obtain ⟨added, _, fresh⟩ :=
      (afiAddObjEntry_adds pb target tId call.aId call.mfs call.aes s).of_ok returned
    exact ⟨added, fresh rfl⟩
  · cases inserted

/-- After the whole sequence the store holds, under each generated name, the object
that this call made. -/
def NoneLost (s : Agent) (calls : List Insert) (final : Agent) : Prop :=
  ∀ (before after : List Insert) (call : Insert) (t u : Agent), calls = before ++ call :: after →
    run (insert pb target tId) s before = some t → insert pb target tId t call = some u →
    ∀ name ∈ t.generatedNames tId, ∃ obj, u.lookup name = some obj ∧ t.nextAddr ≤ obj.addr ∧
      final.lookup name = some obj

theorem generatedNames_insert {s t : Agent} {table : P4InfoTable} {afiPObj : AfiObject}
    (hasTable : s.p4Info.table? tId = some table) (hasParent : s.lookup table.name = some afiPObj)
    {call : Insert} (inserted : insert pb target tId s call = some t) :
    t.generatedNames tId = s.generatedNames tId := by
  have added := (insert_adds pb target tId inserted).1
  have hasParent' : t.lookup table.name = some afiPObj := by
    rw [added.outside _ (table_not_generated hasTable hasParent), hasParent]
  rw [generatedNames_eq ((added.table tId).trans hasTable) hasParent',
    generatedNames_eq hasTable hasParent]

/-- The second insert replaces the objects of the first. -/
theorem lost_of_two {s final : Agent} {table : P4InfoTable} {afiPObj : AfiObject}
    (hasTable : s.p4Info.table? tId = some table) (hasParent : s.lookup table.name = some afiPObj)
    (cap : afiPObj.cls = .cap) {first second : Insert} {rest : List Insert}
    (ran : run (insert pb target tId) s (first :: second :: rest) = some final) :
    ¬ NoneLost pb target tId s (first :: second :: rest) final := by
  intro kept
  obtain ⟨t, inserted, more⟩ := run_cons ran
  obtain ⟨u, inserted', _⟩ := run_cons more
  have same := generatedNames_insert pb target tId hasTable hasParent inserted
  have generated : AfiCap.entryName table.name ∈ s.generatedNames tId := by
    rw [generatedNames_eq hasTable hasParent, cap]
    change _ ∈ AfiCap.endings.map (table.name ++ ·)
    rw [← AfiCap.childNames]
    simp
  obtain ⟨obj, found, _, held⟩ := kept [] (second :: rest) first s t rfl rfl inserted _ generated
  obtain ⟨obj', _, later, held'⟩ := kept [first] rest second t u rfl
    (by rw [run, inserted]; rfl) inserted' _ (same ▸ generated)
  -- one name cannot hold an object made before `t` and one made after it
  obtain ⟨made, found', _, earlier⟩ := (insert_adds pb target tId inserted).2 _ generated
  cases found.symm.trans found'
  cases held.symm.trans held'
  omega

theorem kept_of_few {s final : Agent} {calls : List Insert} (few : calls.length ≤ 1)
    (ran : run (insert pb target tId) s calls = some final) :
    NoneLost pb target tId s calls final := by
  intro before after call t u split reached inserted name member
  have lengths := congrArg List.length split
  rw [List.length_append, List.length_cons] at lengths
  have noneBefore : before = [] := List.length_eq_zero_iff.mp (by omega)
  have noneAfter : after = [] := List.length_eq_zero_iff.mp (by omega)
  subst noneBefore noneAfter split
  cases reached
  obtain ⟨v, taken, ended⟩ := run_cons ran
  cases ended
  cases taken.symm.trans inserted
  obtain ⟨obj, found, lower, _⟩ := (insert_adds pb target tId inserted).2 name member
  exact ⟨obj, found, lower, found⟩

/-- The objects of every insert into a `cap` table are kept exactly if there was at most
one. -/
theorem inserts_kept_iff (s final : Agent) (table : P4InfoTable) (afiPObj : AfiObject)
    (hasTable : s.p4Info.table? tId = some table) (hasParent : s.lookup table.name = some afiPObj)
    (cap : afiPObj.cls = .cap) (calls : List Insert)
    (ran : run (insert pb target tId) s calls = some final) :
    NoneLost pb target tId s calls final ↔ calls.length ≤ 1 := by
  constructor
  · intro kept
    match calls, ran, kept with
    | [], _, _ => exact Nat.zero_le 1
    | [_], _, _ => exact Nat.le_refl 1
    | first :: second :: rest, ran, kept =>
        exact (lost_of_two pb target tId hasTable hasParent cap ran kept).elim
  · exact fun few => kept_of_few pb target tId few ran

end

namespace Spine

def call (entry : Str × Str) : Insert := ⟨setVrf.id, mfs entry.1 entry.2, aes⟩

theorem call_inserted {s : Agent} {afiPObj : AfiObject} (ready : Ready s afiPObj)
    {entry : Str × Str} (member : entry ∈ [first, second]) :
    ∃ t, insert AfiWire.protobuf Brcm.target vrfTable.id s (call entry) = some t ∧
      Ready t afiPObj := by
  have children := childrenOf_entry ready entry.1 entry.2
  obtain ⟨t, returned⟩ := afiAddObjEntry_created _ _ children (children_created member)
  have inserted : insert AfiWire.protobuf Brcm.target vrfTable.id s (call entry) = some t := by
    rw [insert, call]
    dsimp only
    rw [returned]
  have added := (insert_adds _ _ _ inserted).1
  refine ⟨t, inserted, (added.table _).trans ready.hasTable,
    (added.action _).trans ready.hasAction, ?_, ready.cap⟩
  rw [added.outside _ (table_not_generated ready.hasTable ready.hasParent), ready.hasParent]

end Spine

theorem inserts_kept_iff_once : ∃ s final,
    run (Process.step AfiWire.protobuf Brcm.target) {} Spine.ops = some { agent := s } ∧
      run (insert AfiWire.protobuf Brcm.target Spine.vrfTable.id) s [Spine.call Spine.first] =
        some final ∧
      (NoneLost AfiWire.protobuf Brcm.target Spine.vrfTable.id s [Spine.call Spine.first] final ↔
        1 ≤ 1) := by
  obtain ⟨s, afiPObj, reached, ready⟩ := Spine.ops_ready
  obtain ⟨t, inserted, _⟩ := Spine.call_inserted ready List.mem_cons_self
  have ran : run (insert AfiWire.protobuf Brcm.target Spine.vrfTable.id) s
      [Spine.call Spine.first] = some t := by
    rw [run, inserted]
    rfl
  exact ⟨s, t, reached, ran, inserts_kept_iff _ _ _ s t _ afiPObj ready.hasTable ready.hasParent
    ready.cap _ ran⟩

/-- Of two entries with different match values, the objects of the first are lost. -/
theorem inserted_entry_lost : ∃ s final,
    run (Process.step AfiWire.protobuf Brcm.target) {} Spine.ops = some { agent := s } ∧
      run (insert AfiWire.protobuf Brcm.target Spine.vrfTable.id) s
        [Spine.call Spine.first, Spine.call Spine.second] = some final ∧
      (Spine.call Spine.first).mfs.map (fun mf => mf.value.str) ≠
        (Spine.call Spine.second).mfs.map (fun mf => mf.value.str) ∧
      ¬ NoneLost AfiWire.protobuf Brcm.target Spine.vrfTable.id s
        [Spine.call Spine.first, Spine.call Spine.second] final := by
  obtain ⟨s, afiPObj, reached, ready⟩ := Spine.ops_ready
  obtain ⟨t, inserted, ready'⟩ := Spine.call_inserted ready List.mem_cons_self
  obtain ⟨u, inserted', _⟩ := Spine.call_inserted ready'
    (List.mem_cons_of_mem _ List.mem_cons_self)
  have ran : run (insert AfiWire.protobuf Brcm.target Spine.vrfTable.id) s
      [Spine.call Spine.first, Spine.call Spine.second] = some u := by
    rw [run, inserted, Option.bind_some, run, inserted']
    rfl
  exact ⟨s, u, reached, ran, by decide,
    lost_of_two _ _ _ ready.hasTable ready.hasParent ready.cap ran⟩

end JP4Agent
