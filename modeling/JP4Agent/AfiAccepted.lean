import JP4Agent.AfiInserts

set_option autoImplicit false

namespace JP4Agent

/-- The types of the objects that an object of this class makes for an entry. -/
def childTypes : AfiClass → List Str
  | .cap => [str "afi-cap-entry-match", str "afi-cap-entry-action", str "afi-cap-entry"]
  | .treeEncap => [str "afi-encap-entry", str "afi-tree-entry", str "afi-tree-encap-entry"]
  | _ => []

/-- The table and the action are known and have these match fields and parameters, and
the table has an object that makes children the target can create. -/
def AfiAccepts (target : Target) (s : Agent) (tId aId : UInt32)
    (fieldIds paramIds : List UInt32) : Prop :=
  ∃ table action afiPObj, s.p4Info.table? tId = some table ∧ s.p4Info.action? aId = some action ∧
    s.lookup table.name = some afiPObj ∧
    (∀ id ∈ fieldIds, (table.matchFieldInfo id).isSome) ∧
    (∀ id ∈ paramIds, action.actionParamName id ≠ []) ∧
    childTypes afiPObj.cls ≠ [] ∧ ∀ type ∈ childTypes afiPObj.cls, (target.creators type).isSome

section
variable (pb : Protobuf) (table : P4InfoTable) (action : P4InfoAction)
  (mfs : List AfiTEntryMatchField) (aes : List AfiAEntry)

/-- The table has these match fields. -/
def FieldsKnown : Prop := ∀ id ∈ mfs.map AfiTEntryMatchField.id, (table.matchFieldInfo id).isSome

/-- The action has these parameters. -/
def ParamsKnown : Prop := ∀ id ∈ aes.map AfiAEntry.id, action.actionParamName id ≠ []

theorem fieldsKnown_cons (mf : AfiTEntryMatchField) :
    FieldsKnown table (mf :: mfs) ↔ (table.matchFieldInfo mf.id).isSome ∧ FieldsKnown table mfs :=
  List.forall_mem_cons

theorem paramsKnown_cons (ae : AfiAEntry) :
    ParamsKnown action (ae :: aes) ↔ action.actionParamName ae.id ≠ [] ∧ ParamsKnown action aes :=
  List.forall_mem_cons

theorem AfiCap.matchObj_isSome : ∀ obj : AfiCapEntryMatch,
    (matchObj table obj mfs).isSome ↔ FieldsKnown table mfs := by
  induction mfs with
  | nil => exact fun obj => ⟨fun _ => nofun, fun _ => rfl⟩
  | cons mf rest ih =>
      intro obj
      rw [matchObj, fieldsKnown_cons]
      cases table.matchFieldInfo mf.id with
      | none => simp
      | some info => simp [ih]

theorem AfiCap.actionObj_isSome : ∀ obj : AfiCapEntryAction,
    (actionObj action obj aes).isSome ↔ ParamsKnown action aes := by
  induction aes with
  | nil => exact fun obj => ⟨fun _ => nofun, fun _ => rfl⟩
  | cons ae rest ih =>
      intro obj
      rw [actionObj, paramsKnown_cons]
      by_cases unnamed : action.actionParamName ae.id = []
      · simp [unnamed]
      · simp [unnamed, ih]

theorem AfiTreeEncap.afiKeys_isSome :
    (afiKeys action aes).isSome ↔ ParamsKnown action aes := by
  induction aes with
  | nil => exact ⟨fun _ => nofun, fun _ => rfl⟩
  | cons ae rest ih =>
      rw [afiKeys, paramsKnown_cons]
      by_cases unnamed : action.actionParamName ae.id = []
      · simp [unnamed]
      · simp [unnamed, ih]

theorem AfiTreeEncap.treeEntryObj_isSome : ∀ obj : AfiTreeEntry,
    (treeEntryObj table obj mfs).isSome ↔ FieldsKnown table mfs := by
  induction mfs with
  | nil => exact fun obj => ⟨fun _ => nofun, fun _ => rfl⟩
  | cons mf rest ih =>
      intro obj
      rw [treeEntryObj, fieldsKnown_cons]
      cases table.matchFieldInfo mf.id with
      | none => simp
      | some info => simp [ih]

/-- An object makes all children of an entry exactly if its class has children and the
fields and parameters are known; they then have the types of the class. -/
theorem AfiObject.childObjs_created_iff (obj : AfiObject) :
    ((obj.childObjs pb table action mfs aes).1 = true ↔
      childTypes obj.cls ≠ [] ∧ FieldsKnown table mfs ∧ ParamsKnown action aes) ∧
    ((obj.childObjs pb table action mfs aes).1 = true →
      (obj.childObjs pb table action mfs aes).2.map AfiJsonResource.type = childTypes obj.cls) := by
  rcases obj with ⟨addr, res, cls, message⟩
  cases cls with
  | cap =>
      have fields := AfiCap.matchObj_isSome table mfs {}
      have params := AfiCap.actionObj_isSome action aes {}
      change ((AfiCap.childObjs pb table action mfs aes).1 = true ↔ _) ∧
        ((AfiCap.childObjs pb table action mfs aes).1 = true →
          (AfiCap.childObjs pb table action mfs aes).2.map AfiJsonResource.type = _)
      rw [AfiCap.childObjs, ← fields, ← params]
      cases AfiCap.matchObj table {} mfs with
      | none => simp
      | some afiMatchObj =>
          cases AfiCap.actionObj action {} aes with
          | none => simp
          | some afiActionObj =>
              exact ⟨⟨fun _ => ⟨List.cons_ne_nil _ _, rfl, rfl⟩, fun _ => rfl⟩, fun _ => rfl⟩
  | treeEncap =>
      have fields := AfiTreeEncap.treeEntryObj_isSome table mfs {}
      have params := AfiTreeEncap.afiKeys_isSome action aes
      change ((AfiTreeEncap.childObjs pb table action mfs aes).1 = true ↔ _) ∧
        ((AfiTreeEncap.childObjs pb table action mfs aes).1 = true →
          (AfiTreeEncap.childObjs pb table action mfs aes).2.map AfiJsonResource.type = _)
      rw [AfiTreeEncap.childObjs, ← fields, ← params]
      cases AfiTreeEncap.afiKeys action aes with
      | none => simp
      | some keys =>
          cases AfiTreeEncap.treeEntryObj table {} mfs with
          | none => simp
          | some afiTreeEntryObj =>
              exact ⟨⟨fun _ => ⟨List.cons_ne_nil _ _, rfl, rfl⟩, fun _ => rfl⟩, fun _ => rfl⟩
  | _ =>
      have not : ¬ false = true := Bool.false_ne_true
      exact ⟨⟨fun made => absurd made not, fun wrong => absurd rfl wrong.1⟩,
        fun made => absurd made not⟩

end

/-- The children of an entry are all made and can all be created exactly if the entry is
accepted. -/
theorem childrenOf_accepted_iff (pb : Protobuf) (target : Target) (s : Agent) (tId aId : UInt32)
    (mfs : List AfiTEntryMatchField) (aes : List AfiAEntry) :
    (∃ eObjs, childrenOf pb s tId aId mfs aes = some eObjs ∧
      ∀ res ∈ eObjs, (target.creators res.type).isSome) ↔
    AfiAccepts target s tId aId (mfs.map AfiTEntryMatchField.id) (aes.map AfiAEntry.id) := by
  constructor
  · rintro ⟨eObjs, children, creators⟩
    simp only [childrenOf, Option.bind_eq_bind, Option.bind_eq_some_iff] at children
    obtain ⟨table, hasTable, action, hasAction, afiPObj, hasParent, children⟩ := children
    obtain ⟨created, ⟨⟩⟩ := Option.ite_none_right_eq_some.mp children
    obtain ⟨iff, types⟩ := afiPObj.childObjs_created_iff pb table action mfs aes
    obtain ⟨makes, fields, params⟩ := iff.mp created
    refine ⟨table, action, afiPObj, hasTable, hasAction, hasParent, fields, params, makes, ?_⟩
    rw [← types created]
    exact List.forall_mem_map.mpr creators
  · rintro ⟨table, action, afiPObj, hasTable, hasAction, hasParent, fields, params, makes, creators⟩
    obtain ⟨iff, types⟩ := afiPObj.childObjs_created_iff pb table action mfs aes
    have created := iff.mpr ⟨makes, fields, params⟩
    refine ⟨_, childrenOf_eq pb hasTable hasAction hasParent (Prod.ext created rfl), ?_⟩
    rw [← types created] at creators
    exact List.forall_mem_map.mp creators

end JP4Agent
