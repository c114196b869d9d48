import JP4Agent.AfiCapFields
import JP4Agent.AfiInsertResults
import JP4Agent.AfiStrayBytes
import JP4Agent.P4RuntimeWrites

set_option autoImplicit false

namespace JP4Agent.P4RuntimeServiceImpl
open Agent Afi AfiDevice P4 AfiCap

section
variable (mem : Memory) (tableId : UInt32)

/-- The same memory, with other bytes behind all of the strings. -/
def Memory.displaced : Memory where
  actionId := mem.actionId
  value i j := mem.value i j + 1
  mask i j := mem.mask i j + 1
  param i j := mem.param i j + 1

variable {mem tableId} in
theorem passedFields_rel {R : AfiTEntryMatchField → AfiTEntryMatchField → Prop} {mem' : Memory}
    (related : ∀ i mf, Option.Rel R (passedField mem tableId i mf) (passedField mem' tableId i mf))
    (i : Nat) (fieldMatches : List FieldMatch) :
    List.Forall₂ R (passedFields mem tableId i fieldMatches)
      (passedFields mem' tableId i fieldMatches) := by
  refine List.rel_filterMap (R := Eq) ?_ (List.forall₂_refl _)
  rintro p _ rfl
  exact related p.2 p.1

theorem passedField_same (mem' : Memory) (i : Nat) (mf : FieldMatch) :
    Option.Rel SameField (passedField mem tableId i mf) (passedField mem' tableId i mf) := by
  rcases mf with ⟨fieldId, type⟩
  cases type with
  | exact value => exact Option.Rel.some ⟨rfl, rfl, rfl, rfl⟩
  | lpm value prefixLen =>
      unfold passedField
      by_cases special : tableId = addEntryTable
      · simp only [if_pos special]
        exact Option.Rel.none
      · simp only [if_neg special]
        exact Option.Rel.some ⟨rfl, rfl, rfl, rfl⟩
  | ternary value mask => exact Option.Rel.some ⟨rfl, rfl, rfl, rfl⟩
  | _ => exact Option.Rel.none

theorem passedField_displaced (i : Nat) (mf : FieldMatch) :
    Option.Rel Displaced (passedField mem tableId i mf)
      (passedField mem.displaced tableId i mf) := by
  have value (j : Nat) : mem.value i j ≠ mem.value i j + 1 := by simp
  have mask (j : Nat) : mem.mask i j ≠ mem.mask i j + 1 := by simp
  rcases mf with ⟨fieldId, type⟩
  cases type with
  | exact bytes => exact Option.Rel.some ⟨⟨rfl, rfl, rfl, rfl⟩, value, mask⟩
  | lpm bytes prefixLen =>
      unfold passedField
      by_cases special : tableId = addEntryTable
      · simp only [if_pos special]
        exact Option.Rel.none
      · simp only [if_neg special]
        exact Option.Rel.some ⟨⟨rfl, rfl, rfl, rfl⟩, value, mask⟩
  | ternary bytes bits => exact Option.Rel.some ⟨⟨rfl, rfl, rfl, rfl⟩, value, mask⟩
  | _ => exact Option.Rel.none

theorem convertAction_same (mem' : Memory) (action : TableAction) :
    List.Forall₂ SameParam (convertAction mem action).2 (convertAction mem' action).2 := by
  cases action with
  | action aId params =>
      refine List.forall₂_map_left_iff.mpr (List.forall₂_map_right_iff.mpr ?_)
      exact List.forall₂_same.mpr fun p _ => ⟨rfl, rfl⟩
  | _ => exact List.Forall₂.nil

theorem convertAction_displaced (action : TableAction) :
    List.Forall₂ DisplacedParam (convertAction mem action).2
      (convertAction mem.displaced action).2 := by
  cases action with
  | action aId params =>
      refine List.forall₂_map_left_iff.mpr (List.forall₂_map_right_iff.mpr ?_)
      have param (i j : Nat) : mem.param i j ≠ mem.param i j + 1 := by simp
      exact List.forall₂_same.mpr fun p _ => ⟨⟨rfl, rfl⟩, param p.2⟩
  | _ => exact List.Forall₂.nil

theorem passedFields_same (mem' : Memory) (i : Nat) (fieldMatches : List FieldMatch) :
    List.Forall₂ SameField (passedFields mem tableId i fieldMatches)
      (passedFields mem' tableId i fieldMatches) :=
  passedFields_rel (passedField_same mem tableId mem') i fieldMatches

theorem passedFields_ids (mem' : Memory) (i : Nat) (fieldMatches : List FieldMatch) :
    (passedFields mem tableId i fieldMatches).map AfiTEntryMatchField.id =
      (passedFields mem' tableId i fieldMatches).map AfiTEntryMatchField.id := by
  have ids := (passedFields_same mem tableId mem' i fieldMatches).imp fun _ _ same => same.id
  have mapped := List.forall₂_map_left_iff.mpr (List.forall₂_map_right_iff.mpr ids)
  rw [List.forall₂_eq_eq_eq] at mapped
  exact mapped

theorem convertAction_ids (aId : UInt32) (params : List ActionParam) :
    (convertAction mem (.action aId params)).2.map AfiAEntry.id =
      params.map ActionParam.paramId := by
  show (params.zipIdx.map _).map AfiAEntry.id = _
  rw [List.map_map]
  have ids : (AfiAEntry.id ∘ fun p : ActionParam × Nat =>
      (⟨p.1.paramId, ⟨p.1.value, mem.param p.2⟩⟩ : AfiAEntry)) =
        ActionParam.paramId ∘ Prod.fst := rfl
  rw [ids, ← List.map_map, List.zipIdx_map_fst]

end

section
variable (pb : Protobuf) (target : Target)

/-- The rest of `tableInsert`, behind the loop. -/
def insertConverted (mem : Memory) (entry : TableEntry) (calls : List AfiCall) :
    AfiM (Status × List AfiCall) := do
  let returned ← afiAddObjEntry pb target entry.tableId (convertAction mem entry.action).1
    (passedFields mem entry.tableId 0 entry.fieldMatches) (convertAction mem entry.action).2
  pure (.OK, calls ++ [.afiAddObjEntry returned])

theorem tableInsert_eq (mem : Memory) {entry : TableEntry}
    (notDefault : entry.isDefaultAction = false) :
    tableInsert pb target mem entry =
      addEntries pb target entry.tableId entry.fieldMatches >>=
        insertConverted pb target mem entry := by
  rw [tableInsert, if_neg (by rw [notDefault]; exact Bool.false_ne_true), convertMatch_eq,
    bind_map_left]
  rfl

/-- The object that an LPM field becomes in `addEntry` can be made. -/
def LpmMade (mf : FieldMatch) : Prop :=
  ∀ value prefixLen, mf.type = .lpm value prefixLen →
    ∃ made, creation pb target (afiTreeEntryJsonObject pb value prefixLen) = .ok made

/-- The calls of `addEntry` for the match fields of the entry, if any, return. -/
def EntriesMade (entry : TableEntry) : Prop :=
  entry.tableId = addEntryTable → ∀ mf ∈ entry.fieldMatches, LpmMade pb target mf

/-- The AFI layer gets to the entry, and accepts it with this action and these parameters:
the calls of `addEntry` before it leave the object of the table in the store. -/
def Inserts (entry : TableEntry) (s : Agent) (aId : UInt32) (paramIds : List UInt32) : Prop :=
  EntriesMade pb target entry ∧
    (AddsEntry entry → ∀ table, s.p4Info.table? entry.tableId = some table →
      table.name ≠ str "entry1") ∧
    AfiAccepts target s entry.tableId aId
      ((passedFields {} entry.tableId 0 entry.fieldMatches).map AfiTEntryMatchField.id) paramIds

/-- `t` is `s` with a tree entry under the one name of `addEntry`. -/
structure StoresEntry (s t : Agent) : Prop extends SameInfo s t where
  lookup : ∃ obj : AfiObject, obj.cls = .treeEntry ∧
    ∀ name, t.lookup name = if str "entry1" = name then some obj else s.lookup name

theorem StoresEntry.trans {s t u : Agent} (first : StoresEntry s t) (second : StoresEntry t u) :
    StoresEntry s u where
  toSameInfo := first.toSameInfo.trans second.toSameInfo
  lookup := by
    obtain ⟨_, _, before⟩ := first.lookup
    obtain ⟨obj, isEntry, after⟩ := second.lookup
    refine ⟨obj, isEntry, fun name => ?_⟩
    rw [after, before]
    by_cases here : str "entry1" = name
    · rw [if_pos here, if_pos here]
    · rw [if_neg here, if_neg here, if_neg here]

end

section
variable {pb : Protobuf} {target : Target} (shipped : Shipped target)
include shipped

theorem addEntry_stores (keystr : Str) (pLen : Int32) (s : Agent) :
    Ends (addEntry pb target keystr pLen) s
      (fun _ t => StoresEntry s t ∧
        ∃ made, creation pb target (afiTreeEntryJsonObject pb keystr pLen) = .ok made)
      (fun _ _ => ∃ fault,
        creation pb target (afiTreeEntryJsonObject pb keystr pLen) = .error fault) := by
  apply (handleAfiJsonObject_handled pb target _ false s).mono
  · intro r t post
    rcases post with ⟨missing, _⟩ | ⟨value, made, _, handled⟩
    · have registered : (target.creators (str "afi-tree-entry")).isSome = false :=
        creator_of_creation pb target missing
      rw [shipped.creators.2] at registered
      cases registered
    · have cls : target.creators (str "afi-tree-entry") = some value.1 :=
        class_of_creation pb target made
      rw [shipped.creators.2] at cls
      exact ⟨⟨handled.toSameInfo, _, (Option.some.inj cls).symm, handled.lookup⟩, _, made⟩
  · rintro e t ⟨_, fault, failed, _⟩
    exact ⟨fault, failed⟩

/-- The calls for the LPM fields of the table store one entry after another. -/
theorem addEntries_stores (fieldMatches : List FieldMatch) : ∀ s : Agent,
    Ends (addEntries pb target addEntryTable fieldMatches) s
      (fun _ t => (∀ mf ∈ fieldMatches, LpmMade pb target mf) ∧
        (StoresEntry s t ∨ t = s ∧ ∀ mf ∈ fieldMatches, FieldMatchType.isLpm mf.type = false))
      (fun _ _ => ∃ mf ∈ fieldMatches, ¬ LpmMade pb target mf) := by
  induction fieldMatches with
  | nil =>
      intro s
      exact ends_pure ⟨fun _ wrong => absurd wrong List.not_mem_nil,
        Or.inr ⟨rfl, fun _ wrong => absurd wrong List.not_mem_nil⟩⟩
  | cons mf rest ih =>
      intro s
      rcases mf with ⟨fieldId, type⟩
      have skip (plain : FieldMatchType.isLpm type = false)
          (step : addEntries pb target addEntryTable (⟨fieldId, type⟩ :: rest) =
            addEntries pb target addEntryTable rest) :
          Ends (addEntries pb target addEntryTable (⟨fieldId, type⟩ :: rest)) s
            (fun _ t => (∀ mf ∈ (⟨fieldId, type⟩ :: rest : List FieldMatch), LpmMade pb target mf) ∧
              (StoresEntry s t ∨ t = s ∧ ∀ mf ∈ (⟨fieldId, type⟩ :: rest : List FieldMatch),
                FieldMatchType.isLpm mf.type = false))
            (fun _ _ => ∃ mf ∈ (⟨fieldId, type⟩ :: rest : List FieldMatch),
              ¬ LpmMade pb target mf) := by
        rw [step]
        apply (ih s).mono
        · intro calls t post
          obtain ⟨made, stored⟩ := post
          refine ⟨List.forall_mem_cons.mpr ⟨fun value prefixLen lpm => ?_, made⟩, ?_⟩
          · have lpm : type = .lpm value prefixLen := lpm
            rw [lpm] at plain
            cases plain
          · exact stored.imp_right fun same =>
              ⟨same.1, List.forall_mem_cons.mpr ⟨plain, same.2⟩⟩
        · rintro e t ⟨mf, member, unmade⟩
          exact ⟨mf, List.mem_cons_of_mem _ member, unmade⟩
      cases type with
      | lpm value prefixLen =>
          rw [addEntries]
          dsimp only
          rw [if_pos rfl]
          apply ends_bind
          apply (addEntry_stores shipped value prefixLen s).mono
          · intro returned t post
            obtain ⟨stored, made⟩ := post
            apply ends_bind
            apply (ih t).mono
            · intro calls u post
              obtain ⟨others, later⟩ := post
              apply ends_pure
              refine ⟨List.forall_mem_cons.mpr ⟨fun value' prefixLen' same => ?_, others⟩, ?_⟩
              · cases same
                exact made
              · rcases later with later | ⟨rfl, _⟩
                · exact Or.inl (stored.trans later)
                · exact Or.inl stored
            · rintro e u ⟨mf, member, unmade⟩
              exact ⟨mf, List.mem_cons_of_mem _ member, unmade⟩
          · rintro e t ⟨fault, failed⟩
            refine ⟨_, List.mem_cons_self, fun made => ?_⟩
            obtain ⟨_, made⟩ := made value prefixLen rfl
            cases failed.symm.trans made
      | _ => exact skip rfl rfl

omit shipped in
/-- For other tables, or without LPM fields, there are no calls. -/
theorem addEntries_plain {tableId : UInt32} {fieldMatches : List FieldMatch}
    (plain : tableId = addEntryTable → ∀ mf ∈ fieldMatches, FieldMatchType.isLpm mf.type = false) :
    addEntries pb target tableId fieldMatches = pure [] := by
  induction fieldMatches with
  | nil => rfl
  | cons mf rest ih =>
      have others := ih fun special mf member => plain special mf (List.mem_cons_of_mem _ member)
      rcases mf with ⟨fieldId, type⟩
      rw [addEntries]
      cases type with
      | lpm value prefixLen =>
          dsimp only
          by_cases special : tableId = addEntryTable
          · cases plain special _ List.mem_cons_self
          · rw [if_neg special, others]
      | _ => exact others

variable (pb) in
theorem addEntries_ends (entry : TableEntry) (s : Agent) :
    Ends (addEntries pb target entry.tableId entry.fieldMatches) s
      (fun _ t => EntriesMade pb target entry ∧
        (AddsEntry entry ∧ StoresEntry s t ∨ ¬ AddsEntry entry ∧ t = s))
      (fun _ _ => ¬ EntriesMade pb target entry) := by
  by_cases adds : AddsEntry entry
  · obtain ⟨special, mf, member, lpm⟩ := adds
    rw [special]
    apply (addEntries_stores shipped entry.fieldMatches s).mono
    · intro calls t post
      obtain ⟨made, stored⟩ := post
      refine ⟨fun _ => made, Or.inl ⟨⟨special, mf, member, lpm⟩, ?_⟩⟩
      rcases stored with stored | ⟨_, plain⟩
      · exact stored
      · rw [plain mf member] at lpm
        cases lpm
    · rintro e t ⟨mf, member, unmade⟩ made
      exact unmade (made special mf member)
  · have plain (special : entry.tableId = addEntryTable) :
        ∀ mf ∈ entry.fieldMatches, FieldMatchType.isLpm mf.type = false := by
      intro mf member
      exact Bool.eq_false_iff.mpr fun lpm => adds ⟨special, mf, member, lpm⟩
    rw [addEntries_plain plain]
    refine ends_pure ⟨fun special mf member value prefixLen lpm => ?_, Or.inr ⟨adds, rfl⟩⟩
    have wrong := plain special mf member
    rw [lpm] at wrong
    cases wrong

/-- In the state behind the calls the AFI layer accepts what is said to be inserted. -/
theorem inserts_iff {entry : TableEntry} {s t : Agent} {calls : List AfiCall}
    (added : addEntries pb target entry.tableId entry.fieldMatches s = .ok calls t)
    (aId : UInt32) (paramIds : List UInt32) :
    Inserts pb target entry s aId paramIds ↔ AfiAccepts target t entry.tableId aId
      ((passedFields {} entry.tableId 0 entry.fieldMatches).map AfiTEntryMatchField.id)
        paramIds := by
  obtain ⟨made, stored⟩ := (addEntries_ends pb shipped entry s).of_ok added
  rcases stored with ⟨adds, stored⟩ | ⟨plain, rfl⟩
  · obtain ⟨obj, isEntry, lookup⟩ := stored.lookup
    constructor
    · rintro ⟨_, apart, table, action, afiPObj, hasTable, hasAction, hasParent, accepts⟩
      refine ⟨table, action, afiPObj, by rw [stored.table, hasTable],
        by rw [stored.action, hasAction], ?_, accepts⟩
      rw [lookup, if_neg fun same => apart adds table hasTable same.symm, hasParent]
    · rintro ⟨table, action, afiPObj, hasTable, hasAction, hasParent, accepts⟩
      rw [stored.table] at hasTable
      rw [stored.action] at hasAction
      rw [lookup] at hasParent
      have apart : str "entry1" ≠ table.name := by
        intro same
        rw [if_pos same, Option.some.injEq] at hasParent
        rw [← hasParent, isEntry] at accepts
        exact accepts.2.2.1 rfl
      rw [if_neg apart] at hasParent
      refine ⟨made, fun _ other hasOther same => ?_, table, action, afiPObj, hasTable, hasAction,
        hasParent, accepts⟩
      rw [hasTable, Option.some.injEq] at hasOther
      rw [hasOther] at apart
      exact apart same.symm
  · exact ⟨fun inserts => inserts.2.2,
      fun accepts => ⟨made, fun adds => absurd adds plain, accepts⟩⟩

end
end JP4Agent.P4RuntimeServiceImpl
