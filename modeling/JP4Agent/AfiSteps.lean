import JP4Agent.Afi
import JP4Agent.AfiDeviceSteps

set_option autoImplicit false

namespace JP4Agent
open Agent

/-- The two states differ at most in null pointers of the id map and in the record of
what was bound. -/
structure Agent.SameStore (s t : Agent) : Prop extends Same s t where
  objectsMap : t.objectsMap = s.objectsMap

theorem Agent.SameStore.refl (s : Agent) : SameStore s s := ⟨Same.refl s, rfl⟩

theorem Agent.SameStore.trans {s t u : Agent} (first : SameStore s t) (second : SameStore t u) :
    SameStore s u :=
  ⟨first.toSame.trans second.toSame, second.objectsMap.trans first.objectsMap⟩

/-- The two states differ at most in null pointers of the id map. -/
structure Agent.Looked (s t : Agent) : Prop extends SameStore s t, Unchanged s t

theorem Agent.Looked.refl (s : Agent) : Looked s s :=
  { SameStore.refl s, Unchanged.refl s with }

theorem Agent.Looked.trans {s t u : Agent} (first : Looked s t) (second : Looked t u) :
    Looked s u :=
  { first.toSameStore.trans second.toSameStore, first.toUnchanged.trans second.toUnchanged with }

theorem looked_lookedUp (s : Agent) (id : UInt32) :
    Looked s { s with p4Info := s.p4Info.lookedUp id } where
  lookup _ := rfl
  nextAddr := rfl
  table other := P4Info.table?_lookedUp s.p4Info id other
  action other := P4Info.action?_lookedUp s.p4Info id other
  objectsMap := rfl
  nameMap := rfl
  resource other := P4Info.p4InfoResource_lookedUp s.p4Info id other
  bound := rfl
  installed := rfl

theorem p4InfoTable_ends (id : UInt32) (s : Agent) :
    Ends (p4InfoTable id) s (fun r t => r = s.p4Info.table? id ∧ Looked s t)
      (fun _ _ => False) := ⟨rfl, looked_lookedUp s id⟩

theorem p4InfoAction_ends (id : UInt32) (s : Agent) :
    Ends (p4InfoAction id) s (fun r t => r = s.p4Info.action? id ∧ Looked s t)
      (fun _ _ => False) := ⟨rfl, looked_lookedUp s id⟩

/-- What `createChildJsonRes` computes once the table and the action are known. -/
def AfiObject.childObjs (obj : AfiObject) (pb : Protobuf) (table : P4InfoTable)
    (action : P4InfoAction) (mfs : List AfiTEntryMatchField) (aes : List AfiAEntry) :
    Bool × List AfiJsonResource :=
  match obj.cls with
  | .cap => AfiCap.childObjs pb table action mfs aes
  | .treeEncap => AfiTreeEncap.childObjs pb table action mfs aes
  | _ => (false, [])

section
variable (pb : Protobuf)

/-- What `createChildJsonRes` returns and appends in this state. -/
def AfiObject.createdChildren (obj : AfiObject) (agent : Agent) (tId aId : UInt32)
    (mfs : List AfiTEntryMatchField) (aes : List AfiAEntry) : Bool × List AfiJsonResource :=
  match agent.p4Info.table? tId, agent.p4Info.action? aId with
  | some table, some action => obj.childObjs pb table action mfs aes
  | _, _ => (false, [])

/-- Both methods look the table and the action up and leave the rest to a function of
these. -/
theorem lookups_end {tId aId : UInt32}
    {f : P4InfoTable → P4InfoAction → Bool × List AfiJsonResource}
    {s : Agent} {r : Bool × List AfiJsonResource}
    (known : ∀ table action, s.p4Info.table? tId = some table → s.p4Info.action? aId = some action →
      f table action = r)
    (unknown : s.p4Info.table? tId = none ∨ s.p4Info.action? aId = none → r = (false, [])) :
    Ends (do
      match ← p4InfoTable tId with
      | none => pure (false, [])
      | some table =>
        match ← p4InfoAction aId with
        | none => pure (false, [])
        | some action => pure (f table action) : AfiM (Bool × List AfiJsonResource)) s
      (fun r' t => r' = r ∧ Looked s t) (fun _ _ => False) := by
  apply ends_bind
  refine (p4InfoTable_ends tId s).mono (fun found t post => ?_) nofun
  obtain ⟨rfl, first⟩ := post
  cases hasTable : s.p4Info.table? tId with
  | none => exact ends_pure ⟨(unknown (Or.inl hasTable)).symm, first⟩
  | some table =>
      apply ends_bind
      refine (p4InfoAction_ends aId t).mono (fun found u post => ?_) nofun
      obtain ⟨rfl, second⟩ := post
      rw [first.action]
      cases hasAction : s.p4Info.action? aId with
      | none => exact ends_pure ⟨(unknown (Or.inr hasAction)).symm, first.trans second⟩
      | some action =>
          exact ends_pure ⟨known table action hasTable hasAction, first.trans second⟩

theorem createChildJsonRes_ends (obj : AfiObject) (tId aId : UInt32)
    (mfs : List AfiTEntryMatchField) (aes : List AfiAEntry) (s : Agent) :
    Ends (obj.createChildJsonRes pb tId aId mfs aes) s
      (fun r t => r = obj.createdChildren pb s tId aId mfs aes ∧ Looked s t)
      (fun _ _ => False) := by
  rcases obj with ⟨addr, res, cls, message⟩
  rw [AfiObject.createdChildren]
  cases cls with
  | cap =>
      refine lookups_end (fun table action hasTable hasAction => ?_) fun missing => ?_
      · rw [hasTable, hasAction]
        rfl
      · rcases missing with missing | missing <;> rw [missing]
        cases s.p4Info.table? tId <;> rfl
  | treeEncap =>
      refine lookups_end (fun table action hasTable hasAction => ?_) fun missing => ?_
      · rw [hasTable, hasAction]
        rfl
      · rcases missing with missing | missing <;> rw [missing]
        cases s.p4Info.table? tId <;> rfl
  | _ =>
      refine ends_pure ⟨?_, Looked.refl s⟩
      cases s.p4Info.table? tId <;> cases s.p4Info.action? aId <;> rfl

/-- The objects that `afiAddObjEntry` hands on, unless it refuses the entry. -/
def childrenOf (agent : Agent) (tId aId : UInt32) (mfs : List AfiTEntryMatchField)
    (aes : List AfiAEntry) : Option (List AfiJsonResource) := do
  let table ← agent.p4Info.table? tId
  let action ← agent.p4Info.action? aId
  let afiPObj ← agent.lookup table.name
  let (created, eObjs) := afiPObj.childObjs pb table action mfs aes
  if created then some eObjs else none

theorem childrenOf_eq {agent : Agent} {tId aId : UInt32} {table : P4InfoTable}
    {action : P4InfoAction} {afiPObj : AfiObject} {mfs : List AfiTEntryMatchField}
    {aes : List AfiAEntry} {eObjs : List AfiJsonResource}
    (hasTable : agent.p4Info.table? tId = some table)
    (hasAction : agent.p4Info.action? aId = some action)
    (hasParent : agent.lookup table.name = some afiPObj)
    (created : afiPObj.childObjs pb table action mfs aes = (true, eObjs)) :
    childrenOf pb agent tId aId mfs aes = some eObjs := by
  simp [childrenOf, hasTable, hasAction, hasParent, created]

/-- The name of the table of an entry, if `afiAddObjEntry` gets to look it up, is bound. -/
def TableBound (agent : Agent) (tId aId : UInt32) : Prop :=
  ∀ table action, agent.p4Info.table? tId = some table → agent.p4Info.action? aId = some action →
    agent.contents table.name ≠ none

variable (target : Target)

/-- An entry is refused after some lookups, or its children are handed on. -/
theorem Afi.afiAddObjEntry_ends {tId aId : UInt32} {mfs : List AfiTEntryMatchField}
    {aes : List AfiAEntry} {s : Agent} {Q : Bool → Agent → Prop} {E : Fault → Agent → Prop}
    (refused : ∀ t, childrenOf pb s tId aId mfs aes = none → Unchanged s t →
      (TableBound s tId aId → t.objectsMap = s.objectsMap) → Q false t)
    (handed : ∀ eObjs t, childrenOf pb s tId aId mfs aes = some eObjs → Looked s t →
      Ends (handleAfiJsonObjects pb target false (eObjs.map some)) t Q E) :
    Ends (afiAddObjEntry pb target tId aId mfs aes) s Q E := by
  unfold childrenOf at refused handed
  apply ends_bind
  refine (p4InfoTable_ends tId s).mono (fun found s₁ post => ?_) nofun
  obtain ⟨rfl, first⟩ := post
  cases hasTable : s.p4Info.table? tId with
  | none =>
      exact ends_pure (refused s₁ (by rw [hasTable]; rfl) first.toUnchanged
        fun _ => first.objectsMap)
  | some table =>
      apply ends_bind
      refine (p4InfoAction_ends aId s₁).mono (fun found s₂ post => ?_) nofun
      obtain ⟨rfl, second⟩ := post
      have both := first.trans second
      rw [first.action]
      cases hasAction : s.p4Info.action? aId with
      | none =>
          exact ends_pure (refused s₂ (by rw [hasTable, hasAction]; rfl) both.toUnchanged
            fun _ => both.objectsMap)
      | some action =>
          apply ends_bind
          rw [Ends, AfiDevice.getAfiObject_run]
          dsimp only
          cases hasParent : s₂.lookup table.name with
          | none =>
              rw [both.lookup] at hasParent
              refine ends_pure (refused _ (by simp [hasTable, hasAction, hasParent])
                (both.toUnchanged.trans (AfiDevice.unchanged_touch s₂ table.name)) fun bound => ?_)
              exact (bound table action hasTable hasAction (by
                rw [Agent.contents, hasParent]
                rfl)).elim
          | some afiPObj =>
              rw [AfiDevice.touch_of_lookup hasParent]
              rw [both.lookup] at hasParent
              apply ends_bind
              refine (createChildJsonRes_ends pb afiPObj tId aId mfs aes s₂).mono
                (fun children s₃ post => ?_) nofun
              obtain ⟨computed, third⟩ := post
              rw [AfiObject.createdChildren, both.table, both.action, hasTable,
                hasAction] at computed
              rcases children with ⟨created, eObjs⟩
              have all := both.trans third
              cases created with
              | true =>
                  exact handed eObjs s₃ (by simp [hasTable, hasAction, hasParent, ← computed]) all
              | false =>
                  exact ends_pure (refused s₃
                    (by simp [hasTable, hasAction, hasParent, ← computed]) all.toUnchanged
                    fun _ => all.objectsMap)

end
end JP4Agent
