import JP4Agent.AfiAccepted
import JP4Agent.AfiBinds
import JP4Agent.Targets

set_option autoImplicit false

namespace JP4Agent
open Agent Afi AfiDevice PtrMap

theorem P4Info.lookedUp_of_known {info : P4Info} {id : UInt32} {res : P4InfoResource}
    (known : info.p4InfoResource id = some res) : info.lookedUp id = info := by
  rw [lookedUp, touch_of_mem _ _ ((deref_eq_some _ _).mp known)]

section
variable {s : Agent} {tId aId : UInt32} {table : P4InfoTable} {action : P4InfoAction}

theorem p4InfoTable_known (known : s.p4Info.table? tId = some table) :
    p4InfoTable tId s = .ok (some table) s := by
  obtain ⟨res, found, _⟩ := Option.bind_eq_some_iff.mp known
  show EStateM.Result.ok (s.p4Info.table? tId) { s with p4Info := s.p4Info.lookedUp tId } = _
  rw [known, P4Info.lookedUp_of_known found]

theorem p4InfoAction_known (known : s.p4Info.action? aId = some action) :
    p4InfoAction aId s = .ok (some action) s := by
  obtain ⟨res, found, _⟩ := Option.bind_eq_some_iff.mp known
  show EStateM.Result.ok (s.p4Info.action? aId) { s with p4Info := s.p4Info.lookedUp aId } = _
  rw [known, P4Info.lookedUp_of_known found]

theorem createChildJsonRes_known (pb : Protobuf) (hasTable : s.p4Info.table? tId = some table)
    (hasAction : s.p4Info.action? aId = some action) (obj : AfiObject)
    (mfs : List AfiTEntryMatchField) (aes : List AfiAEntry) :
    obj.createChildJsonRes pb tId aId mfs aes s =
      .ok (obj.childObjs pb table action mfs aes) s := by
  rcases obj with ⟨addr, res, cls, message⟩
  cases cls with
  | cap =>
      show AfiCap.createChildJsonRes pb tId aId mfs aes s = _
      rw [AfiCap.createChildJsonRes, bind_of_ok (p4InfoTable_known hasTable)]
      dsimp only
      rw [bind_of_ok (p4InfoAction_known hasAction)]
      rfl
  | treeEncap =>
      show AfiTreeEncap.createChildJsonRes pb tId aId mfs aes s = _
      rw [AfiTreeEncap.createChildJsonRes, bind_of_ok (p4InfoTable_known hasTable)]
      dsimp only
      rw [bind_of_ok (p4InfoAction_known hasAction)]
      rfl
  | _ => rfl

/-- An entry whose children are made: nothing happens before they are handled. -/
theorem afiAddObjEntry_known {pb : Protobuf} (target : Target) {mfs : List AfiTEntryMatchField}
    {aes : List AfiAEntry} {eObjs : List AfiJsonResource}
    (children : childrenOf pb s tId aId mfs aes = some eObjs) :
    afiAddObjEntry pb target tId aId mfs aes s =
      handleAfiJsonObjects pb target false (eObjs.map some) s := by
  simp only [childrenOf, Option.bind_eq_bind, Option.bind_eq_some_iff] at children
  obtain ⟨table, hasTable, action, hasAction, afiPObj, hasParent, children⟩ := children
  obtain ⟨created, made⟩ := Option.ite_none_right_eq_some.mp children
  have looked : getAfiObject table.name s = .ok (some afiPObj) s := by
    rw [getAfiObject_run, touch_of_lookup hasParent, hasParent]
  unfold afiAddObjEntry
  rw [bind_of_ok (p4InfoTable_known hasTable)]
  dsimp only
  rw [bind_of_ok (p4InfoAction_known hasAction)]
  dsimp only
  rw [bind_of_ok looked]
  dsimp only
  rw [bind_of_ok (createChildJsonRes_known pb hasTable hasAction afiPObj mfs aes), if_pos created,
    Option.some.inj made]

end

section
variable {pb : Protobuf} {target : Target} {s : Agent} {res : AfiJsonResource}
  {value : (c : AfiClass) × c.Message}

theorem handleAfiJsonObject_made (made : creation pb target res = .ok (some value)) (s : Agent) :
    ∃ t, handleAfiJsonObject pb target (some res) false s = .ok true t ∧
      Handled target s ⟨s.nextAddr, res, value.1, value.2⟩ false t := by
  have ends : Ends (handleAfiJsonObject pb target (some res) false) s
      (fun r t => r = true ∧ Handled target s ⟨s.nextAddr, res, value.1, value.2⟩ false t)
      (fun _ _ => False) := by
    apply (handleAfiJsonObject_handled pb target res false s).mono
    · intro r t post
      rcases post with ⟨missing, _⟩ | ⟨value', made', returned, handled⟩
      · cases made.symm.trans missing
      · obtain rfl := Option.some.inj (Except.ok.inj (made.symm.trans made'))
        exact ⟨returned, handled⟩
    · rintro e t ⟨_, fault, failed, _⟩
      cases made.symm.trans failed
  obtain ⟨r, t, ran, rfl, handled⟩ := ends.returns
  exact ⟨t, ran, handled⟩

theorem handleAfiJsonObject_failed {fault : Base64.Fault}
    (failed : creation pb target res = .error fault) (s : Agent) :
    handleAfiJsonObject pb target (some res) false s = .error (.decode fault) s := by
  have handled := handleAfiJsonObject_handled pb target res false s
  cases ran : handleAfiJsonObject pb target (some res) false s with
  | ok r t =>
      rcases handled.of_ok ran with ⟨wrong, _⟩ | ⟨_, wrong, _⟩
      · cases failed.symm.trans wrong
      · cases failed.symm.trans wrong
  | error e t =>
      obtain ⟨rfl, fault', failed', rfl⟩ := handled.of_error ran
      obtain rfl := Except.error.inj (failed.symm.trans failed')
      rfl

theorem handleAfiJsonObjects_made (made : creation pb target res = .ok (some value)) :
    ∃ t, Handled target s ⟨s.nextAddr, res, value.1, value.2⟩ false t ∧
      ∀ rest, handleAfiJsonObjects pb target false (some res :: rest) s =
        handleAfiJsonObjects pb target false rest t := by
  obtain ⟨t, ran, handled⟩ := handleAfiJsonObject_made made s
  refine ⟨t, handled, fun rest => ?_⟩
  rw [handleAfiJsonObjects, bind_of_ok ran]
  rfl

theorem handleAfiJsonObjects_failed {fault : Base64.Fault}
    (failed : creation pb target res = .error fault) (rest : List (Option AfiJsonResource)) :
    handleAfiJsonObjects pb target false (some res :: rest) s = .error (.decode fault) s :=
  bind_of_error (handleAfiJsonObject_failed failed s) _

theorem handleAfiJsonObjects_missing (missing : target.creators res.type = none)
    (rest : List (Option AfiJsonResource)) :
    handleAfiJsonObjects pb target false (some res :: rest) s = .ok false s := by
  have uncreated : creation pb target res = .ok none := by rw [creation, missing]
  have handled := handleAfiJsonObject_handled pb target res false s
  cases ran : handleAfiJsonObject pb target (some res) false s with
  | ok r t =>
      rcases handled.of_ok ran with ⟨_, rfl, rfl⟩ | ⟨_, wrong, _⟩
      · exact bind_of_ok ran _
      · cases uncreated.symm.trans wrong
  | error e t =>
      obtain ⟨_, fault, wrong, _⟩ := handled.of_error ran
      cases uncreated.symm.trans wrong

/-- The first object is not made, for whatever reason: the call leaves the agent as it was. -/
theorem handleAfiJsonObjects_unmade (unmade : ∀ value, creation pb target res ≠ .ok (some value))
    (rest : List (Option AfiJsonResource)) :
    endState (handleAfiJsonObjects pb target false (some res :: rest) s) = s := by
  cases made : creation pb target res with
  | error fault =>
      rw [handleAfiJsonObjects_failed made, endState]
  | ok created =>
      cases created with
      | none =>
          have creator := creator_of_creation pb target made
          rw [Option.isSome_none, Option.isSome_eq_false_iff, Option.isNone_iff_eq_none] at creator
          rw [handleAfiJsonObjects_missing creator, endState]
      | some value => exact absurd made (unmade value)

theorem handleAfiJsonObjects_bound (pb : Protobuf) (target : Target)
    (eObjs : List AfiJsonResource) : ∀ s : Agent,
      s.bound <:+ (endState (handleAfiJsonObjects pb target false (eObjs.map some) s)).bound := by
  induction eObjs with
  | nil => exact fun s => List.suffix_refl s.bound
  | cons res rest ih =>
      intro s
      by_cases makes : ∃ value, creation pb target res = .ok (some value)
      · obtain ⟨value, made⟩ := makes
        obtain ⟨t, handled, goesOn⟩ := handleAfiJsonObjects_made (s := s) made
        rw [List.map_cons, goesOn]
        have more := ih t
        rw [handled.bound] at more
        exact (List.suffix_cons _ _).trans more
      · rw [List.map_cons, handleAfiJsonObjects_unmade (not_exists.mp makes)]

theorem handleAfiJsonObjects_binds (made : creation pb target res = .ok (some value))
    (rest : List AfiJsonResource) :
    ⟨s.nextAddr, res, value.1, value.2⟩ :: s.bound <:+
      (endState (handleAfiJsonObjects pb target false ((res :: rest).map some) s)).bound := by
  obtain ⟨t, handled, goesOn⟩ := handleAfiJsonObjects_made (s := s) made
  have more := handleAfiJsonObjects_bound pb target rest t
  rw [handled.bound] at more
  rw [List.map_cons, goesOn]
  exact more

/-- Different objects are bound for resources that are not made into the same. -/
theorem handleAfiJsonObjects_bound_ne {res' : AfiJsonResource}
    (made : creation pb target res = .ok (some value))
    (different : creation pb target res' ≠ .ok (some value)) (rest rest' : List AfiJsonResource) :
    (endState (handleAfiJsonObjects pb target false ((res :: rest).map some) s)).bound ≠
      (endState (handleAfiJsonObjects pb target false ((res' :: rest').map some) s)).bound := by
  intro same
  have bound := handleAfiJsonObjects_binds (s := s) made rest
  rw [same] at bound
  by_cases makes : ∃ value', creation pb target res' = .ok (some value')
  · obtain ⟨value', made'⟩ := makes
    have bound' := handleAfiJsonObjects_binds (s := s) made' rest'
    have equal := (List.suffix_of_suffix_length_le bound bound' (Nat.le_refl _)).eq_of_length rfl
    have values : value = value' := congrArg AfiObject.value (List.cons.inj equal).1
    rw [values] at different
    exact different made'
  · have length := bound.length_le
    rw [List.map_cons, handleAfiJsonObjects_unmade (not_exists.mp makes),
      List.length_cons] at length
    exact Nat.not_succ_le_self _ length

end

section
variable (pb : Protobuf) {target : Target} (shipped : Shipped target)
include shipped

/-- Of the devices the Broadcom one only has creators for children of tables, those of a `cap`. -/
theorem cap_of_creators {cls : AfiClass} (makes : childTypes cls ≠ [])
    (creators : ∀ type ∈ childTypes cls, (target.creators type).isSome) :
    target = Brcm.target ∧ cls = .cap := by
  cases cls with
  | cap =>
      have first := creators _ List.mem_cons_self
      rcases shipped with rfl | rfl | rfl
      · exact absurd first (by decide)
      · exact absurd first (by decide)
      · exact ⟨rfl, rfl⟩
  | treeEncap =>
      have first := creators _ List.mem_cons_self
      rcases shipped with rfl | rfl | rfl
      · exact absurd first (by decide)
      · exact absurd first (by decide)
      · exact absurd first (by decide)
  | _ => exact absurd rfl makes

/-- A device that cannot create all children of a table cannot create the first. -/
theorem first_missing {cls : AfiClass} (makes : childTypes cls ≠ [])
    (uncreatable : ¬ ∀ type ∈ childTypes cls, (target.creators type).isSome) :
    ∃ type rest, childTypes cls = type :: rest ∧ target.creators type = none := by
  cases cls with
  | cap =>
      refine ⟨_, _, rfl, ?_⟩
      rcases shipped with rfl | rfl | rfl
      · decide
      · decide
      · exact absurd (by decide) uncreatable
  | treeEncap =>
      refine ⟨_, _, rfl, ?_⟩
      rcases shipped with rfl | rfl | rfl
      · decide
      · decide
      · decide
  | _ => exact absurd rfl makes

/-- An entry that is not accepted is refused: nothing is created or bound. -/
theorem afiAddObjEntry_refuses {tId aId : UInt32} {mfs : List AfiTEntryMatchField}
    {aes : List AfiAEntry} {s : Agent} (refused : ¬ AfiAccepts target s tId aId
      (mfs.map AfiTEntryMatchField.id) (aes.map AfiAEntry.id)) :
    ∃ t, afiAddObjEntry pb target tId aId mfs aes s = .ok false t ∧ Unchanged s t := by
  have ends : Ends (afiAddObjEntry pb target tId aId mfs aes) s
      (fun r t => r = false ∧ Unchanged s t) (fun _ _ => False) := by
    apply afiAddObjEntry_ends
    · exact fun t _ unchanged _ => ⟨rfl, unchanged⟩
    · intro eObjs t children looked
      have accepted := (childrenOf_accepted_iff pb target s tId aId mfs aes).not.mpr refused
      simp only [childrenOf, Option.bind_eq_bind, Option.bind_eq_some_iff] at children
      obtain ⟨table, hasTable, action, hasAction, afiPObj, hasParent, children⟩ := children
      obtain ⟨created, made⟩ := Option.ite_none_right_eq_some.mp children
      have made := Option.some.inj made
      obtain ⟨iff, types⟩ := afiPObj.childObjs_created_iff pb table action mfs aes
      have types := types created
      rw [made] at types
      have uncreatable : ¬ ∀ type ∈ childTypes afiPObj.cls, (target.creators type).isSome := by
        intro creators
        rw [← types] at creators
        exact accepted ⟨eObjs,
          childrenOf_eq pb hasTable hasAction hasParent (Prod.ext created made),
          List.forall_mem_map.mp creators⟩
      obtain ⟨type, rest, head, missing⟩ := first_missing shipped (iff.mp created).1 uncreatable
      rw [head] at types
      cases eObjs with
      | nil => cases types
      | cons res others =>
          obtain ⟨rfl, _⟩ := List.cons.inj types
          rw [Ends, List.map_cons, handleAfiJsonObjects_missing missing]
          exact ⟨rfl, looked.toUnchanged⟩
  obtain ⟨r, t, returned, rfl, unchanged⟩ := ends.returns
  exact ⟨t, returned, unchanged⟩

end
end JP4Agent
