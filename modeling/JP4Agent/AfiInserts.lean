import JP4Agent.AfiSteps
import JP4Agent.Library.SuffixCode

set_option autoImplicit false

namespace JP4Agent
open Agent PtrMap

/-- The names of the children of an entry of table `T`, with their common stem `T`. -/
def AfiCap.endings : List Str :=
  [str "_entry_match_1233458", str "_entry_action_1233459", str "_entry_1233457"]

def AfiTreeEncap.endings : List Str :=
  [str "_entry_encap_1233459", str "_entry_tree_1233458", str "_entry_1233458"]

/-- The endings that an object of this class appends to the name of its table. -/
def endingsOf : AfiClass → List Str
  | .cap => AfiCap.endings
  | .treeEncap => AfiTreeEncap.endings
  | _ => []

theorem endings_suffixFree : SuffixFree (AfiCap.endings ++ AfiTreeEncap.endings) := by
  decide

theorem endings_nodup : (AfiCap.endings ++ AfiTreeEncap.endings).Nodup := by decide

theorem AfiCap.childNames (T : Str) :
    [matchName T, actionName T, entryName T] = endings.map (T ++ ·) := by
  have first : str "_entry_match" ++ (str "_" ++ decimal (id + 1)) =
      str "_entry_match_1233458" := by
    decide
  have second : str "_entry_action" ++ (str "_" ++ decimal (id + 2)) =
      str "_entry_action_1233459" := by
    decide
  have third : str "_entry" ++ (str "_" ++ decimal id) = str "_entry_1233457" := by decide
  simp only [matchName, actionName, entryName, List.append_assoc, first, second, third, endings,
    List.map_cons, List.map_nil]

theorem AfiTreeEncap.childNames (T : Str) :
    [encapName T, treeName T, entryName T] = endings.map (T ++ ·) := by
  have first : str "_entry_encap" ++ (str "_" ++ decimal (id + 2)) =
      str "_entry_encap_1233459" := by
    decide
  have second : str "_entry_tree" ++ (str "_" ++ decimal (id + 1)) = str "_entry_tree_1233458" := by
    decide
  have third : str "_entry" ++ (str "_" ++ decimal (id + 1)) = str "_entry_1233458" := by
    decide
  simp only [encapName, treeName, entryName, List.append_assoc, first, second, third, endings,
    List.map_cons, List.map_nil]

section
variable (pb : Protobuf) (obj : AfiObject) (table : P4InfoTable) (action : P4InfoAction)
  (mfs : List AfiTEntryMatchField) (aes : List AfiAEntry)

theorem AfiObject.childObjs_names :
    (obj.childObjs pb table action mfs aes).2.map AfiJsonResource.name <+:
      (endingsOf obj.cls).map (table.name ++ ·) := by
  rcases obj with ⟨addr, res, cls, message⟩
  cases cls with
  | cap =>
      change (AfiCap.childObjs pb table action mfs aes).2.map AfiJsonResource.name <+:
        AfiCap.endings.map (table.name ++ ·)
      rw [← AfiCap.childNames, AfiCap.childObjs]
      split
      · exact List.nil_prefix
      · dsimp only
        split
        · exact ⟨[AfiCap.actionName table.name, AfiCap.entryName table.name], rfl⟩
        · exact List.prefix_rfl
  | treeEncap =>
      change (AfiTreeEncap.childObjs pb table action mfs aes).2.map AfiJsonResource.name <+:
        AfiTreeEncap.endings.map (table.name ++ ·)
      rw [← AfiTreeEncap.childNames, AfiTreeEncap.childObjs]
      split
      · exact List.nil_prefix
      · dsimp only
        split
        · exact ⟨[AfiTreeEncap.treeName table.name, AfiTreeEncap.entryName table.name], rfl⟩
        · exact List.prefix_rfl
  | _ => exact List.nil_prefix

theorem AfiObject.childObjs_names_of_created
    (created : (obj.childObjs pb table action mfs aes).1 = true) :
    (obj.childObjs pb table action mfs aes).2.map AfiJsonResource.name =
      (endingsOf obj.cls).map (table.name ++ ·) := by
  have names := obj.childObjs_names pb table action mfs aes
  apply names.eq_of_length
  rcases obj with ⟨addr, res, cls, message⟩
  cases cls with
  | cap =>
      change (AfiCap.childObjs pb table action mfs aes).1 = true at created
      change ((AfiCap.childObjs pb table action mfs aes).2.map AfiJsonResource.name).length = _
      rw [AfiCap.childObjs] at created ⊢
      split at created
      · cases created
      · dsimp only at created ⊢
        split at created
        · cases created
        · rfl
  | treeEncap =>
      change (AfiTreeEncap.childObjs pb table action mfs aes).1 = true at created
      change ((AfiTreeEncap.childObjs pb table action mfs aes).2.map
        AfiJsonResource.name).length = _
      rw [AfiTreeEncap.childObjs] at created ⊢
      split at created
      · cases created
      · dsimp only at created ⊢
        split at created
        · cases created
        · rfl
  | _ => cases created

end

/-- `t` is reached from `s` by storing objects under some of these names. -/
structure Agent.Added (s : Agent) (names : List Str) (t : Agent) : Prop extends
    SameInfo s t where
  outside : ∀ name, name ∉ names → t.lookup name = s.lookup name
  nextAddr : s.nextAddr ≤ t.nextAddr

theorem Agent.Same.added {s t : Agent} (same : Same s t) (names : List Str) : Added s names t where
  toSameInfo := same.toSameInfo
  outside name _ := same.lookup name
  nextAddr := Nat.le_of_eq same.nextAddr.symm

/-- A binding to an object made since `s`. -/
def Agent.Fresh (s t : Agent) (name : Str) : Prop :=
  ∃ obj, t.lookup name = some obj ∧ s.nextAddr ≤ obj.addr ∧ obj.addr < t.nextAddr

section
variable (pb : Protobuf) (target : Target)

namespace Afi

/-- The outcome of one object, as `creation` decides it. -/
theorem handleAfiJsonObject_ends (res : AfiJsonResource) (pipelineStage : Bool) (s : Agent) :
    Ends (handleAfiJsonObject pb target (some res) pipelineStage) s
      (fun r t => (AfiDevice.creation pb target res = .ok none ∧ r = false ∧ t = s) ∨
        ∃ value, AfiDevice.creation pb target res = .ok (some value) ∧ r = true ∧
          Stored s ⟨s.nextAddr, res, value.1, value.2⟩ t ∧
          (NoNulls s.objectsMap →
            (pipelineStage = false → LookupsBound t.contents (target.refs value.1 value.2)) →
            NoNulls t.objectsMap))
      (fun e t => t = s ∧
        ∃ fault, AfiDevice.creation pb target res = .error fault ∧ e = .decode fault) := by
  apply ends_bind
  refine (AfiDevice.handleDMObject_ends pb target res pipelineStage s).mono
    (fun made t post => ?_) fun _ _ failed => failed
  rcases post with ⟨created, rfl, rfl⟩ | ⟨value, created, rfl, stored⟩
  · exact ends_pure (Or.inl ⟨created, rfl, rfl⟩)
  · exact ends_pure (Or.inr ⟨value, created, rfl, stored⟩)

/-- The loop over child objects: what it leaves alone, when it returns true, and that
each of its objects is then in the store. -/
theorem handleAfiJsonObjects_ok (pipelineStage : Bool) (eObjs : List AfiJsonResource) :
    ∀ {s t : Agent} {r : Bool},
      handleAfiJsonObjects pb target pipelineStage (eObjs.map some) s = .ok r t →
      Added s (eObjs.map AfiJsonResource.name) t ∧
        (r = true ↔ ∀ res ∈ eObjs, (target.creators res.type).isSome) ∧
        (r = true → ∀ name ∈ eObjs.map AfiJsonResource.name, Fresh s t name) := by
  induction eObjs with
  | nil =>
      rintro s t r ⟨⟩
      exact ⟨(Same.refl s).added _, by simp, by simp⟩
  | cons res rest ih =>
      intro s t r returned
      obtain ⟨handled, s', ran, more⟩ := bind_eq_ok.mp returned
      rcases (handleAfiJsonObject_ends pb target res pipelineStage s).of_ok ran with
        ⟨created, rfl, rfl⟩ | ⟨value, created, rfl, stored, _⟩
      · have creator := AfiDevice.creator_of_creation pb target created
        cases more
        refine ⟨(Same.refl _).added _, ⟨fun wrong => (nomatch wrong), fun all => ?_⟩,
          fun wrong => (nomatch wrong)⟩
        have here := all res List.mem_cons_self
        cases creator.symm.trans here
      · have creator := AfiDevice.creator_of_creation pb target created
        obtain ⟨added, iff, fresh⟩ := ih more
        have grows := added.nextAddr
        have allocated := stored.nextAddr
        have first : ∀ name, name ∉ rest.map AfiJsonResource.name → res.name = name →
            Fresh s t name := by
          intro name absent same
          refine ⟨⟨s.nextAddr, res, value.1, value.2⟩, ?_, Nat.le_refl _, by
            change s.nextAddr < t.nextAddr
            omega⟩
          rw [added.outside name absent, stored.lookup]
          exact if_pos same
        refine ⟨⟨stored.toSameInfo.trans added.toSameInfo, ?_, by omega⟩, ?_, ?_⟩
        · intro name absent
          rw [List.map_cons, List.mem_cons, not_or] at absent
          rw [added.outside name absent.2, stored.lookup]
          exact if_neg fun same => absent.1 same.symm
        · rw [iff]
          simp [show (target.creators res.type).isSome from creator]
        · intro returnedTrue name member
          by_cases later : name ∈ rest.map AfiJsonResource.name
          · obtain ⟨obj, found, lower, upper⟩ := fresh returnedTrue name later
            exact ⟨obj, found, by omega, upper⟩
          · rw [List.map_cons, List.mem_cons] at member
            exact first name later (member.resolve_right later).symm

theorem handleAfiJsonObjects_created (pipelineStage : Bool) {eObjs : List AfiJsonResource}
    (created : ∀ res ∈ eObjs, ∃ value, AfiDevice.creation pb target res = .ok (some value)) :
    ∀ s : Agent, Ends (handleAfiJsonObjects pb target pipelineStage (eObjs.map some)) s
      (fun r _ => r = true) (fun _ _ => False) := by
  induction eObjs with
  | nil => exact fun s => ends_pure rfl
  | cons res rest ih =>
      intro s
      obtain ⟨value, made⟩ := created res List.mem_cons_self
      apply ends_bind
      refine (handleAfiJsonObject_ends pb target res pipelineStage s).mono (fun r t post => ?_) ?_
      · rcases post with ⟨missing, _⟩ | ⟨_, _, rfl, _⟩
        · cases made.symm.trans missing
        · exact ih (fun res member => created res (List.mem_cons_of_mem _ member)) t
      · rintro e t ⟨_, fault, failed, _⟩
        cases made.symm.trans failed

end Afi

/-- The names of the store that an insert into this table can write to. -/
def Agent.generatedNames (s : Agent) (tId : UInt32) : List Str :=
  match s.p4Info.table? tId with
  | none => []
  | some table =>
    match s.lookup table.name with
    | none => []
    | some afiPObj => (endingsOf afiPObj.cls).map (table.name ++ ·)

theorem childrenOf_names {s : Agent} {tId aId : UInt32} {mfs : List AfiTEntryMatchField}
    {aes : List AfiAEntry} {eObjs : List AfiJsonResource}
    (children : childrenOf pb s tId aId mfs aes = some eObjs) :
    eObjs.map AfiJsonResource.name = s.generatedNames tId := by
  simp only [childrenOf, Option.bind_eq_bind, Option.bind_eq_some_iff] at children
  obtain ⟨table, hasTable, action, _, afiPObj, hasParent, children⟩ := children
  obtain ⟨created, ⟨⟩⟩ := Option.ite_none_right_eq_some.mp children
  simp only [generatedNames, hasTable, hasParent]
  exact afiPObj.childObjs_names_of_created pb table action mfs aes created

/-- An insert that returns writes to no other name; it returned true exactly if its
children were made and have creators, and then all of them are in the store. -/
theorem Afi.afiAddObjEntry_adds (tId aId : UInt32) (mfs : List AfiTEntryMatchField)
    (aes : List AfiAEntry) (s : Agent) :
    Ends (afiAddObjEntry pb target tId aId mfs aes) s
      (fun r t => Added s (s.generatedNames tId) t ∧
        (r = true ↔ ∃ eObjs, childrenOf pb s tId aId mfs aes = some eObjs ∧
          ∀ res ∈ eObjs, (target.creators res.type).isSome) ∧
        (r = true → ∀ name ∈ s.generatedNames tId, Fresh s t name))
      (fun _ _ => True) := by
  refine afiAddObjEntry_ends pb target (fun t refused same _ => ?_) fun eObjs s' children same => ?_
  · exact ⟨same.added _, by simp [refused], fun wrong => (nomatch wrong)⟩
  · have names := childrenOf_names pb children
    refine Ends.of_returns fun r t handled => ?_
    obtain ⟨added, iff, fresh⟩ := handleAfiJsonObjects_ok pb target false eObjs handled
    have address := same.nextAddr
    have grows := added.nextAddr
    refine ⟨⟨same.toSameInfo.trans added.toSameInfo, ?_, by omega⟩, ?_, ?_⟩
    · intro name absent
      rw [← names] at absent
      rw [added.outside name absent, same.lookup]
    · rw [iff]
      simp [children]
    · intro returnedTrue name member
      rw [← names] at member
      obtain ⟨obj, found, lower, upper⟩ := fresh returnedTrue name member
      exact ⟨obj, found, by omega, upper⟩

theorem Afi.afiAddObjEntry_created {tId aId : UInt32} {mfs : List AfiTEntryMatchField}
    {aes : List AfiAEntry} {s : Agent} {eObjs : List AfiJsonResource}
    (children : childrenOf pb s tId aId mfs aes = some eObjs)
    (created : ∀ res ∈ eObjs, ∃ value, AfiDevice.creation pb target res = .ok (some value)) :
    ∃ t, afiAddObjEntry pb target tId aId mfs aes s = .ok true t := by
  have ends : Ends (afiAddObjEntry pb target tId aId mfs aes) s (fun r _ => r = true)
      (fun _ _ => False) := by
    refine afiAddObjEntry_ends pb target (fun t refused _ _ => ?_) fun eObjs' t children' _ => ?_
    · cases children.symm.trans refused
    · cases children.symm.trans children'
      exact handleAfiJsonObjects_created pb target false created t
  obtain ⟨r, t, returned, rfl⟩ := ends.returns
  exact ⟨t, returned⟩

end
end JP4Agent
