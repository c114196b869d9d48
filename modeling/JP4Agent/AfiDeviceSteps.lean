import JP4Agent.AfiDevice

set_option autoImplicit false

namespace JP4Agent

/-- The object bound to a name. -/
def Agent.lookup (agent : Agent) (name : Str) : Option AfiObject := agent.objectsMap.deref name

/-- The two states have the same tables and actions. -/
structure Agent.SameInfo (s t : Agent) : Prop where
  table : ∀ id, t.p4Info.table? id = s.p4Info.table? id
  action : ∀ id, t.p4Info.action? id = s.p4Info.action? id

/-- The two states differ at most in null pointers and in the record of what was bound. -/
structure Agent.Same (s t : Agent) : Prop extends SameInfo s t where
  lookup : ∀ name, t.lookup name = s.lookup name
  nextAddr : t.nextAddr = s.nextAddr

/-- The two states differ at most in null pointers of their maps. -/
structure Agent.Unchanged (s t : Agent) : Prop extends Same s t where
  nameMap : t.p4Info.nameMap = s.p4Info.nameMap
  resource : ∀ id, t.p4Info.p4InfoResource id = s.p4Info.p4InfoResource id
  bound : t.bound = s.bound
  installed : t.installed = s.installed

/-- `t` is `s` with one new object stored under its name. -/
structure Agent.Stored (s : Agent) (obj : AfiObject) (t : Agent) : Prop extends SameInfo s t where
  addr : obj.addr = s.nextAddr
  lookup : ∀ name, t.lookup name = if obj.name = name then some obj else s.lookup name
  nextAddr : t.nextAddr = s.nextAddr + 1

namespace Agent

theorem Stored.found {s t : Agent} {obj : AfiObject} (stored : Stored s obj t) :
    t.lookup obj.name = some obj := by
  rw [stored.lookup, if_pos rfl]

theorem SameInfo.refl (s : Agent) : SameInfo s s := ⟨fun _ => rfl, fun _ => rfl⟩

theorem SameInfo.trans {s t u : Agent} (first : SameInfo s t) (second : SameInfo t u) :
    SameInfo s u where
  table id := (second.table id).trans (first.table id)
  action id := (second.action id).trans (first.action id)

theorem Same.refl (s : Agent) : Same s s := ⟨SameInfo.refl s, fun _ => rfl, rfl⟩

theorem Same.trans {s t u : Agent} (first : Same s t) (second : Same t u) : Same s u where
  toSameInfo := first.toSameInfo.trans second.toSameInfo
  lookup name := (second.lookup name).trans (first.lookup name)
  nextAddr := second.nextAddr.trans first.nextAddr

theorem Unchanged.refl (s : Agent) : Unchanged s s := ⟨Same.refl s, rfl, fun _ => rfl, rfl, rfl⟩

theorem Unchanged.trans {s t u : Agent} (first : Unchanged s t) (second : Unchanged t u) :
    Unchanged s u where
  toSame := first.toSame.trans second.toSame
  nameMap := second.nameMap.trans first.nameMap
  resource id := (second.resource id).trans (first.resource id)
  bound := second.bound.trans first.bound
  installed := second.installed.trans first.installed

theorem Stored.trans {s t u : Agent} {obj : AfiObject} (stored : Stored s obj t)
    (same : Same t u) : Stored s obj u where
  toSameInfo := stored.toSameInfo.trans same.toSameInfo
  addr := stored.addr
  lookup name := (same.lookup name).trans (stored.lookup name)
  nextAddr := same.nextAddr.trans stored.nextAddr

end Agent

/-- What the names are bound to: the class and the message of each object. -/
abbrev Contents := Str → Option ((c : AfiClass) × c.Message)

def AfiObject.value (obj : AfiObject) : (c : AfiClass) × c.Message := ⟨obj.cls, obj.message⟩

def Agent.contents (s : Agent) : Contents := fun name => (s.lookup name).map AfiObject.value

theorem Agent.Same.contents {s t : Agent} (same : Agent.Same s t) : t.contents = s.contents := by
  funext name
  rw [Agent.contents, Agent.contents, same.lookup]

theorem Agent.Stored.contents {s t : Agent} {obj : AfiObject} (stored : Agent.Stored s obj t) :
    t.contents = Function.update s.contents obj.name (some obj.value) := by
  funext name
  rw [Agent.contents, stored.lookup, Function.update_apply]
  by_cases same : obj.name = name
  · rw [if_pos same, if_pos same.symm]
    rfl
  · rw [if_neg same, if_neg fun wrong => same wrong.symm]
    rfl

/-- Every name that the lookups of a `_bind` get to is bound. -/
def LookupsBound (contents : Contents) : List (Str × AfiClass) → Prop
  | [] => True
  | (name, cls) :: rest =>
    match contents name with
    | none => False
    | some value => value.1 = cls → LookupsBound contents rest

namespace AfiDevice
open Agent PtrMap

theorem getAfiObject_run (name : Str) (s : Agent) :
    getAfiObject name s =
      .ok (s.lookup name) { s with objectsMap := s.objectsMap.touch name } := rfl

theorem same_touch (s : Agent) (name : Str) :
    Same s { s with objectsMap := s.objectsMap.touch name } where
  lookup _ := deref_touch ..
  nextAddr := rfl
  table _ := rfl
  action _ := rfl

theorem unchanged_touch (s : Agent) (name : Str) :
    Unchanged s { s with objectsMap := s.objectsMap.touch name } where
  toSame := same_touch s name
  nameMap := rfl
  resource _ := rfl
  bound := rfl
  installed := rfl

/-- A lookup of a name that is bound leaves the state as it is. -/
theorem touch_of_lookup {s : Agent} {name : Str} {obj : AfiObject}
    (bound : s.lookup name = some obj) :
    { s with objectsMap := s.objectsMap.touch name } = s := by
  rw [touch_of_mem _ _ ((deref_eq_some _ _).mp bound)]

theorem resolve_ends (refs : List (Str × AfiClass)) : ∀ s : Agent,
    Ends (resolve refs) s (fun _ t => Same s t ∧ (LookupsBound s.contents refs → t = s))
      (fun _ _ => False) := by
  induction refs with
  | nil => exact fun s => ends_pure ⟨Same.refl s, fun _ => rfl⟩
  | cons ref rest ih =>
      intro s
      apply ends_bind
      rw [Ends, getAfiObject_run]
      dsimp only
      cases found : s.lookup ref.1 with
      | none =>
          refine ends_pure ⟨same_touch s ref.1, fun bound => ?_⟩
          rw [LookupsBound, Agent.contents, found] at bound
          exact bound.elim
      | some obj =>
          rw [touch_of_lookup found]
          dsimp only
          split
          · rename_i sameClass
            refine ends_map ((ih s).mono (fun uses t post => ⟨post.1, fun bound => ?_⟩)
              fun _ _ failed => failed)
            rw [LookupsBound, Agent.contents, found] at bound
            exact post.2 (bound sameClass)
          · exact ends_pure ⟨Same.refl s, fun _ => rfl⟩

section
variable (pb : Protobuf) (target : Target)

/-- `bind` returns true and changes no binding, and adds nothing to the map if the names
it looks up are bound. -/
theorem bind_ends (obj : AfiObject) (s : Agent) :
    Ends (bind target obj) s (fun r t => r = true ∧ Same s t ∧
      (LookupsBound s.contents (target.refs obj.cls obj.message) → t.objectsMap = s.objectsMap))
      (fun _ _ => False) := by
  refine ends_bind (ends_modify (ends_bind ?_))
  refine (resolve_ends _ _).mono (fun uses t post => ?_) nofun
  obtain ⟨same, unchanged⟩ := post
  cases uses with
  | none =>
      exact ends_pure ⟨rfl, ⟨⟨same.table, same.action⟩, same.lookup, same.nextAddr⟩,
        fun bound => by rw [unchanged bound]⟩
  | some uses =>
      refine ends_bind (ends_modify (ends_pure ?_))
      exact ⟨rfl, ⟨⟨same.table, same.action⟩, same.lookup, same.nextAddr⟩,
        fun bound => by rw [unchanged bound]⟩

theorem stored_insert (s : Agent) (res : AfiJsonResource) (c : AfiClass) (message : c.Message) :
    Stored s ⟨s.nextAddr, res, c, message⟩
      { s with
        nextAddr := s.nextAddr + 1
        objectsMap := s.objectsMap.assign res.name ⟨s.nextAddr, res, c, message⟩ } where
  addr := rfl
  lookup _ := deref_assign ..
  nextAddr := rfl
  table _ := rfl
  action _ := rfl

/-- The class and the message that `create` makes of `res`, if there is a creator. -/
def creation (res : AfiJsonResource) : Except Base64.Fault (Option ((c : AfiClass) × c.Message)) :=
  match target.creators res.type with
  | none => .ok none
  | some c => (construct pb c res.objStr).map fun message => some ⟨c, message⟩

theorem creator_of_creation {res : AfiJsonResource} {made : Option ((c : AfiClass) × c.Message)}
    (created : creation pb target res = .ok made) :
    (target.creators res.type).isSome = made.isSome := by
  rw [creation] at created
  cases creator : target.creators res.type with
  | none =>
      rw [creator] at created
      cases created
      rfl
  | some c =>
      rw [creator] at created
      cases constructed : construct pb c res.objStr with
      | error fault =>
          simp only [constructed] at created
          cases created
      | ok message =>
          simp only [constructed] at created
          cases created
          rfl

/-- An object is of the class that its type is registered for. -/
theorem class_of_creation {res : AfiJsonResource} {value : (c : AfiClass) × c.Message}
    (created : creation pb target res = .ok (some value)) :
    target.creators res.type = some value.1 := by
  rw [creation] at created
  cases creator : target.creators res.type with
  | none =>
      rw [creator] at created
      exact nomatch created
  | some c =>
      rw [creator] at created
      cases constructed : construct pb c res.objStr with
      | error fault =>
          simp only [constructed] at created
          exact nomatch created
      | ok message =>
          simp only [constructed] at created
          cases created
          rfl

theorem create_ends (res : AfiJsonResource) (s : Agent) :
    Ends (create pb target res) s
      (fun r t => (creation pb target res = .ok none ∧ r = none ∧ t = s) ∨
        ∃ value, creation pb target res = .ok (some value) ∧
          r = some ⟨s.nextAddr, res, value.1, value.2⟩ ∧ t = { s with nextAddr := s.nextAddr + 1 })
      (fun e t => t = s ∧ ∃ fault, creation pb target res = .error fault ∧ e = .decode fault) := by
  rw [create, creation]
  cases target.creators res.type with
  | none => exact ends_pure (Or.inl ⟨rfl, rfl, rfl⟩)
  | some c =>
      dsimp only
      cases construct pb c res.objStr with
      | error fault => exact ends_throw ⟨rfl, fault, rfl, rfl⟩
      | ok message => exact Or.inr ⟨⟨c, message⟩, rfl, rfl, rfl⟩

/-- Without a creator nothing happens, else the new object is stored under its name. -/
theorem handleDMObject_ends (res : AfiJsonResource) (pipelineStage : Bool) (s : Agent) :
    Ends (handleDMObject pb target res pipelineStage) s
      (fun r t => (creation pb target res = .ok none ∧ r = none ∧ t = s) ∨
        ∃ value, creation pb target res = .ok (some value) ∧
          r = some ⟨s.nextAddr, res, value.1, value.2⟩ ∧
          Stored s ⟨s.nextAddr, res, value.1, value.2⟩ t ∧
          (NoNulls s.objectsMap →
            (pipelineStage = false → LookupsBound t.contents (target.refs value.1 value.2)) →
            NoNulls t.objectsMap))
      (fun e t => t = s ∧ ∃ fault, creation pb target res = .error fault ∧ e = .decode fault) := by
  apply ends_bind
  refine (create_ends pb target res s).mono (fun made t post => ?_) fun _ _ failed => failed
  rcases post with ⟨created, rfl, rfl⟩ | ⟨value, created, rfl, rfl⟩
  · exact ends_pure (Or.inl ⟨created, rfl, rfl⟩)
  · refine ends_bind (ends_modify ?_)
    have stored := stored_insert s res value.1 value.2
    cases pipelineStage with
    | true =>
        exact ends_pure (Or.inr ⟨value, created, rfl, stored,
          fun noNulls _ => noNulls_assign noNulls _ _⟩)
    | false =>
        apply ends_bind
        refine (bind_ends target _ _).mono (fun bound t post => ?_) nofun
        obtain ⟨rfl, same, unchanged⟩ := post
        refine ends_pure (Or.inr ⟨value, created, rfl, stored.trans same,
          fun noNulls lookups => ?_⟩)
        rw [unchanged (same.contents ▸ lookups rfl)]
        exact noNulls_assign noNulls _ _

end
end AfiDevice
end JP4Agent
