import JP4Agent.P4RuntimePipelineFailures

set_option autoImplicit false

namespace JP4Agent
open Agent Afi AfiDevice PtrMap

/-- What a lookup of the name shows of the object: type, id and payload, and the message. -/
def Agent.view (s : Agent) (name : Str) : Option (AfiJsonResource × ((c : AfiClass) × c.Message)) :=
  (s.lookup name).map fun obj => (obj.jsonRes, obj.value)

theorem Agent.view_eq_none {s : Agent} {name : Str} : s.view name = none ↔ s.lookup name = none :=
  Option.map_eq_none_iff

section
variable (pb : Protobuf) (target : Target)

def madeObject (res : AfiJsonResource) :
    Option (Str × (AfiJsonResource × ((c : AfiClass) × c.Message))) :=
  match creation pb target res with
  | .ok (some value) => some (res.name, res, value)
  | _ => none

def madeObjects (cfg : List AfiJsonResource) :
    List (Str × (AfiJsonResource × ((c : AfiClass) × c.Message))) :=
  cfg.filterMap (madeObject pb target)

variable {pb target} in
theorem mem_madeObjects {cfg : List AfiJsonResource} {name : Str} {res : AfiJsonResource}
    {value : (c : AfiClass) × c.Message}
    (member : (name, res, value) ∈ madeObjects pb target cfg) :
    res ∈ cfg ∧ res.name = name ∧ creation pb target res = .ok (some value) := by
  obtain ⟨res', listed, made⟩ := List.mem_filterMap.mp member
  unfold madeObject at made
  split at made
  · rename_i value' created
    cases made
    exact ⟨listed, rfl, created⟩
  · exact nomatch made

variable {pb target} in
theorem madeObjects_names {cfg : List AfiJsonResource}
    (creatable : ∀ res ∈ cfg, Creatable pb target res) :
    (madeObjects pb target cfg).map Prod.fst = cfg.map AfiJsonResource.name := by
  induction cfg with
  | nil => rfl
  | cons res rest ih =>
      obtain ⟨value, made⟩ := creatable res List.mem_cons_self
      have more := ih fun other member => creatable other (List.mem_cons_of_mem _ member)
      unfold madeObjects at more ⊢
      rw [List.filterMap_cons, madeObject, made, List.map_cons, List.map_cons, more]

/-- A name shows the last object of the configuration with that name, if there is one. -/
theorem view_storeAll (cfg : List AfiJsonResource) (name : Str) : ∀ s : Agent,
    (s.storeAll pb target cfg).view name =
      (lastOf name (madeObjects pb target cfg)).or (s.view name) := by
  induction cfg with
  | nil => exact fun _ => rfl
  | cons res rest ih =>
      intro s
      unfold storeAll madeObjects at ih ⊢
      rw [List.foldl_cons, ih, storeCreated, List.filterMap_cons, madeObject]
      cases creation pb target res with
      | error _ => rfl
      | ok made =>
          cases made with
          | none => rfl
          | some value =>
              dsimp only
              rw [lastOf, Option.or_assoc]
              congr 1
              unfold Agent.view
              rw [lookup_storeObject]
              by_cases same : res.name = name
              · rw [if_pos same, if_pos same]
                rfl
              · rw [if_neg same, if_neg same]
                rfl

end

namespace P4RuntimeServiceImpl
open P4

section
variable {parsers : Parsers} {pb : Protobuf} {target : Target}
  {config : ForwardingPipelineConfig} {cfg : List AfiJsonResource}

theorem setForwardingPipelineConfig_maps {s t : Agent} {status : Status}
    (read : parsers.json (parsers.p4DeviceConfig config.p4DeviceConfig).2 = some (cfg.map some))
    (creatable : ∀ res ∈ cfg, Creatable pb target res)
    (returned : setForwardingPipelineConfig parsers pb target config s = .ok status t) :
    (∀ id, t.p4Info.p4InfoResource id =
        (lastOf id (config.resources.map fun res => (res.id, res))).or
          (s.p4Info.p4InfoResource id)) ∧
      (∀ name, t.p4Info.nameMap.deref name =
        (lastOf name (config.resources.map fun res => (res.name, res))).or
          (s.p4Info.nameMap.deref name)) ∧
      ∀ name, t.view name = (lastOf name (madeObjects pb target cfg)).or (s.view name) := by
  rw [setForwardingPipelineConfig_run, read] at returned
  simp only [handlePipelineConfig_stores _ creatable] at returned
  cases ran : (do bindAfiObjects target; pure true : AfiM Bool)
      ((s.withResources config).storeAll pb target cfg) with
  | error e u =>
      rw [ran] at returned
      simp at returned
  | ok r u =>
      rw [ran] at returned
      obtain ⟨_, rfl⟩ := EStateM.Result.ok.inj returned
      obtain ⟨_, u', bound, ended⟩ := bind_eq_ok.mp ran
      obtain ⟨_, rfl⟩ := EStateM.Result.ok.inj ended
      have binds := (bindAfiObjects_binds target _).of_ok bound
      have info : u'.p4Info = s.p4Info.insertAll config.resources :=
        binds.p4Info.trans (storeAll_p4Info ..)
      rw [info]
      refine ⟨fun id => P4Info.p4InfoResource_insertAll .., fun name => deref_assignAll ..,
        fun name => ?_⟩
      have stored := view_storeAll pb target cfg name (s.withResources config)
      unfold Agent.view at stored ⊢
      rw [binds.lookup, stored]
      rfl

end

/-- The two agents find the same under every id and every name. -/
structure SameAsFresh (t fresh : Agent) : Prop where
  resource : ∀ id, t.p4Info.p4InfoResource id = fresh.p4Info.p4InfoResource id
  named : ∀ name, t.p4Info.nameMap.deref name = fresh.p4Info.nameMap.deref name
  object : ∀ name, t.view name = fresh.view name

section
variable (config : ForwardingPipelineConfig) (cfg : List AfiJsonResource)

/-- The agent knows no table, action or object but those that the configuration defines. -/
structure NothingElse (s : Agent) : Prop where
  resource : ∀ id, s.p4Info.p4InfoResource id ≠ none →
    id ∈ config.resources.map P4InfoResource.id
  named : ∀ name, s.p4Info.nameMap.deref name ≠ none →
    name ∈ config.resources.map P4InfoResource.name
  object : ∀ name, s.lookup name ≠ none → name ∈ cfg.map AfiJsonResource.name

/-- The entry names a table or an action that the configuration does not define, or a
table for which it has no object. -/
def NamesOther (s : Agent) (tId aId : UInt32) : Prop :=
  tId ∉ config.resources.map P4InfoResource.id ∨ aId ∉ config.resources.map P4InfoResource.id ∨
    ∃ table, s.p4Info.table? tId = some table ∧ table.name ∉ cfg.map AfiJsonResource.name

variable {config cfg} in
theorem NothingElse.refuses {s : Agent} (nothing : NothingElse config cfg s) (pb : Protobuf)
    (target : Target) {tId aId : UInt32} (other : NamesOther config cfg s tId aId)
    (mfs : List AfiTEntryMatchField) (aes : List AfiAEntry) :
    ∃ t, afiAddObjEntry pb target tId aId mfs aes s = .ok false t := by
  have unknown : ∀ id, id ∉ config.resources.map P4InfoResource.id →
      s.p4Info.p4InfoResource id = none := by
    intro id outside
    by_contra found
    exact outside (nothing.resource id found)
  have childless : childrenOf pb s tId aId mfs aes = none := by
    unfold childrenOf
    rcases other with outside | outside | ⟨table, hasTable, outside⟩
    · simp [P4Info.table?, unknown tId outside]
    · simp [P4Info.action?, unknown aId outside]
    · have absent : s.lookup table.name = none := by
        by_contra found
        exact outside (nothing.object table.name found)
      simp [hasTable, absent]
  have ends : Ends (afiAddObjEntry pb target tId aId mfs aes) s (fun r _ => r = false)
      (fun _ _ => False) := by
    apply afiAddObjEntry_ends
    · exact fun _ _ _ _ => rfl
    · intro eObjs t children
      rw [childless] at children
      simp at children
  obtain ⟨r, t, returned, rfl⟩ := ends.returns
  exact ⟨t, returned⟩

/-- After a request all of whose objects are created the agent is like a fresh one after
the same request, and refuses what the request does not define, exactly if it knew nothing
else before. -/
theorem pipeline_replaces_iff (parsers : Parsers) (pb : Protobuf) (target : Target)
    (s t fresh : Agent) (status status' : Status)
    (read : parsers.json (parsers.p4DeviceConfig config.p4DeviceConfig).2 = some (cfg.map some))
    (creatable : ∀ res ∈ cfg, Creatable pb target res)
    (returned : setForwardingPipelineConfig parsers pb target config s = .ok status t)
    (started : setForwardingPipelineConfig parsers pb target config {} = .ok status' fresh) :
    (SameAsFresh t fresh ∧ NothingElse config cfg t ∧ ∀ tId aId, NamesOther config cfg t tId aId →
      ∀ mfs aes, ∃ u, afiAddObjEntry pb target tId aId mfs aes t = .ok false u) ↔
        NothingElse config cfg s := by
  obtain ⟨resources, named, objects⟩ := setForwardingPipelineConfig_maps read creatable returned
  obtain ⟨freshResources, freshNamed, freshObjects⟩ :=
    setForwardingPipelineConfig_maps read creatable started
  have ids : (config.resources.map fun res => (res.id, res)).map Prod.fst =
      config.resources.map P4InfoResource.id := by
    rw [List.map_map]
    rfl
  have names : (config.resources.map fun res => (res.name, res)).map Prod.fst =
      config.resources.map P4InfoResource.name := by
    rw [List.map_map]
    rfl
  have objNames := madeObjects_names creatable
  have noResource : ∀ id, ({} : Agent).p4Info.p4InfoResource id = none := by
    intro id
    simp [P4Info.p4InfoResource, deref]
  have noName : ∀ name, ({} : Agent).p4Info.nameMap.deref name = none := by
    intro name
    simp [deref]
  have noObject : ∀ name, ({} : Agent).view name = none := by
    intro name
    simp [Agent.view, Agent.lookup, deref]
  constructor
  · rintro ⟨⟨sameResource, sameNamed, sameObject⟩, _⟩
    refine ⟨?_, ?_, ?_⟩
    · rw [← ids]
      apply lastOf_or_iff.mp
      intro id
      rw [← resources, sameResource, freshResources, noResource, Option.or_none]
    · rw [← names]
      apply lastOf_or_iff.mp
      intro name
      rw [← named, sameNamed, freshNamed, noName, Option.or_none]
    · intro name found
      rw [← objNames]
      refine lastOf_or_iff.mp (fun name => ?_) name (fun absent => found (view_eq_none.mp absent))
      rw [← objects, sameObject, freshObjects, noObject, Option.or_none]
  · intro nothing
    have oldResource := nothing.resource
    have oldNamed := nothing.named
    have oldObject : ∀ name, s.view name ≠ none → name ∈ cfg.map AfiJsonResource.name :=
      fun name found => nothing.object name fun absent => found (view_eq_none.mpr absent)
    rw [← ids] at oldResource
    rw [← names] at oldNamed
    rw [← objNames] at oldObject
    have nothing' : NothingElse config cfg t := by
      refine ⟨fun id found => ?_, fun name found => ?_, fun name found => ?_⟩
      · rw [resources] at found
        rw [← ids]
        exact mem_of_lastOf_or oldResource found
      · rw [named] at found
        rw [← names]
        exact mem_of_lastOf_or oldNamed found
      · rw [ne_eq, ← view_eq_none, objects] at found
        rw [← objNames]
        exact mem_of_lastOf_or oldObject found
    refine ⟨⟨fun id => ?_, fun name => ?_, fun name => ?_⟩, nothing', ?_⟩
    · rw [resources, lastOf_or_iff.mpr oldResource, freshResources, noResource, Option.or_none]
    · rw [named, lastOf_or_iff.mpr oldNamed, freshNamed, noName, Option.or_none]
    · rw [objects, lastOf_or_iff.mpr oldObject, freshObjects, noObject, Option.or_none]
    · intro tId aId other mfs aes
      exact nothing'.refuses pb target other mfs aes

end
/-- A request is answered with OK if all it loads can be bound. -/
theorem setForwardingPipelineConfig_returns (pb : Protobuf) (target : Target)
    (config : ForwardingPipelineConfig) (s : Agent) {parsers : Parsers}
    {cfgRoot : List (Option AfiJsonResource)} {loaded : Contents}
    (read : parsers.json (parsers.p4DeviceConfig config.p4DeviceConfig).2 = some cfgRoot)
    (noNulls : NoNulls s.objectsMap) (loads : load pb target s.contents cfgRoot = some loaded)
    (bound : AllBound target loaded) :
    ∃ t, setForwardingPipelineConfig parsers pb target config s = .ok .OK t ∧
      SameInfo (s.withResources config) t ∧ t.contents = loaded := by
  obtain ⟨t, returned, _, info, contents⟩ :=
    handlePipelineConfig_returns (s := s.withResources config) pb target noNulls loads bound
  refine ⟨t, ?_, info, contents⟩
  rw [setForwardingPipelineConfig_run, read]
  simp only
  rw [returned]

def emptyConfig : ForwardingPipelineConfig where
  actions := []
  tables := []
  p4DeviceConfig := deviceConfig []

/-- An empty pipeline after the one of the VRF classifier: the table and its object are
still found, which they are not in a fresh agent. -/
theorem pipeline_kept : ∃ s t fresh,
    let parsers := arrayParsers []
    run (Process.step AfiWire.protobuf Brcm.target) {} Spine.ops = some { agent := s } ∧
      setForwardingPipelineConfig parsers AfiWire.protobuf Brcm.target emptyConfig s =
        .ok .OK t ∧
      setForwardingPipelineConfig parsers AfiWire.protobuf Brcm.target emptyConfig {} =
        .ok .OK fresh ∧
      t.p4Info.table? Spine.vrfTable.id = some Spine.vrfTable ∧
      fresh.p4Info.table? Spine.vrfTable.id = none ∧
      t.contents Spine.vrfTable.name ≠ none ∧ fresh.contents Spine.vrfTable.name = none ∧
      ¬ SameAsFresh t fresh := by
  have read : (arrayParsers []).json ((arrayParsers []).p4DeviceConfig
      emptyConfig.p4DeviceConfig).2 = some [] := arrayParsers_read []
  obtain ⟨s, ran, noNulls, contents, info⟩ := Spine.ops_loaded
  obtain ⟨t, returned, kept, objects⟩ := setForwardingPipelineConfig_returns AfiWire.protobuf
    Brcm.target emptyConfig s read noNulls rfl (contents ▸ Spine.allBound_loaded)
  have nothing : AllBound Brcm.target ({} : Agent).contents := by
    intro name value bound
    simp [Agent.contents, Agent.lookup, deref] at bound
  obtain ⟨fresh, started, freshInfo, freshObjects⟩ := setForwardingPipelineConfig_returns
    AfiWire.protobuf Brcm.target emptyConfig {} read noNulls_empty rfl nothing
  have hasTable : t.p4Info.table? Spine.vrfTable.id = some Spine.vrfTable :=
    (kept.table _).trans ((info.table _).trans Spine.p4Info_table)
  have noTable : fresh.p4Info.table? Spine.vrfTable.id = none := by
    rw [freshInfo.table]
    change (({} : PtrMap UInt32 P4InfoResource).deref _).bind _ = none
    simp [deref]
  refine ⟨s, t, fresh, ran, returned, started, hasTable, noTable, ?_, ?_, fun same => ?_⟩
  · rw [objects, contents, Spine.loaded_vrfTable]
    simp
  · rw [freshObjects]
    simp [Agent.contents, Agent.lookup, deref]
  · have found := same.resource Spine.vrfTable.id
    unfold P4Info.table? at hasTable noTable
    rw [found, noTable] at hasTable
    simp at hasTable

theorem pipeline_replaces_iff_first : ∃ t,
    let parsers := arrayParsers [matchRes]
    let config := spineConfig [matchRes]
    setForwardingPipelineConfig parsers AfiWire.protobuf Brcm.target config {} = .ok .OK t ∧
      ((SameAsFresh t t ∧ NothingElse config [matchRes] t ∧
        ∀ tId aId, NamesOther config [matchRes] t tId aId →
          ∀ mfs aes, ∃ u, afiAddObjEntry AfiWire.protobuf Brcm.target tId aId mfs aes t =
            .ok false u) ↔ NothingElse config [matchRes] {}) := by
  have made : creation AfiWire.protobuf Brcm.target matchRes = .ok (some ⟨.capMatch, {}⟩) := rfl
  have loads : load AfiWire.protobuf Brcm.target ({} : Agent).contents [some matchRes] = some _ :=
    load_created AfiWire.protobuf Brcm.target made []
  have bound : AllBound Brcm.target
      (Function.update ({} : Agent).contents matchRes.name (some ⟨.capMatch, {}⟩)) := by
    intro name value held
    rw [Function.update_apply] at held
    by_cases same : name = matchRes.name
    · rw [if_pos same] at held
      obtain rfl := Option.some.inj held
      exact trivial
    · rw [if_neg same] at held
      simp [Agent.contents, Agent.lookup, deref] at held
  obtain ⟨t, returned, _⟩ := setForwardingPipelineConfig_returns AfiWire.protobuf
    Brcm.target (spineConfig [matchRes]) {} (spineConfig_read [matchRes]) noNulls_empty loads bound
  have creatable : ∀ res ∈ [matchRes], Creatable AfiWire.protobuf Brcm.target res :=
    List.forall_mem_singleton.mpr ⟨_, made⟩
  exact ⟨t, returned, pipeline_replaces_iff (spineConfig [matchRes]) [matchRes]
    (arrayParsers [matchRes]) AfiWire.protobuf Brcm.target {} t t .OK .OK
    (spineConfig_read [matchRes]) creatable returned returned⟩

end P4RuntimeServiceImpl
end JP4Agent
