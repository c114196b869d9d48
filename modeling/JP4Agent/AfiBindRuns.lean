import JP4Agent.AfiBindCounts
import JP4Agent.P4RuntimePipelineReplace

set_option autoImplicit false

namespace JP4Agent
open Agent Afi AfiDevice P4 P4RuntimeServiceImpl PtrMap

inductive StoreOp where
  | setForwardingPipelineConfig (config : ForwardingPipelineConfig)
  | addTable (aftTreeName keyField : Str) (protocol : Int32) (defaultNextObject : Str)
    (treeSize : UInt32)
  | tableInsert (mem : Memory) (entry : TableEntry)

section
variable (parsers : Parsers) (pb : Protobuf) (target : Target)

/-- Every element of the array is an object that can be created. -/
def allCreatable : List (Option AfiJsonResource) → Bool
  | [] => true
  | none :: _ => false
  | some res :: rest =>
    match creation pb target res with
    | .ok (some _) => allCreatable rest
    | _ => false

/-- The operations during which the agent does not crash. Of a pipeline configuration all
objects can be created. -/
def StoreOp.step (s : Agent) : StoreOp → Option Agent
  | .setForwardingPipelineConfig config =>
    match parsers.json (parsers.p4DeviceConfig config.p4DeviceConfig).2 with
    | none => none
    | some cfgRoot =>
      if allCreatable pb target cfgRoot then
        returnedState (P4RuntimeServiceImpl.setForwardingPipelineConfig parsers pb target config s)
      else none
  | .addTable aftTreeName keyField protocol defaultNextObject treeSize =>
    returnedState (addAfiTree pb target aftTreeName keyField protocol defaultNextObject treeSize s)
  | .tableInsert mem entry =>
    returnedState (P4RuntimeServiceImpl.tableInsert pb target mem entry s)

/-- A pipeline configuration has an object for every name that the store has one for. -/
def StoreOp.ReplacesAll (s : Agent) : StoreOp → Prop
  | .setForwardingPipelineConfig config =>
    ∀ cfgRoot, parsers.json (parsers.p4DeviceConfig config.p4DeviceConfig).2 = some cfgRoot →
      ∀ name obj, s.lookup name = some obj → ∃ res, some res ∈ cfgRoot ∧ res.name = name
  | _ => True

theorem allCreatable_iff {cfgRoot : List (Option AfiJsonResource)} :
    allCreatable pb target cfgRoot = true ↔
      ∃ cfg : List AfiJsonResource, cfgRoot = cfg.map some ∧
        ∀ res ∈ cfg, Creatable pb target res := by
  constructor
  · intro all
    induction cfgRoot with
    | nil => exact ⟨[], rfl, by simp⟩
    | cons cfgObj rest ih =>
        cases cfgObj with
        | none => exact nomatch all
        | some res =>
            unfold allCreatable at all
            split at all
            · rename_i value made
              obtain ⟨cfg, rfl, creatable⟩ := ih all
              exact ⟨res :: cfg, rfl, List.forall_mem_cons.mpr ⟨⟨value, made⟩, creatable⟩⟩
            · exact nomatch all
  · rintro ⟨cfg, rfl, creatable⟩
    induction cfg with
    | nil => rfl
    | cons res rest ih =>
        obtain ⟨⟨value, made⟩, more⟩ := List.forall_mem_cons.mp creatable
        rw [List.map_cons, allCreatable, made]
        exact ih more

theorem bindCount_binds {s t : Agent} (counted : Counted s) (binds : Binds target s s.objects t)
    {name : Str} {obj : AfiObject} (found : s.lookup name = some obj) :
    t.bindCount obj.addr = s.bindCount obj.addr + 1 := by
  have member : obj.addr ∈ s.objects.map AfiObject.addr :=
    List.mem_map_of_mem (mem_objects.mpr ⟨name, found⟩)
  unfold bindCount
  rw [binds.bound, List.map_append, List.count_append, List.map_reverse, List.count_reverse,
    List.count_eq_one_of_mem counted.objects_nodup member, Nat.add_comm]

theorem counted_binds {s t : Agent} (counted : Counted s) (binds : Binds target s s.objects t) :
    Counted t := by
  refine ⟨?_, ?_, ?_, ?_⟩
  · intro name obj found
    rw [binds.lookup] at found
    rw [binds.nextAddr]
    exact counted.stored name obj found
  · intro obj member
    rw [binds.bound, List.mem_append, List.mem_reverse] at member
    rw [binds.nextAddr]
    rcases member with listed | before
    · obtain ⟨name, found⟩ := mem_objects.mp listed
      exact counted.stored name obj found
    · exact counted.bound obj before
  · intro installed member
    rw [binds.installed, List.mem_append, List.mem_reverse, List.mem_filterMap] at member
    rw [binds.nextAddr]
    rcases member with ⟨obj, listed, made⟩ | before
    · obtain ⟨name, found⟩ := mem_objects.mp listed
      rw [Target.install_object made]
      exact counted.stored name obj found
    · exact counted.installed installed before
  · intro name name' obj obj' found found'
    rw [binds.lookup] at found found'
    exact counted.apart name name' obj obj' found found'

variable {pb target}

/-- A configuration that comes after others keeps the counts at one exactly if none of the
objects before it stays in the store. -/
theorem boundOnce_binds {cfg : List AfiJsonResource} {s t : Agent} (counted : Counted s)
    (once : BoundOnce s) (creatable : ∀ res ∈ cfg, Creatable pb target res)
    (binds : Binds target (s.storeAll pb target cfg) (s.storeAll pb target cfg).objects t) :
    BoundOnce t ↔ ∀ name obj, s.lookup name = some obj → name ∈ cfg.map AfiJsonResource.name := by
  obtain ⟨counted', bound, _⟩ := storeAll_counted pb target cfg s counted
  have count : ∀ name obj, (s.storeAll pb target cfg).lookup name = some obj →
      t.bindCount obj.addr = s.bindCount obj.addr + 1 := by
    intro name obj found
    rw [bindCount_binds target counted' binds found, bindCount, bound, bindCount]
  constructor
  · intro after name obj found
    by_contra outside
    have kept : (s.storeAll pb target cfg).lookup name = some obj :=
      ((lookup_storeAll name s creatable).1 outside).trans found
    have twice := count name obj kept
    rw [once name obj found, after name obj ((binds.lookup name).trans kept)] at twice
    omega
  · intro replaced name obj found
    rw [binds.lookup] at found
    rw [count name obj found]
    by_cases inside : name ∈ cfg.map AfiJsonResource.name
    · obtain ⟨obj', found', new⟩ := (lookup_storeAll name s creatable).2 inside
      obtain rfl := Option.some.inj (found.symm.trans found')
      rw [counted.bindCount_new new]
    · rw [(lookup_storeAll name s creatable).1 inside] at found
      exact absurd (replaced name obj found) inside

variable {parsers}

/-- A pipeline configuration stores its objects, and then the whole store is bound. -/
theorem StoreOp.step_setForwardingPipelineConfig {config : ForwardingPipelineConfig} {s t : Agent}
    (taken : StoreOp.step parsers pb target s (.setForwardingPipelineConfig config) = some t) :
    ∃ cfg : List AfiJsonResource,
      parsers.json (parsers.p4DeviceConfig config.p4DeviceConfig).2 = some (cfg.map some) ∧
      (∀ res ∈ cfg, Creatable pb target res) ∧
      Binds target ((s.withResources config).storeAll pb target cfg)
        ((s.withResources config).storeAll pb target cfg).objects t := by
  rw [StoreOp.step, setForwardingPipelineConfig_run] at taken
  generalize parsers.json (parsers.p4DeviceConfig config.p4DeviceConfig).2 = parsed at taken ⊢
  cases parsed with
  | none => exact nomatch taken
  | some cfgRoot =>
      dsimp only at taken
      split at taken
      · rename_i all
        obtain ⟨cfg, rfl, creatable⟩ := (allCreatable_iff pb target).mp all
        rw [handlePipelineConfig_stores _ creatable] at taken
        refine ⟨cfg, rfl, creatable, ?_⟩
        have ends := bindAfiObjects_binds target ((s.withResources config).storeAll pb target cfg)
        cases bound : bindAfiObjects target ((s.withResources config).storeAll pb target cfg) with
        | ok r u =>
            rw [bind_of_ok bound] at taken
            obtain rfl := Option.some.inj taken
            exact ends.of_ok bound
        | error e u =>
            rw [bind_of_error bound] at taken
            exact nomatch taken
      · exact nomatch taken

theorem StoreOp.step_bookkept {s t : Agent} {op : StoreOp}
    (other : ∀ config, op ≠ .setForwardingPipelineConfig config)
    (taken : StoreOp.step parsers pb target s op = some t) : Bookkept s t := by
  cases op with
  | setForwardingPipelineConfig config => exact absurd rfl (other config)
  | addTable aftTreeName keyField protocol defaultNextObject treeSize =>
      have ends := handleAfiJsonObject_bookkept pb target
        (afiTreeJsonObject pb aftTreeName keyField protocol defaultNextObject treeSize) s
      obtain ⟨_, kept⟩ := ends.of_returnedState taken
      exact kept
  | tableInsert mem entry =>
      obtain ⟨_, kept⟩ := (tableInsert_bookkept pb target mem entry s).of_returnedState taken
      exact kept

theorem StoreOp.step_counted {s t : Agent} {op : StoreOp} (counted : Counted s)
    (taken : StoreOp.step parsers pb target s op = some t) : Counted t := by
  by_cases pipeline : ∃ config, op = .setForwardingPipelineConfig config
  · obtain ⟨config, rfl⟩ := pipeline
    obtain ⟨cfg, _, _, binds⟩ := step_setForwardingPipelineConfig taken
    have stored := storeAll_counted pb target cfg _ (counted.withResources config)
    exact counted_binds target stored.1 binds
  · exact (step_bookkept (fun config same => pipeline ⟨config, same⟩) taken).counted counted

/-- One operation keeps the counts at one exactly if it meets the condition. -/
theorem StoreOp.step_boundOnce {s t : Agent} {op : StoreOp} (counted : Counted s)
    (once : BoundOnce s) (taken : StoreOp.step parsers pb target s op = some t) :
    BoundOnce t ↔ StoreOp.ReplacesAll parsers s op := by
  by_cases pipeline : ∃ config, op = .setForwardingPipelineConfig config
  · obtain ⟨config, rfl⟩ := pipeline
    obtain ⟨cfg, read, creatable, binds⟩ := step_setForwardingPipelineConfig taken
    rw [boundOnce_binds (counted.withResources config) once creatable binds]
    constructor
    · intro named cfgRoot' read' name obj found
      obtain rfl := Option.some.inj (read.symm.trans read')
      obtain ⟨res, member, same⟩ := List.mem_map.mp (named name obj found)
      exact ⟨res, List.mem_map_of_mem member, same⟩
    · intro replaced name obj found
      obtain ⟨res, member, same⟩ := replaced _ read name obj found
      rw [List.mem_map_of_injective (Option.some_injective _)] at member
      exact List.mem_map.mpr ⟨res, member, same⟩
  · have kept := step_bookkept (fun config same => pipeline ⟨config, same⟩) taken
    refine ⟨fun _ => ?_, fun _ => kept.once counted once⟩
    cases op with
    | setForwardingPipelineConfig config => exact absurd ⟨config, rfl⟩ pipeline
    | _ => trivial

theorem boundOnce_fresh : BoundOnce {} := by
  intro name obj found
  simp [Agent.lookup, deref] at found

/-- All along a run every object of the store has been bound exactly once, exactly if each
pipeline configuration replaces the objects before it. -/
theorem boundOnce_iff_replacesAll (parsers : Parsers) (pb : Protobuf) (target : Target)
    (ops : List StoreOp) (s : Agent) (ran : run (StoreOp.step parsers pb target) {} ops = some s) :
    EveryState (StoreOp.step parsers pb target) BoundOnce {} ops ↔
      EveryStep (StoreOp.step parsers pb target) (StoreOp.ReplacesAll parsers) {} ops := by
  have keeps : ∀ s op t, Counted s → StoreOp.step parsers pb target s op = some t → Counted t :=
    fun _ _ _ => StoreOp.step_counted
  exact everyState_iff_everyStep keeps (fun _ _ _ => StoreOp.step_boundOnce) counted_fresh
    boundOnce_fresh ran

end

theorem addAfiTree_binds {pb : Protobuf} {aftTreeName keyField defaultNextObject : Str}
    {protocol : Int32} {treeSize : UInt32} {tree : AfiTree} {s : Agent}
    (noNulls : NoNulls s.objectsMap)
    (made : creation pb Aft.target
      (afiTreeJsonObject pb aftTreeName keyField protocol defaultNextObject treeSize) =
        .ok (some ⟨.tree, tree⟩)) :
    ∃ t, addAfiTree pb Aft.target aftTreeName keyField protocol defaultNextObject treeSize s =
        .ok true t ∧ NoNulls t.objectsMap ∧
      Handled Aft.target s ⟨s.nextAddr, afiTreeJsonObject pb aftTreeName keyField protocol
        defaultNextObject treeSize, .tree, tree⟩ false t := by
  unfold addAfiTree
  generalize afiTreeJsonObject pb aftTreeName keyField protocol defaultNextObject treeSize = res
    at made ⊢
  have bound : HandleAllBound pb Aft.target s.contents [some res] :=
    handleAllBound_created pb Aft.target made trivial trivial
  have ends := (handleAfiJsonObject_noNulls pb Aft.target noNulls bound).and
    (handleAfiJsonObject_handled pb Aft.target res false s)
  cases ran : handleAfiJsonObject pb Aft.target (some res) false s with
  | ok r t =>
      obtain ⟨noNulls', post⟩ := ends.of_ok ran
      rcases post with ⟨missing, _⟩ | ⟨value, made', rfl, handled⟩
      · exact nomatch made.symm.trans missing
      · obtain rfl := Option.some.inj (Except.ok.inj (made.symm.trans made'))
        exact ⟨t, rfl, noNulls', handled⟩
  | error e t =>
      obtain ⟨_, _, fault, failed, _⟩ := ends.of_error ran
      exact nomatch made.symm.trans failed

/-- A tree from the CLI, and then a pipeline without objects. -/
def treeOps : List StoreOp :=
  [.addTable (str "ipv4_lpm") (str "ipv4_dst") 2 (str "discard1") 1024,
    .setForwardingPipelineConfig emptyConfig]

def treeMessage : AfiTree where
  name := some (str "ipv4_lpm")
  keyField := some (str "ipv4_dst")
  proto := some (UInt64.ofInt (2 : Int32).toInt)
  defaultNextNode := some (str "discard1")
  size := some (1024 : UInt32).toUInt64

theorem tree_creation : ∃ tree : AfiTree,
    creation AfiWire.protobuf Aft.target (afiTreeJsonObject AfiWire.protobuf (str "ipv4_lpm")
      (str "ipv4_dst") 2 (str "discard1") 1024) = .ok (some ⟨.tree, tree⟩) := by
  have short : (AfiWire.protobuf.serialize .tree treeMessage).length < 5000 := by decide
  have creator : Aft.target.creators (str "afi-tree") = some .tree := by decide
  exact ⟨_, creation_childJsonRes AfiWire.protobuf short Aft.target 1000001 (str "ipv4_lpm")
    creator⟩

/-- The tree is stored and bound by the first of the two, and bound again by the second. -/
theorem treeOps_run : ∃ s t tree,
    StoreOp.step (arrayParsers []) AfiWire.protobuf Aft.target {}
      (.addTable (str "ipv4_lpm") (str "ipv4_dst") 2 (str "discard1") 1024) = some s ∧
    StoreOp.step (arrayParsers []) AfiWire.protobuf Aft.target s
      (.setForwardingPipelineConfig emptyConfig) = some t ∧
    s.lookup (str "ipv4_lpm") = some tree ∧ tree.cls = .tree := by
  obtain ⟨message, made⟩ := tree_creation
  obtain ⟨s, added, noNulls, handled⟩ := addAfiTree_binds (s := {}) noNulls_empty made
  have bound : AllBound Aft.target s.contents := by
    intro name value held
    rw [handled.contents, Function.update_apply] at held
    split at held
    · obtain rfl := Option.some.inj held
      exact trivial
    · simp [Agent.contents, Agent.lookup, deref] at held
  obtain ⟨t, returned, _⟩ := setForwardingPipelineConfig_returns AfiWire.protobuf
    Aft.target emptyConfig s (arrayParsers_read []) noNulls rfl bound
  have first : StoreOp.step (arrayParsers []) AfiWire.protobuf Aft.target {}
      (.addTable (str "ipv4_lpm") (str "ipv4_dst") 2 (str "discard1") 1024) = some s := by
    rw [StoreOp.step, added, returnedState]
  refine ⟨s, t, _, first, ?_, (handled.lookup _).trans (if_pos rfl), rfl⟩
  have read : (arrayParsers []).json ((arrayParsers []).p4DeviceConfig
      emptyConfig.p4DeviceConfig).2 = some [] := arrayParsers_read []
  rw [StoreOp.step, read, returned]
  rfl

theorem tree_bound_twice : ∃ s tree,
    run (StoreOp.step (arrayParsers []) AfiWire.protobuf Aft.target) {} treeOps = some s ∧
      s.lookup (str "ipv4_lpm") = some tree ∧ s.bindCount tree.addr = 2 ∧ ¬ BoundOnce s := by
  obtain ⟨s, t, tree, added, set, found, _⟩ := treeOps_run
  have counted := StoreOp.step_counted counted_fresh added
  have first : s.bindCount tree.addr = 1 :=
    (StoreOp.step_boundOnce counted_fresh boundOnce_fresh added).mpr trivial _ _ found
  obtain ⟨cfg, read, _, binds⟩ := StoreOp.step_setForwardingPipelineConfig set
  have empty : cfg = [] := by
    have same := (arrayParsers_read []).symm.trans read
    exact List.map_eq_nil_iff.mp (Option.some.inj same).symm
  rw [empty] at binds
  have again := bindCount_binds Aft.target (counted.withResources emptyConfig) binds found
  have twice : t.bindCount tree.addr = 2 := again.trans (congrArg (· + 1) first)
  have kept : t.lookup (str "ipv4_lpm") = some tree := (binds.lookup _).trans found
  refine ⟨t, tree, ?_, kept, twice, fun once => ?_⟩
  · rw [treeOps, run, added, Option.bind_some, run, set]
    rfl
  · have exact := once _ _ kept
    omega

theorem boundOnce_iff_replacesAll_tree :
    let step := StoreOp.step (arrayParsers []) AfiWire.protobuf Aft.target
    EveryState step BoundOnce {} treeOps ↔
      EveryStep step (StoreOp.ReplacesAll (arrayParsers [])) {} treeOps := by
  obtain ⟨s, t, _, added, set, _⟩ := treeOps_run
  refine boundOnce_iff_replacesAll (arrayParsers []) AfiWire.protobuf Aft.target treeOps t ?_
  rw [treeOps, run, added, Option.bind_some, run, set]
  rfl

end JP4Agent
