import JP4Agent.AfiAddEntry
import JP4Agent.TreeEntryBinds

set_option autoImplicit false

namespace JP4Agent
open Agent Afi AfiDevice

/-- A refused insert adds, replaces, removes and binds nothing. -/
theorem afiAddObjEntry_refused (pb : Protobuf) {target : Target} (shipped : Shipped target)
    {s t : Agent} {tId aId : UInt32} {mfs : List AfiTEntryMatchField} {aes : List AfiAEntry}
    (returned : afiAddObjEntry pb target tId aId mfs aes s = .ok false t) :
    (∀ name, t.lookup name = s.lookup name) ∧ t.bound = s.bound := by
  by_cases accepted : AfiAccepts target s tId aId (mfs.map AfiTEntryMatchField.id)
      (aes.map AfiAEntry.id)
  · -- an entry that is accepted is not refused half-way: all of its objects have creators
    have created := (childrenOf_accepted_iff pb target s tId aId mfs aes).mpr accepted
    have iff := ((afiAddObjEntry_adds pb target tId aId mfs aes s).of_ok returned).2.1
    exact absurd (iff.mpr created) Bool.false_ne_true
  · obtain ⟨t', refused, unchanged⟩ := afiAddObjEntry_refuses pb shipped accepted
    obtain ⟨_, rfl⟩ := EStateM.Result.ok.inj (refused.symm.trans returned)
    exact ⟨unchanged.lookup, unchanged.bound⟩

theorem afiAddObjEntry_refused_spine :
    let mfs : List AfiTEntryMatchField := [⟨99, .exact, ⟨[1], fun _ => 0⟩, 0, ⟨[], fun _ => 0⟩⟩]
    ∃ s t, run (Process.step AfiWire.protobuf Brcm.target) {} Spine.ops = some { agent := s } ∧
      afiAddObjEntry AfiWire.protobuf Brcm.target Spine.vrfTable.id Spine.setVrf.id mfs Spine.aes
        s = .ok false t ∧
      (∀ name, t.lookup name = s.lookup name) ∧ t.bound = s.bound := by
  intro mfs
  obtain ⟨s, afiPObj, ran, ready⟩ := Spine.ops_ready
  have refused : ¬ AfiAccepts Brcm.target s Spine.vrfTable.id Spine.setVrf.id
      (mfs.map AfiTEntryMatchField.id) (Spine.aes.map AfiAEntry.id) := by
    rintro ⟨table, action, _, hasTable, _, _, fields, _⟩
    obtain rfl := Option.some.inj (ready.hasTable.symm.trans hasTable)
    exact absurd (fields 99 List.mem_cons_self) (by decide)
  obtain ⟨t, returned, _⟩ := afiAddObjEntry_refuses AfiWire.protobuf (Or.inr (Or.inr rfl)) refused
  exact ⟨s, t, ran, returned, afiAddObjEntry_refused AfiWire.protobuf (Or.inr (Or.inr rfl))
    returned⟩

section
variable (target : Target) (l3Intf : UInt16 → Bool)

/-- The `_bind` of the object does not return before the end of its installation code,
whatever its local variables held before. -/
def ReachesEnd (s : Agent) (obj : AfiObject) : Prop :=
  (s.resolved (target.refs obj.cls obj.message)).isSome ∧
    (target = Brcm.target → ∀ entry, obj.value = ⟨.treeEntry, entry⟩ →
      ∀ frame, (Brcm.BrcmTreeEntry.bind s l3Intf frame entry).2.Completed l3Intf)

/-- `bind` of a stored object returns true only if its `_bind` reaches its end. -/
def BindsTruly (s : Agent) : Prop :=
  ∀ name obj, s.lookup name = some obj → ∀ t, bind target obj s = .ok true t →
    ReachesEnd target l3Intf s obj

/-- The objects that an object names are there and of the class it expects, and on the Broadcom
device the L3 interface for its prefix is there. -/
def Installable (contents : Contents) (value : (c : AfiClass) × c.Message) : Prop :=
  (∀ ref ∈ target.refs value.1 value.2, ∃ other, contents ref.1 = some other ∧ other.1 = ref.2) ∧
    (target = Brcm.target → ∀ entry : AfiTreeEntry, value = ⟨.treeEntry, entry⟩ →
      Brcm.FindsL3Intf l3Intf (entry.prefixBytes.getD []))

theorem resolved_isSome_iff (s : Agent) (refs : List (Str × AfiClass)) :
    (s.resolved refs).isSome ↔
      ∀ ref ∈ refs, ∃ other, s.contents ref.1 = some other ∧ other.1 = ref.2 := by
  induction refs with
  | nil => simp [Agent.resolved]
  | cons ref rest ih =>
      obtain ⟨name, cls⟩ := ref
      rw [List.forall_mem_cons, ← ih, Agent.resolved, Agent.contents]
      cases s.lookup name with
      | none => simp
      | some obj =>
          by_cases same : obj.cls = cls
          · simp [same, AfiObject.value]
          · simp [same, AfiObject.value]

theorem reachesEnd_iff (s : Agent) (obj : AfiObject) :
    ReachesEnd target l3Intf s obj ↔ Installable target l3Intf s.contents obj.value := by
  rw [ReachesEnd, Installable, resolved_isSome_iff]
  show _ ∧ _ ↔ (∀ ref ∈ target.refs obj.cls obj.message, _) ∧ _
  refine and_congr_right fun resolves => forall_congr' fun brcm => forall_congr' fun entry => ?_
  refine forall_congr' fun isEntry => ?_
  subst brcm
  rcases obj with ⟨addr, res, cls, message⟩
  obtain ⟨rfl, message⟩ := Sigma.mk.inj isEntry
  obtain rfl := eq_of_heq message
  obtain ⟨other, bound, isTree⟩ := resolves _ List.mem_cons_self
  obtain ⟨tree, found, rfl⟩ := Option.map_eq_some_iff.mp bound
  exact Brcm.bind_completed_iff found isTree l3Intf

/-- `bind` always returns true, so it does so truly exactly if every stored object can be
installed. -/
theorem bindsTruly_iff (s : Agent) :
    BindsTruly target l3Intf s ↔
      ∀ name value, s.contents name = some value → Installable target l3Intf s.contents value := by
  constructor
  · intro truly name value bound
    obtain ⟨obj, found, rfl⟩ := Option.map_eq_some_iff.mp bound
    obtain ⟨r, t, returned, rfl, _⟩ := (bind_binds target obj s).returns
    exact (reachesEnd_iff target l3Intf s obj).mp (truly name obj found t returned)
  · intro installable name obj found t _
    refine (reachesEnd_iff target l3Intf s obj).mpr (installable name obj.value ?_)
    rw [Agent.contents, found]
    rfl

end

section
variable (pb : Protobuf) (target : Target)

/-- The contents after these objects are stored, up to the first that is not created. -/
def storeAll (contents : Contents) : List (Option AfiJsonResource) → Contents
  | [] => contents
  | none :: _ => contents
  | some res :: rest =>
    match creation pb target res with
    | .ok (some value) => storeAll (Function.update contents res.name (some value)) rest
    | _ => contents

def AgentOp.after (s : Agent) : AgentOp → Contents
  | .handlePipelineConfig cfgRoot => storeAll pb target s.contents cfgRoot
  | .addAfiTree aftTreeName keyField protocol defaultNextObject treeSize =>
    storeAll pb target s.contents
      [some (afiTreeJsonObject pb aftTreeName keyField protocol defaultNextObject treeSize)]
  | .addEntry keystr pLen =>
    storeAll pb target s.contents [some (afiTreeEntryJsonObject pb keystr pLen)]
  | .afiAddObjEntry tId aId mfs aes =>
    storeAll pb target s.contents (((childrenOf pb s tId aId mfs aes).getD []).map some)
  | _ => s.contents

theorem storeAll_created {contents : Contents} {res : AfiJsonResource}
    {value : (c : AfiClass) × c.Message} (created : creation pb target res = .ok (some value))
    (rest : List (Option AfiJsonResource)) :
    storeAll pb target contents (some res :: rest) =
      storeAll pb target (Function.update contents res.name (some value)) rest := by
  rw [storeAll, created]

theorem handleAfiJsonObject_contents (res : AfiJsonResource) (pipelineStage : Bool) (s : Agent) :
    Ends (handleAfiJsonObject pb target (some res) pipelineStage) s
      (fun _ t => t.contents = storeAll pb target s.contents [some res])
      (fun _ t => t.contents = storeAll pb target s.contents [some res]) := by
  apply (handleAfiJsonObject_handled pb target res pipelineStage s).mono
  · rintro r t (⟨missing, _, rfl⟩ | ⟨value, made, _, handled⟩)
    · rw [storeAll, missing]
    · rw [storeAll_created pb target made, handled.contents]
      rfl
  · rintro e t ⟨rfl, fault, failed, _⟩
    rw [storeAll, failed]

theorem handleAfiJsonObjects_contents (pipelineStage : Bool)
    (cfg : List (Option AfiJsonResource)) : ∀ s : Agent,
      Ends (handleAfiJsonObjects pb target pipelineStage cfg) s
        (fun _ t => t.contents = storeAll pb target s.contents cfg)
        (fun _ t => t.contents = storeAll pb target s.contents cfg) := by
  induction cfg with
  | nil => exact fun s => ends_pure rfl
  | cons cfgObj rest ih =>
      intro s
      apply ends_bind
      cases cfgObj with
      | none => exact ends_throw rfl
      | some res =>
          apply (handleAfiJsonObject_handled pb target res pipelineStage s).mono
          · rintro r t (⟨missing, rfl, rfl⟩ | ⟨value, made, rfl, handled⟩)
            · exact ends_pure (by rw [storeAll, missing])
            · have stored : t.contents = Function.update s.contents res.name (some value) :=
                handled.contents
              rw [storeAll_created pb target made, ← stored]
              exact ih t
          · rintro e t ⟨rfl, fault, failed, _⟩
            rw [storeAll, failed]

/-- The loop over the map leaves the store as it is, also when it meets a null pointer. -/
theorem bindFrom_same (fuel : Nat) : ∀ (s : Agent) (last : Option Str),
    Ends (bindFrom target fuel last) s (fun _ t => Same s t) (fun _ t => Same s t) := by
  induction fuel with
  | zero => exact fun s last => ends_throw (Same.refl s)
  | succ fuel ih =>
      intro s last
      apply ends_bind
      apply ends_get
      split
      · exact ends_pure (Same.refl s)
      · exact ends_throw (Same.refl s)
      · rename_i key obj reached
        apply ends_bind
        apply (bind_binds target obj s).mono _ fun _ _ failed => failed.elim
        intro r t post
        exact (ih t (some key)).mono (fun _ u more => post.2.toSame.trans more)
          fun _ u more => post.2.toSame.trans more

theorem handlePipelineConfig_contents (cfgRoot : List (Option AfiJsonResource)) (s : Agent) :
    Ends (handlePipelineConfig pb target cfgRoot) s
      (fun _ t => t.contents = storeAll pb target s.contents cfgRoot)
      (fun _ t => t.contents = storeAll pb target s.contents cfgRoot) := by
  apply ends_bind
  apply (handleAfiJsonObjects_contents pb target true cfgRoot s).mono _ fun _ _ kept => kept
  intro r t stored
  cases r with
  | false => exact ends_pure stored
  | true =>
      apply ends_bind
      apply (bindFrom_same target (t.objectsMap.size + 1) t none).mono
      · exact fun _ u same => ends_pure (same.contents.trans stored)
      · exact fun _ u same => same.contents.trans stored

theorem afiAddObjEntry_contents (tId aId : UInt32) (mfs : List AfiTEntryMatchField)
    (aes : List AfiAEntry) (s : Agent) :
    Ends (afiAddObjEntry pb target tId aId mfs aes) s
      (fun _ t => t.contents = AgentOp.after pb target s (.afiAddObjEntry tId aId mfs aes))
      (fun _ t => t.contents = AgentOp.after pb target s (.afiAddObjEntry tId aId mfs aes)) := by
  rw [AgentOp.after]
  apply afiAddObjEntry_ends
  · intro t refused unchanged _
    rw [refused, unchanged.contents]
    rfl
  · intro eObjs t children looked
    rw [children, ← looked.contents]
    exact handleAfiJsonObjects_contents pb target false _ t

theorem AgentOp.program_contents (op : AgentOp) (s : Agent) :
    Ends (op.program pb target) s (fun _ t => t.contents = op.after pb target s)
      (fun _ t => t.contents = op.after pb target s) := by
  cases op with
  | p4InfoResource res => exact ends_modify rfl
  | handlePipelineConfig cfgRoot =>
      exact ends_map (handlePipelineConfig_contents pb target cfgRoot s)
  | addAfiTree => exact ends_map (handleAfiJsonObject_contents pb target _ false s)
  | addEntry => exact ends_map (handleAfiJsonObject_contents pb target _ false s)
  | afiAddObjEntry tId aId mfs aes =>
      exact ends_map (afiAddObjEntry_contents pb target tId aId mfs aes s)
  | getAfiObject name =>
      apply ends_map
      rw [Ends, getAfiObject_run]
      exact (same_touch s name).contents
  | showAfiObjects =>
      apply ends_map
      apply (CLIService.showAfiObjects_ends s).mono
      · rintro _ t rfl
        rfl
      · rintro e t ⟨rfl, _⟩
        rfl

theorem Process.step_contents {r r' : Process} {op : AgentOp}
    (taken : r.step pb target op = some r') :
    r'.agent.contents = op.after pb target r.agent := by
  have ends := op.program_contents pb target r.agent
  rw [Process.step] at taken
  split at taken
  · cases taken
  · split at taken
    · rename_i returned
      obtain rfl := Option.some.inj taken
      exact ends.of_ok returned
    · rename_i failed
      obtain rfl := Option.some.inj taken
      exact ends.of_error failed
    · rename_i failed
      obtain rfl := Option.some.inj taken
      exact ends.of_error failed

/-- Each of these objects, when it is stored and bound, finds the objects it names. -/
def InstallsEach (contents : Contents) : List AfiJsonResource → Prop
  | [] => True
  | res :: rest => ∀ value, creation pb target res = .ok (some value) →
      (∀ ref ∈ target.refs value.1 value.2, ∃ other,
        Function.update contents res.name (some value) ref.1 = some other ∧ other.1 = ref.2) ∧
      InstallsEach (Function.update contents res.name (some value)) rest

theorem handleAfiJsonObjects_installs (eObjs : List AfiJsonResource) : ∀ {s t : Agent},
    handleAfiJsonObjects pb target false (eObjs.map some) s = .ok true t →
      InstallsEach pb target s.contents eObjs →
        ∃ created, t.bound = created ++ s.bound ∧
          t.installed.map Installed.object = created ++ s.installed.map Installed.object ∧
          ∀ obj ∈ created, ∃ res ∈ eObjs, target.creators res.type = some obj.cls := by
  induction eObjs with
  | nil =>
      rintro s t ⟨⟩ _
      exact ⟨[], rfl, rfl, nofun⟩
  | cons res rest ih =>
      intro s t returned installs
      obtain ⟨handled, u, ran, more⟩ := bind_eq_ok.mp returned
      rcases (handleAfiJsonObject_handled pb target res false s).of_ok ran with
        ⟨_, rfl, _⟩ | ⟨value, made, rfl, stored⟩
      · cases more
      · obtain ⟨here, later⟩ := installs value made
        have contents : u.contents = Function.update s.contents res.name (some value) :=
          stored.contents
        rw [← contents] at here later
        obtain ⟨created, bound, installed, classes⟩ := ih more later
        obtain ⟨uses, resolved⟩ :=
          Option.isSome_iff_exists.mp ((resolved_isSome_iff u _).mpr here)
        have installs : target.install u ⟨s.nextAddr, res, value.1, value.2⟩ =
            some ⟨⟨s.nextAddr, res, value.1, value.2⟩, uses⟩ := by
          rw [Target.install, resolved]
          rfl
        refine ⟨created ++ [⟨s.nextAddr, res, value.1, value.2⟩], ?_, ?_, ?_⟩
        · rw [bound, stored.bound]
          simp
        · rw [installed, stored.installed, installs]
          simp
        · intro obj member
          rcases List.mem_append.mp member with before | last
          · obtain ⟨res', listed, creator⟩ := classes obj before
            exact ⟨res', List.mem_cons_of_mem _ listed, creator⟩
          · obtain rfl := List.mem_singleton.mp last
            exact ⟨res, List.mem_cons_self, class_of_creation pb target made⟩

/-- If only the last of the objects names others, it is enough that these are there in the end. -/
theorem installsEach_of_last {last : AfiJsonResource} (init : List AfiJsonResource) :
    ∀ contents : Contents,
      (∀ res ∈ init, ∀ value, creation pb target res = .ok (some value) →
        target.refs value.1 value.2 = []) →
      (∀ value, creation pb target last = .ok (some value) →
        (∀ res ∈ init, ∃ other, creation pb target res = .ok (some other)) →
        ∀ ref ∈ target.refs value.1 value.2, ∃ other,
          storeAll pb target contents ((init ++ [last]).map some) ref.1 = some other ∧
            other.1 = ref.2) →
      InstallsEach pb target contents (init ++ [last]) := by
  induction init with
  | nil =>
      intro contents _ resolves value made
      have there := resolves value made nofun
      rw [List.nil_append, List.map_cons, List.map_nil, storeAll_created pb target made] at there
      exact ⟨there, trivial⟩
  | cons res rest ih =>
      intro contents noRefs resolves value made
      rw [List.forall_mem_cons] at noRefs
      refine ⟨?_, ih _ noRefs.2 fun last' madeLast all => ?_⟩
      · rw [noRefs.1 value made]
        exact nofun
      · have there := resolves last' madeLast (List.forall_mem_cons.mpr ⟨⟨value, made⟩, all⟩)
        rw [List.cons_append, List.map_cons, storeAll_created pb target made] at there
        exact there

end
section
variable (pb : Protobuf) (target : Target) (l3Intf : UInt16 → Bool)

/-- A call that returns true has installed all that it created and bound. -/
def PushesAll (call : AfiM Bool) (s : Agent) : Prop :=
  ∀ t, call s = .ok true t → ∃ created, t.bound = created ++ s.bound ∧
    t.installed.map Installed.object = created ++ s.installed.map Installed.object ∧
    (target = Brcm.target → ∀ obj ∈ created, ∀ entry, obj.value = ⟨.treeEntry, entry⟩ →
      ∀ frame, (Brcm.BrcmTreeEntry.bind t l3Intf frame entry).2.Completed l3Intf)

/-- The calls that tell their caller whether an entry was added do so truly. -/
def AgentOp.ReportsTruly (s : Agent) : AgentOp → Prop
  | .addEntry keystr pLen => PushesAll target l3Intf (Afi.addEntry pb target keystr pLen) s
  | .afiAddObjEntry tId aId mfs aes =>
    PushesAll target l3Intf (Afi.afiAddObjEntry pb target tId aId mfs aes) s
  | _ => True

/-- Every object of the store can be installed once the objects of the operation are stored. -/
def AgentOp.Complete (s : Agent) (op : AgentOp) : Prop :=
  ∀ name value, op.after pb target s name = some value →
    Installable target l3Intf (op.after pb target s) value

theorem addEntry_pushes {s : Agent} {keystr : Str} {pLen : Int32}
    (complete : AgentOp.Complete pb target l3Intf s (.addEntry keystr pLen)) :
    PushesAll target l3Intf (addEntry pb target keystr pLen) s := by
  intro t returned
  have contents : t.contents = AgentOp.after pb target s (.addEntry keystr pLen) :=
    (handleAfiJsonObject_contents pb target _ false s).of_ok returned
  rcases (handleAfiJsonObject_handled pb target _ false s).of_ok returned with
    ⟨_, wrong, _⟩ | ⟨value, made, _, stored⟩
  · cases wrong
  · let obj : AfiObject := ⟨s.nextAddr, afiTreeEntryJsonObject pb keystr pLen, value.1, value.2⟩
    have found : t.lookup obj.name = some obj := stored.found
    have bound : t.contents obj.name = some obj.value := by
      rw [Agent.contents, found, Option.map_some]
    rw [contents] at bound
    have reaches : ReachesEnd target l3Intf t obj := by
      rw [reachesEnd_iff, contents]
      exact complete obj.name obj.value bound
    obtain ⟨uses, resolved⟩ := Option.isSome_iff_exists.mp reaches.1
    have installs : target.install t obj = some ⟨obj, uses⟩ := by
      rw [Target.install, resolved, Option.map_some]
    refine ⟨[obj], stored.bound, ?_, fun brcm other member entry isEntry => ?_⟩
    · rw [stored.installed, installs]
      rfl
    · obtain rfl := List.mem_singleton.mp member
      exact reaches.2 brcm entry isEntry

theorem childrenOf_types {s : Agent} {tId aId : UInt32} {mfs : List AfiTEntryMatchField}
    {aes : List AfiAEntry} {eObjs : List AfiJsonResource} {table : P4InfoTable}
    {afiPObj : AfiObject} (children : childrenOf pb s tId aId mfs aes = some eObjs)
    (hasTable : s.p4Info.table? tId = some table) (hasParent : s.lookup table.name = some afiPObj) :
    eObjs.map AfiJsonResource.type = childTypes afiPObj.cls := by
  simp only [childrenOf, Option.bind_eq_bind, Option.bind_eq_some_iff] at children
  obtain ⟨table', hasTable', action, _, afiPObj', hasParent', children⟩ := children
  obtain rfl := Option.some.inj (hasTable.symm.trans hasTable')
  obtain rfl := Option.some.inj (hasParent.symm.trans hasParent')
  obtain ⟨created, made⟩ := Option.ite_none_right_eq_some.mp children
  rw [← Option.some.inj made]
  exact (afiPObj.childObjs_created_iff pb table action mfs aes).2 created

variable {target} in
/-- Of the shipped devices only the Broadcom one accepts entries of tables, and only the last of
the objects of such an entry names others. -/
theorem afiAddObjEntry_pushes (shipped : Shipped target) {s : Agent} {tId aId : UInt32}
    {mfs : List AfiTEntryMatchField} {aes : List AfiAEntry}
    (complete : AgentOp.Complete pb target l3Intf s (.afiAddObjEntry tId aId mfs aes)) :
    PushesAll target l3Intf (afiAddObjEntry pb target tId aId mfs aes) s := by
  intro t returned
  have iff := ((afiAddObjEntry_adds pb target tId aId mfs aes s).of_ok returned).2.1
  obtain ⟨eObjs, children, _⟩ := iff.mp rfl
  obtain ⟨table, action, afiPObj, hasTable, _, hasParent, _, _, makes, creators⟩ :=
    (childrenOf_accepted_iff pb target s tId aId mfs aes).mp (iff.mp rfl)
  obtain ⟨rfl, isCap⟩ := cap_of_creators shipped makes creators
  have types := childrenOf_types pb children hasTable hasParent
  rw [isCap] at types
  have three : eObjs.length = 3 := by simpa [childTypes] using congrArg List.length types
  obtain ⟨mObj, aObj, eObj, rfl⟩ := List.length_eq_three.mp three
  simp only [List.map_cons, List.map_nil, childTypes, List.cons.injEq, and_true] at types
  obtain ⟨mType, aType, eType⟩ := types
  have mCreator : Brcm.target.creators mObj.type = some .capEntryMatch := by rw [mType]; rfl
  have aCreator : Brcm.target.creators aObj.type = some .capEntryAction := by rw [aType]; rfl
  have eCreator : Brcm.target.creators eObj.type = some .capEntry := by rw [eType]; rfl
  rw [afiAddObjEntry_known Brcm.target children] at returned
  have installs : InstallsEach pb Brcm.target s.contents ([mObj, aObj] ++ [eObj]) := by
    have after : AgentOp.after pb Brcm.target s (.afiAddObjEntry tId aId mfs aes) =
        storeAll pb Brcm.target s.contents (([mObj, aObj] ++ [eObj]).map some) := by
      rw [AgentOp.after, children]
      rfl
    apply installsEach_of_last
    · intro res listed value made
      have creator := class_of_creation pb Brcm.target made
      rcases value with ⟨cls, message⟩
      simp only [List.mem_cons, List.not_mem_nil, or_false] at listed
      rcases listed with rfl | rfl
      · obtain rfl := Option.some.inj (mCreator.symm.trans creator)
        rfl
      · obtain rfl := Option.some.inj (aCreator.symm.trans creator)
        rfl
    · intro value made all
      obtain ⟨m, madeMatch⟩ := all mObj List.mem_cons_self
      obtain ⟨a, madeAction⟩ := all aObj (by simp)
      have bound : storeAll pb Brcm.target s.contents (([mObj, aObj] ++ [eObj]).map some)
          eObj.name = some value := by
        show storeAll pb Brcm.target s.contents [some mObj, some aObj, some eObj] eObj.name = _
        rw [storeAll_created pb _ madeMatch, storeAll_created pb _ madeAction,
          storeAll_created pb _ made, storeAll, Function.update_self]
      rw [← after] at bound ⊢
      exact (complete eObj.name value bound).1
  obtain ⟨pushed, bound, installed, classes⟩ :=
    handleAfiJsonObjects_installs pb Brcm.target _ returned installs
  refine ⟨pushed, bound, installed, fun _ obj member entry isEntry => ?_⟩
  obtain ⟨res, listed, creator⟩ := classes obj member
  have isClass : obj.cls = .treeEntry := congrArg Sigma.fst isEntry
  rw [isClass] at creator
  simp only [List.mem_cons, List.not_mem_nil, or_false] at listed
  rcases listed with rfl | rfl | rfl
  · cases mCreator.symm.trans creator
  · cases aCreator.symm.trans creator
  · cases eCreator.symm.trans creator

variable {target} in
/-- All along a run, `bind` returns true of stored objects only if it reaches its end, and the
calls that add an entry only if all they created was installed, exactly if every operation
leaves a store in which each object finds what it names and what its prefix needs. -/
theorem bind_truthful_iff (shipped : Shipped target) {ops : List AgentOp} {r : Process}
    (ran : run (Process.step pb target) {} ops = some r) :
    (EveryState (Process.step pb target) (fun r => BindsTruly target l3Intf r.agent) {} ops ∧
      EveryStep (Process.step pb target)
        (fun r op => op.ReportsTruly pb target l3Intf r.agent) {} ops) ↔
    EveryStep (Process.step pb target)
      (fun r op => op.Complete pb target l3Intf r.agent) {} ops := by
  have states : EveryState (Process.step pb target) (fun r => BindsTruly target l3Intf r.agent) {}
      ops ↔ EveryStep (Process.step pb target)
        (fun r op => op.Complete pb target l3Intf r.agent) {} ops := by
    have start : BindsTruly target l3Intf {} := by
      intro name obj found
      simp [Agent.lookup, PtrMap.deref] at found
    refine @everyState_iff_everyStep _ _ _ (fun _ => True) _ _ (fun _ _ _ _ _ => trivial)
      (fun r op r' _ _ taken => ?_) _ _ _ trivial start ran
    rw [bindsTruly_iff, Process.step_contents pb target taken]
    rfl
  refine ⟨fun truly => states.mp truly.1, fun complete => ⟨states.mpr complete, ?_⟩⟩
  refine complete.mono fun r op complete => ?_
  cases op with
  | addEntry keystr pLen => exact addEntry_pushes pb target l3Intf complete
  | afiAddObjEntry tId aId mfs aes => exact afiAddObjEntry_pushes pb l3Intf shipped complete
  | _ => trivial

end

theorem step_addEntry {s t : Agent} {keystr : Str} {pLen : Int32} {r : Bool}
    (ran : addEntry AfiWire.protobuf Aft.target keystr pLen s = .ok r t) :
    Process.step AfiWire.protobuf Aft.target { agent := s } (.addEntry keystr pLen) =
      some { agent := t } :=
  Process.step_ok _ _ (map_eq_ok.mpr ⟨r, ran, rfl⟩)

def privateMessage : AfiTreeEntry := Aft.entryMessage [10, 0, 0, 1] 24

theorem private_creation :
    creation AfiWire.protobuf Aft.target
      (afiTreeEntryJsonObject AfiWire.protobuf [10, 0, 0, 1] 24) =
        .ok (some ⟨.treeEntry, privateMessage⟩) :=
  Aft.entry_creation Aft.wire_roundTrips (by decide +kernel)

/-- Without the tree the entry is not installed, but `bind` and `addEntry` return true. -/
theorem addEntry_unpushed : ∃ t obj,
    addEntry AfiWire.protobuf Aft.target [10, 0, 0, 1] 24 {} = .ok true t ∧
      run (Process.step AfiWire.protobuf Aft.target) {} [.addEntry [10, 0, 0, 1] 24] =
        some { agent := t } ∧
      t.lookup (str "entry1") = some obj ∧ t.installed = [] ∧
      (∃ u, bind Aft.target obj t = .ok true u ∧ u.installed = []) ∧
      ∀ l3Intf, ¬ BindsTruly Aft.target l3Intf t ∧
        ¬ PushesAll Aft.target l3Intf (addEntry AfiWire.protobuf Aft.target [10, 0, 0, 1] 24)
          {} := by
  obtain ⟨t, ran, stored⟩ := handleAfiJsonObject_made private_creation {}
  let obj : AfiObject :=
    ⟨0, afiTreeEntryJsonObject AfiWire.protobuf [10, 0, 0, 1] 24, .treeEntry, privateMessage⟩
  have found : t.lookup (str "entry1") = some obj := stored.found
  have missing : t.lookup (str "ipv4_lpm") = none := by
    rw [stored.lookup, if_neg (by decide)]
    simp [Agent.lookup, PtrMap.deref]
  have unresolved : t.resolved (Aft.target.refs obj.cls obj.message) = none := by
    show t.resolved [(str "ipv4_lpm", .tree)] = none
    rw [Agent.resolved, missing]
  have uninstalled : Aft.target.install t obj = none := by
    rw [Target.install, unresolved]
    rfl
  have installed : t.installed = [] := by
    rw [stored.installed, uninstalled]
    rfl
  have bound : t.bound = [obj] := stored.bound
  obtain ⟨r, u, returned, rfl, binds⟩ := (bind_binds Aft.target obj t).returns
  have added : run (Process.step AfiWire.protobuf Aft.target) {} [.addEntry [10, 0, 0, 1] 24] =
      some { agent := t } := by
    have taken : Process.step AfiWire.protobuf Aft.target {} (.addEntry [10, 0, 0, 1] 24) =
        some { agent := t } := step_addEntry ran
    rw [run, taken]
    rfl
  refine ⟨t, obj, ran, added, found, installed, ⟨u, returned, ?_⟩, fun l3Intf => ⟨?_, ?_⟩⟩
  · rw [binds.installed, List.filterMap_cons, uninstalled, installed]
    rfl
  · intro truly
    have reaches := (truly _ obj found u returned).1
    rw [unresolved] at reaches
    cases reaches
  · intro pushes
    obtain ⟨created, all, pushed, _⟩ := pushes t ran
    rw [bound, List.append_nil] at all
    rw [installed, ← all] at pushed
    cases pushed

/-- The operations after each of which an entry finds its tree. -/
def lpmOps : List AgentOp :=
  [.addAfiTree (str "ipv4_lpm") (str "ipv4_dst") 2 (str "discard1") 1024,
    .addEntry [10, 0, 0, 1] 24]

theorem bind_truthful_iff_lpm : ∃ r,
    run (Process.step AfiWire.protobuf Aft.target) {} lpmOps = some r ∧
      EveryState (Process.step AfiWire.protobuf Aft.target)
        (fun r => BindsTruly Aft.target (fun _ => false) r.agent) {} lpmOps := by
  obtain ⟨tree, made⟩ := tree_creation
  obtain ⟨s, added, stored⟩ := handleAfiJsonObject_made made {}
  obtain ⟨t, ran, _⟩ := handleAfiJsonObject_made private_creation s
  have first : Process.step AfiWire.protobuf Aft.target {}
      (.addAfiTree (str "ipv4_lpm") (str "ipv4_dst") 2 (str "discard1") 1024) =
        some { agent := s } := Process.step_ok _ _ (map_eq_ok.mpr ⟨true, added, rfl⟩)
  have second := step_addEntry ran
  have both : run (Process.step AfiWire.protobuf Aft.target) {} lpmOps = some { agent := t } := by
    rw [lpmOps, run, first, Option.bind_some, run, second]
    rfl
  have complete : EveryStep (Process.step AfiWire.protobuf Aft.target)
      (fun r op => op.Complete AfiWire.protobuf Aft.target (fun _ => false) r.agent) {} lpmOps := by
    have empty (name : Str) : Agent.contents {} name = none := by
      simp [Agent.contents, Agent.lookup, PtrMap.deref]
    have installable (contents : Contents) :
        Installable Aft.target (fun _ => false) contents ⟨.tree, tree⟩ :=
      ⟨fun ref listed => absurd listed List.not_mem_nil, fun brcm => absurd brcm aft_ne_brcm⟩
    refine ⟨?_, fun r taken => ⟨?_, fun _ _ => trivial⟩⟩
    · intro name value
      rw [AgentOp.after, storeAll_created _ _ made, storeAll, Function.update_apply, empty]
      show _ → Installable _ _ _ _
      split
      · intro bound
        rw [← Option.some.inj bound]
        exact installable _
      · intro bound
        cases bound
    · obtain rfl := Option.some.inj (first.symm.trans taken)
      intro name value
      rw [AgentOp.after, storeAll_created _ _ private_creation, storeAll, stored.contents]
      show Function.update _ (str "entry1") _ name = _ → Installable _ _ _ _
      rw [Function.update_apply]
      split
      · intro bound
        rw [← Option.some.inj bound]
        refine ⟨fun ref listed => ?_, fun brcm => absurd brcm aft_ne_brcm⟩
        obtain rfl : ref = (str "ipv4_lpm", .tree) := List.mem_singleton.mp listed
        exact ⟨⟨.tree, tree⟩, rfl, rfl⟩
      · rw [Function.update_apply]
        split
        · intro bound
          rw [← Option.some.inj bound]
          exact installable _
        · intro bound
          rw [empty] at bound
          cases bound
  exact ⟨_, both, ((bind_truthful_iff AfiWire.protobuf _ (Or.inl rfl) both).mpr complete).1⟩

end JP4Agent
