import JP4Agent.AfiCreation
import JP4Agent.AfiStore
import JP4Agent.AfiWire
import JP4Agent.CLIService
import JP4Agent.Library.Runs
import JP4Agent.Targets

set_option autoImplicit false

namespace JP4Agent
open Agent Afi AfiDevice PtrMap

inductive AgentOp where
  | p4InfoResource (res : P4InfoResource)
  | handlePipelineConfig (cfgRoot : List (Option AfiJsonResource))
  | addAfiTree (aftTreeName keyField : Str) (protocol : Int32) (defaultNextObject : Str)
    (treeSize : UInt32)
  | addEntry (keystr : Str) (pLen : Int32)
  | afiAddObjEntry (tId aId : UInt32) (mfs : List AfiTEntryMatchField) (aes : List AfiAEntry)
  | getAfiObject (name : Str)
  | showAfiObjects

/-- The agent, and what it crashed with. -/
structure Process where
  agent : Agent := {}
  crashed : Option Fault := none

/-- No null pointer in the map, and none was dereferenced: only a fault of the decoder
can have stopped the agent. -/
structure Process.Sound (r : Process) : Prop where
  noNulls : NoNulls r.agent.objectsMap
  decoder : ∀ e, r.crashed = some e → ∃ fault, e = .decode fault

section
variable (pb : Protobuf) (target : Target)

namespace AgentOp

def program : AgentOp → AfiM Unit
  | .p4InfoResource res =>
    modify fun agent => { agent with p4Info := (agent.p4Info.insert2IdMap res).insert2NameMap res }
  | .handlePipelineConfig cfgRoot => (fun _ => ()) <$> Afi.handlePipelineConfig pb target cfgRoot
  | .addAfiTree aftTreeName keyField protocol defaultNextObject treeSize =>
    (fun _ => ()) <$>
      Afi.addAfiTree pb target aftTreeName keyField protocol defaultNextObject treeSize
  | .addEntry keystr pLen => (fun _ => ()) <$> Afi.addEntry pb target keystr pLen
  | .afiAddObjEntry tId aId mfs aes =>
    (fun _ => ()) <$> Afi.afiAddObjEntry pb target tId aId mfs aes
  | .getAfiObject name => (fun _ => ()) <$> AfiDevice.getAfiObject name
  | .showAfiObjects => (fun _ => ()) <$> CLIService.showAfiObjects

/-- Every name that the operation looks up in the map is bound at that time. -/
def Bound (s : Agent) : AgentOp → Prop
  | .p4InfoResource _ => True
  | .handlePipelineConfig cfgRoot =>
    ∀ loaded, load pb target s.contents cfgRoot = some loaded → AllBound target loaded
  | .addAfiTree aftTreeName keyField protocol defaultNextObject treeSize =>
    HandleAllBound pb target s.contents
      [some (afiTreeJsonObject pb aftTreeName keyField protocol defaultNextObject treeSize)]
  | .addEntry keystr pLen =>
    HandleAllBound pb target s.contents [some (afiTreeEntryJsonObject pb keystr pLen)]
  | .afiAddObjEntry tId aId mfs aes =>
    TableBound s tId aId ∧ ∀ eObjs, childrenOf pb s tId aId mfs aes = some eObjs →
      HandleAllBound pb target s.contents (eObjs.map some)
  | .getAfiObject name => s.contents name ≠ none
  | .showAfiObjects => True

end AgentOp

/-- An exception of jsoncpp ends the request, any other fault the agent. -/
def Process.step (r : Process) (op : AgentOp) : Option Process :=
  match r.crashed with
  | some _ => none
  | none =>
    match op.program pb target r.agent with
    | .ok _ agent => some { agent := agent }
    | .error .json agent => some { agent := agent }
    | .error fault agent => some { agent := agent, crashed := some fault }

theorem Process.step_ok {op : AgentOp} {s t : Agent}
    (returned : op.program pb target s = .ok () t) :
    Process.step pb target { agent := s } op = some { agent := t } := by
  rw [Process.step]
  simp only [returned]

theorem Process.step_p4InfoResource (s : Agent) (res : P4InfoResource) :
    Process.step pb target { agent := s } (.p4InfoResource res) =
      some { agent := { s with
        p4Info := (s.p4Info.insert2IdMap res).insert2NameMap res } } := rfl

theorem Process.step_getAfiObject {s : Agent} {name : Str} {obj : AfiObject}
    (found : s.lookup name = some obj) :
    Process.step pb target { agent := s } (.getAfiObject name) = some { agent := s } := by
  refine Process.step_ok pb target (map_eq_ok.mpr ⟨some obj, ?_, rfl⟩)
  rw [getAfiObject_run, found, touch_of_lookup found]

theorem handleAfiJsonObject_noNulls {res : AfiJsonResource} {s : Agent}
    (noNulls : NoNulls s.objectsMap) (bound : HandleAllBound pb target s.contents [some res]) :
    Ends (handleAfiJsonObject pb target (some res) false) s (fun _ t => NoNulls t.objectsMap)
      (fun e t => NoNulls t.objectsMap ∧ e.OfInput) := by
  refine (handleAfiJsonObject_ends pb target res false s).mono (fun r t post => ?_) ?_
  · rcases post with ⟨_, _, rfl⟩ | ⟨value, created, _, stored, kept⟩
    · exact noNulls
    · refine kept noNulls fun _ => ?_
      rw [stored.contents]
      exact (bound value created).1
  · rintro e t ⟨rfl, fault, _, rfl⟩
    exact ⟨noNulls, Or.inr ⟨fault, rfl⟩⟩

theorem handlePipelineConfig_ends {cfgRoot : List (Option AfiJsonResource)} {s : Agent}
    (noNulls : NoNulls s.objectsMap)
    (bound : ∀ loaded, load pb target s.contents cfgRoot = some loaded → AllBound target loaded) :
    Ends (handlePipelineConfig pb target cfgRoot) s
      (fun r t => NoNulls t.objectsMap ∧ SameInfo s t ∧
        load pb target s.contents cfgRoot = if r then some t.contents else none)
      (fun e t => NoNulls t.objectsMap ∧ e.OfInput ∧
        load pb target s.contents cfgRoot = none) := by
  apply ends_bind
  refine (handleAfiJsonObjects_ends pb target true cfgRoot s noNulls nofun).mono
    (fun r t post => ?_) fun _ _ failed => failed
  obtain ⟨noNulls', info, loaded⟩ := post
  cases r with
  | false => exact ends_pure ⟨noNulls', info, loaded⟩
  | true =>
      have bindable : Bindable target t := ⟨noNulls', bound _ loaded⟩
      refine ends_bind ((bindAfiObjects_ends target t).mono (fun _ u post => ends_pure ?_)
        fun e u failed => (failed.2 bindable).elim)
      obtain ⟨same, unchanged⟩ := post
      rw [unchanged bindable, same.contents]
      exact ⟨noNulls', info.trans same.toSameInfo, loaded⟩

/-- A configuration that loads and whose objects find what they look up is accepted. -/
theorem handlePipelineConfig_returns {cfgRoot : List (Option AfiJsonResource)} {s : Agent}
    {loaded : Contents} (noNulls : NoNulls s.objectsMap)
    (loads : load pb target s.contents cfgRoot = some loaded) (bound : AllBound target loaded) :
    ∃ t, handlePipelineConfig pb target cfgRoot s = .ok true t ∧ NoNulls t.objectsMap ∧
      SameInfo s t ∧ t.contents = loaded := by
  have ends := handlePipelineConfig_ends pb target noNulls fun contents same =>
    Option.some.inj (loads.symm.trans same) ▸ bound
  obtain ⟨r, t, returned, noNulls', info, same⟩ := (ends.mono (fun _ _ post => post)
    fun _ _ failed => (nomatch loads.symm.trans failed.2.2 : False)).returns
  rw [loads] at same
  cases r with
  | true => exact ⟨t, returned, noNulls', info, (Option.some.inj same).symm⟩
  | false => cases same

theorem afiAddObjEntry_noNulls {tId aId : UInt32} {mfs : List AfiTEntryMatchField}
    {aes : List AfiAEntry} {s : Agent} (noNulls : NoNulls s.objectsMap)
    (tableBound : TableBound s tId aId)
    (bound : ∀ eObjs, childrenOf pb s tId aId mfs aes = some eObjs →
      HandleAllBound pb target s.contents (eObjs.map some)) :
    Ends (afiAddObjEntry pb target tId aId mfs aes) s (fun _ t => NoNulls t.objectsMap)
      (fun e t => NoNulls t.objectsMap ∧ e.OfInput) := by
  refine afiAddObjEntry_ends pb target (fun t _ _ unchanged => ?_) fun eObjs t children same => ?_
  · rw [unchanged tableBound]
    exact noNulls
  · refine (handleAfiJsonObjects_ends pb target false (eObjs.map some) t ?_ fun _ => ?_).mono
      (fun _ _ post => post.1) fun _ _ failed => ⟨failed.1, failed.2.1⟩
    · rw [same.objectsMap]
      exact noNulls
    · rw [same.contents]
      exact bound eObjs children

/-- An operation all of whose lookups find something leaves no null pointer behind. -/
theorem AgentOp.program_noNulls (op : AgentOp) {s : Agent} (noNulls : NoNulls s.objectsMap)
    (bound : op.Bound pb target s) :
    Ends (op.program pb target) s (fun _ t => NoNulls t.objectsMap)
      (fun e t => NoNulls t.objectsMap ∧ e.OfInput) := by
  cases op with
  | p4InfoResource res => exact ends_modify noNulls
  | handlePipelineConfig cfgRoot =>
      exact ends_map ((handlePipelineConfig_ends pb target noNulls bound).mono
        (fun _ _ post => post.1) fun _ _ failed => ⟨failed.1, failed.2.1⟩)
  | addAfiTree => exact ends_map (handleAfiJsonObject_noNulls pb target noNulls bound)
  | addEntry => exact ends_map (handleAfiJsonObject_noNulls pb target noNulls bound)
  | afiAddObjEntry tId aId mfs aes =>
      exact ends_map (afiAddObjEntry_noNulls pb target noNulls bound.1 bound.2)
  | getAfiObject name =>
      apply ends_map
      rw [Ends, getAfiObject_run]
      obtain ⟨obj, found⟩ := Option.ne_none_iff_exists'.mp fun absent : s.lookup name = none =>
        bound (by rw [Agent.contents, absent]; rfl)
      rw [touch_of_lookup found]
      exact noNulls
  | showAfiObjects =>
      refine ends_map ((CLIService.showAfiObjects_ends s).mono ?_ ?_)
      · rintro _ t rfl
        exact noNulls
      · rintro e t ⟨_, _, null⟩
        exact (null noNulls).elim

/-- A lookup, if the operation is one, leaves the store as it was. -/
def LookupKeeps (r : Process) (op : AgentOp) : Prop :=
  ∀ name, op = .getAfiObject name → ∀ r', r.step pb target op = some r' →
    r'.agent.objectsMap = r.agent.objectsMap

theorem Process.step_sound (r : Process) {r' : Process} {op : AgentOp} (sound : r.Sound)
    (bound : op.Bound pb target r.agent) (taken : r.step pb target op = some r') : r'.Sound := by
  have ends := op.program_noNulls pb target sound.noNulls bound
  rw [Process.step] at taken
  split at taken
  · cases taken
  · split at taken
    · rename_i agent returned
      cases taken
      exact ⟨ends.of_ok returned, nofun⟩
    · rename_i agent failed
      cases taken
      exact ⟨(ends.of_error failed).1, nofun⟩
    · rename_i fault agent notJson failed
      cases taken
      refine ⟨(ends.of_error failed).1, ?_⟩
      rintro e ⟨⟩
      exact (ends.of_error failed).2.resolve_left notJson

end

namespace Spine

/- The VRF classifier of the spine pipeline, with three of its match fields. -/

def vrfTable : P4InfoTable where
  id := 33554443
  name := str "ingress.vrf.vrf_classifier_table"
  matchFields := [⟨1, str "hdr.ethernet.ether_type", 16⟩, ⟨2, str "hdr.ethernet.src_addr", 48⟩,
    ⟨4, str "hdr.ipv4_base.dst_addr", 32⟩]

def setVrf : P4InfoAction where
  id := 16777232
  name := str "ingress.vrf.set_vrf"
  params := [⟨1, str "vrf_id"⟩]

def actionName : Str := vrfTable.name ++ str "_action"
def matchName : Str := vrfTable.name ++ str "_match"

def cap : AfiCap where
  groupId := some 5
  groupPriority := some 5
  matchObject := some matchName
  actionObject := some actionName

def capMatch : AfiCapMatch where
  ethertype := some true
  sourceMacAddress := some true
  destinationIpv4Address := some true

def cfgRoot : List (Option AfiJsonResource) :=
  [some (childJsonRes AfiWire.protobuf (str "afi-cap-action") 0 actionName .capAction
      { vrf := some true }),
    some (childJsonRes AfiWire.protobuf (str "afi-cap") 1 vrfTable.name .cap cap),
    some (childJsonRes AfiWire.protobuf (str "afi-cap-match") 2 matchName .capMatch capMatch)]

/-- What the agent receives before the first entry. -/
def ops : List AgentOp :=
  [.p4InfoResource (.action setVrf), .p4InfoResource (.table vrfTable),
    .handlePipelineConfig cfgRoot]

def stored (c : AfiClass) (message : c.Message) : (c : AfiClass) × c.Message :=
  ⟨c, AfiWire.protobuf.parse c (AfiWire.protobuf.serialize c message)⟩

def loaded : Contents :=
  Function.update (Function.update (Function.update (fun _ => none)
    actionName (some (stored .capAction { vrf := some true })))
    vrfTable.name (some (stored .cap cap)))
    matchName (some (stored .capMatch capMatch))

theorem creation_childJsonRes_brcm {c : AfiClass} {message : c.Message} {type : Str} (id : Nat)
    (name : Str) (short : (AfiWire.protobuf.serialize c message).length < 5000)
    (creator : Brcm.target.creators type = some c) :
    creation AfiWire.protobuf Brcm.target (childJsonRes AfiWire.protobuf type id name c message) =
      .ok (some (stored c message)) :=
  creation_childJsonRes AfiWire.protobuf short Brcm.target id name creator

/-- The objects of the configuration. -/
def objects : List AfiJsonResource := cfgRoot.reduceOption

theorem objects_creation :
    objects.map (creation AfiWire.protobuf Brcm.target) =
      [.ok (some (stored .capAction { vrf := some true })), .ok (some (stored .cap cap)),
        .ok (some (stored .capMatch capMatch))] := by
  change [creation _ _ (childJsonRes _ _ _ _ _ _), creation _ _ (childJsonRes _ _ _ _ _ _),
    creation _ _ (childJsonRes _ _ _ _ _ _)] = _
  rw [creation_childJsonRes_brcm _ _ (by decide +kernel) rfl,
    creation_childJsonRes_brcm _ _ (by decide +kernel) rfl,
    creation_childJsonRes_brcm _ _ (by decide +kernel) rfl]

theorem load_cfgRoot : load AfiWire.protobuf Brcm.target (fun _ => none) cfgRoot = some loaded := by
  have made := objects_creation
  simp only [objects, cfgRoot, List.reduceOption_cons_of_some, List.reduceOption_nil, List.map_cons,
    List.map_nil, List.cons.injEq, and_true] at made
  obtain ⟨madeAction, madeCap, madeMatch⟩ := made
  rw [cfgRoot, load_created _ _ madeAction, load_created _ _ madeCap, load_created _ _ madeMatch]
  rfl

theorem cap_refs : Brcm.target.refs .cap (stored .cap cap).2 =
    [(matchName, .capMatch), (actionName, .capAction)] := by
  decide +kernel

theorem allBound_loaded : AllBound Brcm.target loaded := by
  have notAction : matchName ≠ actionName := by decide
  have notTable : actionName ≠ vrfTable.name := by decide
  intro name value bound
  simp only [loaded, Function.update_apply] at bound
  split at bound
  · cases bound
    exact trivial
  · split at bound
    · cases bound
      change LookupsBound loaded (Brcm.target.refs .cap (stored .cap cap).2)
      rw [cap_refs]
      simp [LookupsBound, loaded, notAction.symm, notTable]
    · split at bound
      · cases bound
        exact trivial
      · cases bound

/-- The P4Info of the request. -/
def p4Info : P4Info :=
  (((({} : P4Info).insert2IdMap (.action setVrf)).insert2NameMap (.action setVrf)).insert2IdMap
    (.table vrfTable)).insert2NameMap (.table vrfTable)

theorem p4Info_table : p4Info.table? vrfTable.id = some vrfTable := by
  rw [P4Info.table?, p4Info, P4Info.p4InfoResource_insert2NameMap,
    P4Info.p4InfoResource_insert2IdMap]
  rfl

theorem p4Info_action : p4Info.action? setVrf.id = some setVrf := by
  rw [P4Info.action?, p4Info, P4Info.p4InfoResource_insert2NameMap,
    P4Info.p4InfoResource_insert2IdMap, if_neg (by decide), P4Info.p4InfoResource_insert2NameMap,
    P4Info.p4InfoResource_insert2IdMap]
  rfl

theorem loaded_vrfTable : loaded vrfTable.name = some (stored .cap cap) := by
  have other : vrfTable.name ≠ matchName := by decide
  rw [loaded, Function.update_of_ne other, Function.update_self]

/-- The agent knows the table and the action, and the table has its object. -/
structure Ready (s : Agent) (afiPObj : AfiObject) : Prop where
  hasTable : s.p4Info.table? vrfTable.id = some vrfTable
  hasAction : s.p4Info.action? setVrf.id = some setVrf
  hasParent : s.lookup vrfTable.name = some afiPObj
  cap : afiPObj.cls = .cap

/-- The store after `ops`. -/
theorem ops_loaded : ∃ s,
    run (Process.step AfiWire.protobuf Brcm.target) {} ops = some { agent := s } ∧
      NoNulls s.objectsMap ∧ s.contents = loaded ∧ SameInfo { p4Info := p4Info } s := by
  let start : Agent := { p4Info := p4Info }
  have loads : load AfiWire.protobuf Brcm.target start.contents cfgRoot = some loaded :=
    load_cfgRoot
  obtain ⟨t, returned, noNulls, info, contents⟩ := handlePipelineConfig_returns _ _ noNulls_empty
    loads allBound_loaded
  have last : Process.step AfiWire.protobuf Brcm.target { agent := start }
      (.handlePipelineConfig cfgRoot) = some { agent := t } :=
    Process.step_ok _ _ (map_eq_ok.mpr ⟨true, returned, rfl⟩)
  have ran : run (Process.step AfiWire.protobuf Brcm.target) {} ops = some { agent := t } := by
    rw [ops, run, Process.step_p4InfoResource, Option.bind_some, run,
      Process.step_p4InfoResource, Option.bind_some, run]
    change Option.bind (Process.step AfiWire.protobuf Brcm.target { agent := start } _) _ = _
    rw [last]
    rfl
  exact ⟨t, ran, noNulls, contents, info⟩

/-- The agent is ready for entries of the table once it has received `ops`. -/
theorem ops_ready : ∃ s afiPObj,
    run (Process.step AfiWire.protobuf Brcm.target) {} ops = some { agent := s } ∧
      Ready s afiPObj := by
  obtain ⟨s, ran, _, contents, info⟩ := ops_loaded
  have bound := (congrFun contents vrfTable.name).trans loaded_vrfTable
  obtain ⟨afiPObj, hasParent, value⟩ := Option.map_eq_some_iff.mp bound
  exact ⟨s, afiPObj, ran, (info.table _).trans p4Info_table, (info.action _).trans p4Info_action,
    hasParent, congrArg Sigma.fst value⟩

/-- The match fields of an entry for IPv4 packets from `mac` to `dst`. -/
def mfs (mac dst : Str) : List AfiTEntryMatchField :=
  [⟨1, .ternary, ⟨[8, 0], fun _ => 0⟩, 0, ⟨List.replicate 2 0xff, fun _ => 0⟩⟩,
    ⟨2, .ternary, ⟨mac, fun _ => 0⟩, 0, ⟨List.replicate 6 0xff, fun _ => 0⟩⟩,
    ⟨4, .ternary, ⟨dst, fun _ => 0⟩, 0, ⟨List.replicate 4 0xff, fun _ => 0⟩⟩]

def aes : List AfiAEntry := [⟨1, ⟨[0, 0, 0, 5], fun _ => 0⟩⟩]

/-- Source and destination of two entries. -/
def first : Str × Str := ([0x22, 0xa1, 0xa2, 0xa3, 0xa4, 0xa5], [0x0b, 0x0b, 0x0b, 0x01])
def second : Str × Str := ([0x24, 0xa1, 0xa2, 0xa3, 0xa4, 0xa5], [0x0c, 0x0c, 0x0c, 0x01])

def entryMatch (mac dst : Str) : AfiCapEntryMatch :=
  (AfiCap.matchObj vrfTable {} (mfs mac dst)).getD {}

def entryAction : AfiCapEntryAction := (AfiCap.actionObj setVrf {} aes).getD {}

def children (mac dst : Str) : List AfiJsonResource :=
  [childJsonRes AfiWire.protobuf (str "afi-cap-entry-match") (AfiCap.id + 1)
      (AfiCap.matchName vrfTable.name) .capEntryMatch (entryMatch mac dst),
    childJsonRes AfiWire.protobuf (str "afi-cap-entry-action") (AfiCap.id + 2)
      (AfiCap.actionName vrfTable.name) .capEntryAction entryAction,
    childJsonRes AfiWire.protobuf (str "afi-cap-entry") AfiCap.id
      (AfiCap.entryName vrfTable.name) .capEntry (AfiCap.capEntryObj vrfTable.name)]

theorem childObjs_cap (mac dst : Str) :
    AfiCap.childObjs AfiWire.protobuf vrfTable setVrf (mfs mac dst) aes =
      (true, children mac dst) := rfl

theorem childrenOf_entry {s : Agent} {afiPObj : AfiObject} (ready : Ready s afiPObj)
    (mac dst : Str) :
    childrenOf AfiWire.protobuf s vrfTable.id setVrf.id (mfs mac dst) aes =
      some (children mac dst) := by
  rcases afiPObj with ⟨addr, res, cls, message⟩
  cases ready.cap
  exact childrenOf_eq _ ready.hasTable ready.hasAction ready.hasParent (childObjs_cap mac dst)

/-- The messages of the children fit into the buffers of the constructors. -/
theorem children_short {entry : Str × Str} (member : entry ∈ [first, second]) :
    (AfiWire.protobuf.serialize .capEntryMatch (entryMatch entry.1 entry.2)).length < 5000 ∧
      (AfiWire.protobuf.serialize .capEntryAction entryAction).length < 5000 ∧
      (AfiWire.protobuf.serialize .capEntry (AfiCap.capEntryObj vrfTable.name)).length < 5000 := by
  have short : ∀ entry ∈ [first, second],
      (AfiWire.protobuf.serialize .capEntryMatch (entryMatch entry.1 entry.2)).length < 5000 := by
    decide
  exact ⟨short entry member, by decide +kernel, by decide +kernel⟩

theorem children_creation {entry : Str × Str} (member : entry ∈ [first, second]) :
    (children entry.1 entry.2).map (creation AfiWire.protobuf Brcm.target) =
      [.ok (some (stored .capEntryMatch (entryMatch entry.1 entry.2))),
        .ok (some (stored .capEntryAction entryAction)),
        .ok (some (stored .capEntry (AfiCap.capEntryObj vrfTable.name)))] := by
  obtain ⟨shortMatch, shortAction, shortEntry⟩ := children_short member
  rw [children, List.map_cons, List.map_cons, List.map_cons, List.map_nil,
    creation_childJsonRes_brcm _ _ shortMatch (by decide),
    creation_childJsonRes_brcm _ _ shortAction (by decide +kernel),
    creation_childJsonRes_brcm _ _ shortEntry (by decide +kernel)]

theorem children_created {entry : Str × Str} (member : entry ∈ [first, second]) :
    ∀ res ∈ children entry.1 entry.2,
      ∃ value, creation AfiWire.protobuf Brcm.target res = .ok (some value) := by
  intro res listed
  have made := List.mem_map_of_mem (f := creation AfiWire.protobuf Brcm.target) listed
  rw [children_creation member] at made
  simp only [List.mem_cons, List.not_mem_nil, or_false] at made
  rcases made with made | made | made
  · exact ⟨_, made⟩
  · exact ⟨_, made⟩
  · exact ⟨_, made⟩

theorem capEntry_refs :
    Brcm.target.refs .capEntry (stored .capEntry (AfiCap.capEntryObj vrfTable.name)).2 =
      [(vrfTable.name, .cap), (AfiCap.matchName vrfTable.name, .capEntryMatch),
        (AfiCap.actionName vrfTable.name, .capEntryAction)] := by
  decide +kernel

/-- The three objects of an entry are bound one after another to the table and to each
other. -/
theorem children_bound {contents : Contents} {parent : (c : AfiClass) × c.Message}
    (hasParent : contents vrfTable.name = some parent) {entry : Str × Str}
    (member : entry ∈ [first, second]) :
    HandleAllBound AfiWire.protobuf Brcm.target contents
      ((children entry.1 entry.2).map some) := by
  have names : [vrfTable.name, AfiCap.matchName vrfTable.name, AfiCap.actionName vrfTable.name,
      AfiCap.entryName vrfTable.name].Nodup := by
    decide
  have created := children_creation member
  simp only [children, List.map_cons, List.map_nil, List.cons.injEq, and_true] at created
  obtain ⟨first, second, third⟩ := created
  refine handleAllBound_created _ _ first trivial
    (handleAllBound_created _ _ second trivial (handleAllBound_created _ _ third ?_ trivial))
  change LookupsBound _ (Brcm.target.refs .capEntry
    (stored .capEntry (AfiCap.capEntryObj vrfTable.name)).2)
  rw [capEntry_refs]
  simp only [List.nodup_cons, List.mem_cons, not_or] at names
  obtain ⟨⟨table_match, table_action, table_entry, _⟩, ⟨match_action, match_entry, _⟩,
    ⟨action_entry, _⟩, _⟩ := names
  simp only [LookupsBound, childJsonRes, Function.update_apply, table_entry, table_action,
    table_match, match_entry, match_action, action_entry, hasParent, if_false, if_true]
  exact fun _ _ _ => trivial

theorem ops_bound :
    EveryStep (Process.step AfiWire.protobuf Brcm.target)
      (fun r op => op.Bound AfiWire.protobuf Brcm.target r.agent) {} ops := by
  refine ⟨trivial, fun r₁ taken => ⟨trivial, fun r₂ taken' => ⟨?_, fun _ _ => trivial⟩⟩⟩
  rw [Process.step_p4InfoResource] at taken
  obtain rfl := Option.some.inj taken
  rw [Process.step_p4InfoResource] at taken'
  obtain rfl := Option.some.inj taken'
  intro contents loads
  obtain rfl := Option.some.inj (load_cfgRoot.symm.trans loads)
  exact allBound_loaded

end Spine

section
variable (pb : Protobuf) (target : Target)

theorem Process.lookup_keeps (r : Process) {op : AgentOp} (bound : op.Bound pb target r.agent) :
    LookupKeeps pb target r op := by
  rintro name rfl r' taken
  obtain ⟨obj, found⟩ := Option.ne_none_iff_exists'.mp fun absent : r.agent.lookup name = none =>
    bound (by rw [Agent.contents, absent]; rfl)
  rw [Process.step] at taken
  split at taken
  · cases taken
  · cases taken
    exact congrArg Agent.objectsMap (touch_of_lookup found)

/-- As long as every name that is looked up is bound, the map holds no null pointer, no
null pointer is dereferenced, and lookups leave the store as it was. -/
theorem no_null_pointers (ops : List AgentOp)
    (bound : EveryStep (Process.step pb target) (fun r op => op.Bound pb target r.agent) {} ops) :
    EveryState (Process.step pb target) Process.Sound {} ops ∧
      EveryStep (Process.step pb target) (LookupKeeps pb target) {} ops := by
  have start : Process.Sound {} := ⟨noNulls_empty, nofun⟩
  exact ⟨everyState_of_everyStep
      (fun r op r' sound meets taken => r.step_sound pb target sound meets taken) start bound,
    bound.mono fun r op meets => r.lookup_keeps pb target meets⟩

end

/-- A pipeline configuration, a lookup, an insert and `show-afi-objects`. -/
theorem no_null_pointers_spine :
    let ops := Spine.ops ++ [.getAfiObject Spine.vrfTable.name,
      .afiAddObjEntry Spine.vrfTable.id Spine.setVrf.id
        (Spine.mfs Spine.first.1 Spine.first.2) Spine.aes,
      .showAfiObjects]
    EveryState (Process.step AfiWire.protobuf Brcm.target) Process.Sound {} ops ∧
      EveryStep (Process.step AfiWire.protobuf Brcm.target)
        (LookupKeeps AfiWire.protobuf Brcm.target) {} ops := by
  apply no_null_pointers
  obtain ⟨s, afiPObj, ran, ready⟩ := Spine.ops_ready
  have hasParent : s.contents Spine.vrfTable.name = some afiPObj.value := by
    rw [Agent.contents, ready.hasParent]
    rfl
  have bound : AgentOp.Bound AfiWire.protobuf Brcm.target s
      (.getAfiObject Spine.vrfTable.name) := by
    rw [AgentOp.Bound, hasParent]
    exact Option.some_ne_none _
  refine everyStep_append ran Spine.ops_bound ⟨bound, fun r looked => ⟨?_, fun _ _ =>
    ⟨trivial, fun _ _ => trivial⟩⟩⟩
  rw [Process.step_getAfiObject _ _ ready.hasParent] at looked
  obtain rfl := Option.some.inj looked
  refine ⟨fun table action isTable _ => ?_, fun eObjs children => ?_⟩
  · obtain rfl := Option.some.inj (ready.hasTable.symm.trans isTable)
    exact bound
  · have same := Spine.childrenOf_entry ready Spine.first.1 Spine.first.2
    obtain rfl := Option.some.inj (same.symm.trans children)
    exact Spine.children_bound hasParent List.mem_cons_self

/-- An insert into a table that has no object leaves a null pointer under its name, which
the CLI and the next pipeline configuration dereference. -/
theorem null_pointer_dereferenced :
    ∃ r : Process,
      run (Process.step AfiWire.protobuf Brcm.target) {}
        [.p4InfoResource (.action Spine.setVrf), .p4InfoResource (.table Spine.vrfTable),
          .afiAddObjEntry Spine.vrfTable.id Spine.setVrf.id [] []] = some r ∧
      ¬ NoNulls r.agent.objectsMap ∧
      ∀ op ∈ [AgentOp.showAfiObjects, .handlePipelineConfig []], ∃ r',
        r.step AfiWire.protobuf Brcm.target op = some r' ∧ r'.crashed = some .nullDeref := by
  let missed : List AgentOp := [.p4InfoResource (.action Spine.setVrf),
    .p4InfoResource (.table Spine.vrfTable),
    .afiAddObjEntry Spine.vrfTable.id Spine.setVrf.id [] []]
  let ran := run (Process.step AfiWire.protobuf Brcm.target) {} missed
  have bound : (ran.map fun r => (r.agent.objectsMap[Spine.vrfTable.name]?).map Option.isNone) =
      some (some true) := by
    decide
  obtain ⟨r, reached, null⟩ := Option.map_eq_some_iff.mp bound
  refine ⟨r, reached, fun noNulls => ?_, fun op member => ?_⟩
  · obtain ⟨obj, found, isNull⟩ := Option.map_eq_some_iff.mp null
    rw [Option.isNone_iff_eq_none.mp isNull] at found
    exact noNulls _ found
  · have crash : ∀ op ∈ [AgentOp.showAfiObjects, .handlePipelineConfig []],
        (ran.bind fun r => (r.step AfiWire.protobuf Brcm.target op).map Process.crashed) =
          some (some .nullDeref) := by
      decide
    have crashed := crash op member
    rw [reached, Option.bind_some] at crashed
    exact Option.map_eq_some_iff.mp crashed

end JP4Agent
