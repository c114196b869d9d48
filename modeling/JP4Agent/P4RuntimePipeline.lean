import JP4Agent.AfiPipeline
import JP4Agent.Library.PtrMapAssign
import JP4Agent.P4RuntimeService

set_option autoImplicit false

namespace JP4Agent
open PtrMap

namespace P4

structure ForwardingPipelineConfig where
  actions : List P4InfoAction
  tables : List P4InfoTable
  p4DeviceConfig : Str

/-- What is inserted into the maps of `P4Info`, in this order. -/
def ForwardingPipelineConfig.resources (config : ForwardingPipelineConfig) :
    List P4InfoResource :=
  config.actions.map .action ++ config.tables.map .table

end P4

/-- The maps after all of these were inserted. -/
def P4Info.insertAll (info : P4Info) (resources : List P4InfoResource) : P4Info where
  nameMap := info.nameMap.assignAll (resources.map fun res => (res.name, res))
  idMap := info.idMap.assignAll (resources.map fun res => (res.id, res))

theorem P4Info.p4InfoResource_insertAll (info : P4Info) (resources : List P4InfoResource)
    (id : UInt32) :
    (info.insertAll resources).p4InfoResource id =
      (lastOf id (resources.map fun res => (res.id, res))).or (info.p4InfoResource id) :=
  deref_assignAll ..

/-- The tables and actions of the request are known from then on. -/
def Agent.withResources (s : Agent) (config : P4.ForwardingPipelineConfig) : Agent :=
  { s with p4Info := s.p4Info.insertAll config.resources }

namespace P4RuntimeServiceImpl
open Afi P4

/-- The protobuf library and jsoncpp, as the service uses them. -/
structure Parsers where
  /-- What `ParseFromString` returned, and the device data of the message it left. -/
  p4DeviceConfig : Str → Bool × Str
  /-- The elements of the parsed array, as the AFI layer converts them; `none` if
  `operator>>` throws. -/
  json : Str → Option (List (Option AfiJsonResource))

/-- The two `insert2` calls. -/
def insertResource (res : P4InfoResource) : AfiM Unit :=
  modify fun agent =>
    { agent with p4Info := (agent.p4Info.insert2IdMap res).insert2NameMap res }

/-- The loops over the actions and over the tables. -/
def insertResources : List P4InfoResource → AfiM Unit
  | [] => pure ()
  | res :: rest => do
    insertResource res
    insertResources rest

section
variable (parsers : Parsers) (pb : Protobuf) (target : Target)

def setForwardingPipelineConfig (config : ForwardingPipelineConfig) : AfiM Status := do
  insertResources (config.actions.map .action)
  insertResources (config.tables.map .table)
  -- the result of `ParseFromString` is only logged
  let deviceData := (parsers.p4DeviceConfig config.p4DeviceConfig).2
  match parsers.json deviceData with
  | none => throw .json
  | some cfgRoot => do
    let _ ← handlePipelineConfig pb target cfgRoot
    pure .OK

theorem insertResources_run (resources : List P4InfoResource) : ∀ s : Agent,
    insertResources resources s =
      .ok () { s with p4Info := s.p4Info.insertAll resources } := by
  induction resources with
  | nil => exact fun _ => rfl
  | cons res rest ih => exact fun s => ih _

theorem insertResources_config (config : ForwardingPipelineConfig) (s : Agent) :
    (do insertResources (config.actions.map .action)
        insertResources (config.tables.map .table) : AfiM Unit) s =
      .ok () (s.withResources config) := by
  apply bind_eq_ok.mpr
  refine ⟨(), _, insertResources_run _ s, ?_⟩
  rw [insertResources_run]
  unfold Agent.withResources P4.ForwardingPipelineConfig.resources P4Info.insertAll
  simp only [List.map_append, assignAll_append]

/-- The request inserts its resources, and then all depends on the AFI objects. -/
theorem setForwardingPipelineConfig_run (config : ForwardingPipelineConfig) (s : Agent) :
    setForwardingPipelineConfig parsers pb target config s =
      match parsers.json (parsers.p4DeviceConfig config.p4DeviceConfig).2 with
      | none => .error .json (s.withResources config)
      | some cfgRoot =>
        match handlePipelineConfig pb target cfgRoot (s.withResources config) with
        | .ok _ t => .ok .OK t
        | .error fault t => .error fault t := by
  have inserted := insertResources_config config s
  obtain ⟨_, s', first, second⟩ := bind_eq_ok.mp inserted
  unfold setForwardingPipelineConfig
  rw [bind_of_ok first, bind_of_ok second]
  generalize parsers.json (parsers.p4DeviceConfig config.p4DeviceConfig).2 = parsed
  cases parsed with
  | none => rfl
  | some cfgRoot =>
      change (do let _ ← handlePipelineConfig pb target cfgRoot; pure .OK : AfiM Status) _ = _
      dsimp only
      cases handled : handlePipelineConfig pb target cfgRoot (s.withResources config) with
      | ok r t =>
          rw [bind_of_ok handled]
          rfl
      | error fault t => rw [bind_of_error handled]

end
end P4RuntimeServiceImpl
end JP4Agent
