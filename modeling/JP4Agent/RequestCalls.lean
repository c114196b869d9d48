import JP4Agent.AfiCapFields
import JP4Agent.AfiStoreRuns
import JP4Agent.P4RuntimePipeline

set_option autoImplicit false

namespace JP4Agent
open Afi P4

section
variable (pb : Protobuf) (target : Target)

/-- The calls of one handler without anything else in between. -/
def runCalls : List AgentOp → AfiM Unit
  | [] => pure ()
  | op :: rest => do
    op.program pb target
    runCalls rest

theorem runCalls_append (calls others : List AgentOp) :
    runCalls pb target (calls ++ others) =
      (do runCalls pb target calls; runCalls pb target others) := by
  induction calls with
  | nil => rfl
  | cons op rest ih => simp only [List.cons_append, runCalls, ih, bind_assoc]

end

namespace P4RuntimeServiceImpl
variable (mem : Memory)

def lpmCalls (tableId : UInt32) (fieldMatches : List FieldMatch) : List AgentOp :=
  fieldMatches.filterMap fun mf =>
    match mf.type with
    | .lpm value prefixLen =>
      if tableId = addEntryTable then some (.addEntry value prefixLen) else none
    | _ => none

def tableInsertCalls (entry : TableEntry) : List AgentOp :=
  if entry.isDefaultAction then []
  else
    let (actionId, afiActions) := convertAction mem entry.action
    lpmCalls entry.tableId entry.fieldMatches ++
      [.afiAddObjEntry entry.tableId actionId
        (passedFields mem entry.tableId 0 entry.fieldMatches) afiActions]

def updateCalls (update : Update) : List AgentOp :=
  match update.entity, update.type with
  | .tableEntry entry, .insert =>
    if entry.hasMeterConfig || entry.hasCounterData then [] else tableInsertCalls mem entry
  | _, _ => []

def writeCalls (updates : List (Update × Memory)) : List AgentOp :=
  updates.flatMap fun p => updateCalls p.2 p.1

/-- If jsoncpp throws, the handler ends without a call of `handlePipelineConfig`. -/
def setForwardingPipelineConfigCalls (parsers : Parsers) (config : ForwardingPipelineConfig) :
    List AgentOp :=
  config.resources.map .p4InfoResource ++
    match parsers.json (parsers.p4DeviceConfig config.p4DeviceConfig).2 with
    | none => []
    | some cfgRoot => [.handlePipelineConfig cfgRoot]

section
variable (pb : Protobuf) (target : Target)

theorem addEntries_calls (tableId : UInt32) (fieldMatches : List FieldMatch) :
    (fun _ => ()) <$> addEntries pb target tableId fieldMatches =
      runCalls pb target (lpmCalls tableId fieldMatches) := by
  induction fieldMatches with
  | nil => rfl
  | cons mf rest ih =>
      unfold lpmCalls at ih ⊢
      rw [addEntries, List.filterMap_cons]
      cases type : mf.type with
      | lpm value prefixLen =>
          dsimp only
          by_cases special : tableId = addEntryTable
          · rw [if_pos special, if_pos special]
            dsimp only
            rw [runCalls, ← ih]
            simp only [AgentOp.program, map_bind, bind_map_left, bind_pure_comp, Functor.map_map]
          · rw [if_neg special, if_neg special]
            exact ih
      | _ => exact ih

/-- An insert is its calls, in this order. -/
theorem tableInsert_calls (entry : TableEntry) :
    (fun _ => ()) <$> tableInsert pb target mem entry =
      runCalls pb target (tableInsertCalls mem entry) := by
  unfold tableInsert tableInsertCalls
  by_cases isDefault : entry.isDefaultAction = true
  · rw [if_pos isDefault, if_pos isDefault]
    rfl
  · rw [if_neg isDefault, if_neg isDefault]
    have last : ∀ afiMFs, runCalls pb target [.afiAddObjEntry entry.tableId
        (convertAction mem entry.action).1 afiMFs (convertAction mem entry.action).2] =
          (fun _ => ()) <$> afiAddObjEntry pb target entry.tableId
            (convertAction mem entry.action).1 afiMFs (convertAction mem entry.action).2 := by
      intro afiMFs
      simp only [runCalls, AgentOp.program, bind_pure_unit]
    dsimp only
    rw [runCalls_append, last, ← addEntries_calls, convertMatch_eq]
    simp only [map_bind, bind_map_left, bind_pure_comp, Functor.map_map]

theorem tableWrite_calls (update : UpdateType) (entry : TableEntry) :
    (fun _ => ()) <$> tableWrite pb target mem update entry =
      runCalls pb target (updateCalls mem ⟨update, .tableEntry entry⟩) := by
  unfold tableWrite
  cases update with
  | insert =>
      unfold updateCalls
      dsimp only
      by_cases direct : (entry.hasMeterConfig || entry.hasCounterData) = true
      · rw [if_pos direct, if_pos direct]
        rfl
      · rw [if_neg direct, if_neg direct]
        exact tableInsert_calls mem pb target entry
  | _ => split <;> rfl

theorem writeUpdate_calls (status : Status) (update : Update) :
    (fun _ => ()) <$> writeUpdate pb target status update mem =
      runCalls pb target (updateCalls mem update) := by
  rcases update with ⟨type, entity⟩
  cases entity with
  | tableEntry entry => exact tableWrite_calls mem pb target type entry
  | _ => rfl

/-- A write is the calls of its updates, one update after another. -/
theorem write_calls (updates : List (Update × Memory)) :
    (fun _ => ()) <$> write pb target updates = runCalls pb target (writeCalls updates) := by
  have all : ∀ status, (fun _ => ()) <$> writeUpdates pb target status updates =
      runCalls pb target (writeCalls updates) := by
    induction updates with
    | nil => exact fun _ => rfl
    | cons head rest ih =>
        intro status
        rcases head with ⟨update, mem⟩
        have first := congrArg (· >>= fun _ => runCalls pb target (writeCalls rest))
          (writeUpdate_calls mem pb target status update)
        simp only [bind_map_left] at first
        unfold writeCalls at ih first ⊢
        rw [List.flatMap_cons, runCalls_append, ← first, writeUpdates]
        simp only [map_bind, bind_pure_comp, Functor.map_map, ih]
  exact all .OK

theorem runCalls_resources (resources : List P4InfoResource) : ∀ s : Agent,
    runCalls pb target (resources.map .p4InfoResource) s =
      .ok () { s with p4Info := s.p4Info.insertAll resources } := by
  induction resources with
  | nil => exact fun _ => rfl
  | cons res rest ih => exact fun s => ih _

variable {parsers : Parsers} {config : ForwardingPipelineConfig}

/-- A pipeline configuration is its calls, if jsoncpp can parse it. -/
theorem setForwardingPipelineConfig_calls {cfgRoot : List (Option AfiJsonResource)}
    (read : parsers.json (parsers.p4DeviceConfig config.p4DeviceConfig).2 = some cfgRoot) :
    (fun _ => ()) <$> setForwardingPipelineConfig parsers pb target config =
      runCalls pb target (setForwardingPipelineConfigCalls parsers config) := by
  funext s
  have inserted := runCalls_resources pb target config.resources s
  change EStateM.map _ (setForwardingPipelineConfig parsers pb target config) s = _
  unfold setForwardingPipelineConfigCalls EStateM.map
  rw [setForwardingPipelineConfig_run, read, runCalls_append, bind_of_ok inserted]
  simp only [runCalls, bind_pure_unit]
  change _ = EStateM.map _ (handlePipelineConfig pb target cfgRoot) (s.withResources config)
  unfold EStateM.map
  cases handlePipelineConfig pb target cfgRoot (s.withResources config) <;> rfl

/-- If it cannot, the request fails after the calls. -/
theorem setForwardingPipelineConfig_calls_failed
    (read : parsers.json (parsers.p4DeviceConfig config.p4DeviceConfig).2 = none) (s : Agent) :
    ∃ t, runCalls pb target (setForwardingPipelineConfigCalls parsers config) s = .ok () t ∧
      setForwardingPipelineConfig parsers pb target config s = .error .json t := by
  refine ⟨s.withResources config, ?_, ?_⟩
  · unfold setForwardingPipelineConfigCalls
    rw [read, List.append_nil]
    exact runCalls_resources pb target config.resources s
  · rw [setForwardingPipelineConfig_run, read]

end
end P4RuntimeServiceImpl

namespace CLIService

def calls (cmdstr : Str) : List AgentOp :=
  match command cmdstr with
  | some (.addTableEntry _ pfx plen) => [.addEntry pfx plen]
  | some (.addTable tblname keyField protocol defNxtObj tblsz) =>
    [.addAfiTree tblname keyField protocol defNxtObj tblsz]
  | some .showAfiObjects => [.showAfiObjects]
  | _ => []

/-- A line of the CLI is its call, if it makes one. -/
theorem sendCmd_calls (pb : Protobuf) (target : Target) (cmdstr : Str) :
    (fun _ => ()) <$> sendCmd pb target cmdstr = runCalls pb target (calls cmdstr) := by
  unfold sendCmd calls
  cases command cmdstr with
  | none => rfl
  | some cmd =>
      cases cmd with
      | invalid => rfl
      | _ => simp only [runCalls, AgentOp.program, bind_pure_comp, Functor.map_map]

end CLIService
end JP4Agent
