import JP4Agent.P4RuntimePipelineReplace
import JP4Agent.RequestCalls

set_option autoImplicit false

namespace JP4Agent
open Afi AfiDevice P4 P4RuntimeServiceImpl

/-- How a handler ends if it does not return. -/
inductive ServerFault where
  | afi (fault : Fault)
  /-- A use of `_afiDevice` while it was null. -/
  | nullDevice

abbrev ServerM := EStateM ServerFault Agent

/-- A function of the AFI layer, called by a handler. -/
def liftAfi {α : Type} (m : AfiM α) : ServerM α := mapFault .afi m

theorem liftAfi_bind {α β : Type} (m : AfiM α) (f : α → AfiM β) :
    liftAfi (m >>= f) = (liftAfi m >>= fun a => liftAfi (f a)) := mapFault_bind ServerFault.afi m f

theorem liftAfi_map {α β : Type} (m : AfiM α) (f : α → β) : liftAfi (f <$> m) = f <$> liftAfi m :=
  mapFault_map ServerFault.afi m f

/- The functions of `Afi`, with `_afiDevice` as they find it. -/
namespace Server

section
variable (pb : Protobuf) (afiDevice : Option Target)

/-- `_afiDevice->` -/
def deref : ServerM Target :=
  match afiDevice with
  | none => throw .nullDevice
  | some target => pure target

def handleAfiJsonObject (cfgObj : Option AfiJsonResource) (pipelineStage : Bool) : ServerM Bool :=
  match cfgObj with
  | none => throw (.afi .json)
  | some res => do
    let target ← deref afiDevice
    match ← liftAfi (handleDMObject pb target res pipelineStage) with
    | none => pure false
    | some _ => pure true

def handleAfiJsonObjects (pipelineStage : Bool) : List (Option AfiJsonResource) → ServerM Bool
  | [] => pure true
  | cfgObj :: rest => do
    if ← handleAfiJsonObject pb afiDevice cfgObj pipelineStage then
      handleAfiJsonObjects pipelineStage rest
    else pure false

def handlePipelineConfig (cfgRoot : List (Option AfiJsonResource)) : ServerM Bool := do
  if ← handleAfiJsonObjects pb afiDevice true cfgRoot then
    let target ← deref afiDevice
    liftAfi (bindAfiObjects target)
    pure true
  else pure false

def getAfiObject (name : Str) : ServerM (Option AfiObject) := do
  let _ ← deref afiDevice
  liftAfi (AfiDevice.getAfiObject name)

def afiAddObjEntry (tId aId : UInt32) (mfs : List AfiTEntryMatchField) (aes : List AfiAEntry) :
    ServerM Bool := do
  match ← liftAfi (p4InfoTable tId) with
  | none => pure false
  | some table =>
    match ← liftAfi (p4InfoAction aId) with
    | none => pure false
    | some _ =>
      match ← getAfiObject afiDevice table.name with
      | none => pure false
      | some afiPObj =>
        let (created, eObjs) ← liftAfi (afiPObj.createChildJsonRes pb tId aId mfs aes)
        if created then handleAfiJsonObjects pb afiDevice false (eObjs.map some) else pure false

def showAfiObjects : ServerM Str := do
  let _ ← deref afiDevice
  liftAfi CLIService.showAfiObjects

def program : AgentOp → ServerM Unit
  | .p4InfoResource res =>
    modify fun agent => { agent with p4Info := (agent.p4Info.insert2IdMap res).insert2NameMap res }
  | .handlePipelineConfig cfgRoot => (fun _ => ()) <$> handlePipelineConfig pb afiDevice cfgRoot
  | .addAfiTree aftTreeName keyField protocol defaultNextObject treeSize =>
    (fun _ => ()) <$> handleAfiJsonObject pb afiDevice
      (some (afiTreeJsonObject pb aftTreeName keyField protocol defaultNextObject treeSize)) false
  | .addEntry keystr pLen =>
    (fun _ => ()) <$> handleAfiJsonObject pb afiDevice
      (some (afiTreeEntryJsonObject pb keystr pLen)) false
  | .afiAddObjEntry tId aId mfs aes => (fun _ => ()) <$> afiAddObjEntry pb afiDevice tId aId mfs aes
  | .getAfiObject name => (fun _ => ()) <$> getAfiObject afiDevice name
  | .showAfiObjects => (fun _ => ()) <$> showAfiObjects afiDevice

end

section
variable (pb : Protobuf) (target : Target)

theorem handleAfiJsonObject_some (cfgObj : Option AfiJsonResource) (pipelineStage : Bool) :
    handleAfiJsonObject pb (some target) cfgObj pipelineStage =
      liftAfi (Afi.handleAfiJsonObject pb target cfgObj pipelineStage) := by
  cases cfgObj with
  | none => rfl
  | some res =>
      change (liftAfi (handleDMObject pb target res pipelineStage) >>= _) = liftAfi (_ >>= _)
      rw [liftAfi_bind]
      congr 1
      funext obj
      cases obj <;> rfl

theorem handleAfiJsonObjects_some (pipelineStage : Bool) (cfg : List (Option AfiJsonResource)) :
    handleAfiJsonObjects pb (some target) pipelineStage cfg =
      liftAfi (Afi.handleAfiJsonObjects pb target pipelineStage cfg) := by
  induction cfg with
  | nil => rfl
  | cons cfgObj rest ih =>
      unfold handleAfiJsonObjects Afi.handleAfiJsonObjects
      rw [handleAfiJsonObject_some, ih]
      rw [liftAfi_bind]
      congr 1
      funext handled
      cases handled <;> rfl

theorem handlePipelineConfig_some (cfgRoot : List (Option AfiJsonResource)) :
    handlePipelineConfig pb (some target) cfgRoot =
      liftAfi (Afi.handlePipelineConfig pb target cfgRoot) := by
  unfold handlePipelineConfig Afi.handlePipelineConfig
  rw [handleAfiJsonObjects_some]
  rw [liftAfi_bind]
  congr 1
  funext handled
  cases handled with
  | false => rfl
  | true =>
      change (liftAfi (bindAfiObjects target) >>= _) = liftAfi (_ >>= _)
      rw [liftAfi_bind]
      rfl

theorem afiAddObjEntry_some (tId aId : UInt32) (mfs : List AfiTEntryMatchField)
    (aes : List AfiAEntry) : afiAddObjEntry pb (some target) tId aId mfs aes =
      liftAfi (Afi.afiAddObjEntry pb target tId aId mfs aes) := by
  unfold afiAddObjEntry Afi.afiAddObjEntry
  rw [liftAfi_bind]
  congr 1
  funext table
  cases table with
  | none => rfl
  | some table =>
      change (liftAfi (p4InfoAction aId) >>= _) = liftAfi (_ >>= _)
      rw [liftAfi_bind]
      congr 1
      funext action
      cases action with
      | none => rfl
      | some action =>
          change (liftAfi (AfiDevice.getAfiObject table.name) >>= _) = liftAfi (_ >>= _)
          rw [liftAfi_bind]
          congr 1
          funext afiPObj
          cases afiPObj with
          | none => rfl
          | some afiPObj =>
              change (liftAfi (afiPObj.createChildJsonRes pb tId aId mfs aes) >>= _) =
                liftAfi (_ >>= _)
              rw [liftAfi_bind]
              congr 1
              funext children
              rcases children with ⟨created, eObjs⟩
              cases created with
              | false => rfl
              | true => exact handleAfiJsonObjects_some pb target false _

/-- Once there is a device a call is the function of the AFI layer. -/
theorem program_some (op : AgentOp) :
    program pb (some target) op = liftAfi (op.program pb target) := by
  cases op with
  | p4InfoResource res => rfl
  | handlePipelineConfig cfgRoot =>
      rw [program, AgentOp.program, liftAfi_map, handlePipelineConfig_some]
  | addAfiTree aftTreeName keyField protocol defaultNextObject treeSize =>
      rw [program, AgentOp.program, liftAfi_map, handleAfiJsonObject_some, addAfiTree]
  | addEntry keystr pLen =>
      rw [program, AgentOp.program, liftAfi_map, handleAfiJsonObject_some, addEntry]
  | afiAddObjEntry tId aId mfs aes =>
      rw [program, AgentOp.program, liftAfi_map, afiAddObjEntry_some]
  | getAfiObject name =>
      rw [program, AgentOp.program, liftAfi_map]
      rfl
  | showAfiObjects =>
      rw [program, AgentOp.program, liftAfi_map]
      rfl

end
end Server

/-- The call gets as far as a use of `_afiDevice`. -/
def AgentOp.ReachesDevice (s : Agent) : AgentOp → Prop
  | .p4InfoResource _ => False
  | .handlePipelineConfig (none :: _) => False
  | .afiAddObjEntry tId aId _ _ => (s.p4Info.table? tId).isSome ∧ (s.p4Info.action? aId).isSome
  | _ => True

namespace Server

theorem afiAddObjEntry_none (pb : Protobuf) (tId aId : UInt32) (mfs : List AfiTEntryMatchField)
    (aes : List AfiAEntry) (s : Agent) :
    (∃ t, afiAddObjEntry pb none tId aId mfs aes s = .error .nullDevice t) ↔
      (s.p4Info.table? tId).isSome ∧ (s.p4Info.action? aId).isSome := by
  have looked : liftAfi (p4InfoTable tId) s =
      .ok (s.p4Info.table? tId) { s with p4Info := s.p4Info.lookedUp tId } := rfl
  unfold afiAddObjEntry
  rw [bind_of_ok looked]
  cases s.p4Info.table? tId with
  | none => exact ⟨fun ⟨_, failed⟩ => (nomatch failed), fun known => nomatch known.1⟩
  | some table =>
      have same := (looked_lookedUp s tId).action aId
      have looked' : liftAfi (p4InfoAction aId) { s with p4Info := s.p4Info.lookedUp tId } =
          .ok (s.p4Info.action? aId)
            { s with p4Info := (s.p4Info.lookedUp tId).lookedUp aId } := by
        rw [← same]
        rfl
      dsimp only
      rw [bind_of_ok looked']
      cases s.p4Info.action? aId with
      | none => exact ⟨fun ⟨_, failed⟩ => (nomatch failed), fun known => nomatch known.2⟩
      | some action => exact ⟨fun _ => ⟨rfl, rfl⟩, fun _ => ⟨_, rfl⟩⟩

/-- Without a device a call fails with it exactly if it gets that far. -/
theorem program_none (pb : Protobuf) (op : AgentOp) (s : Agent) :
    (∃ t, program pb none op s = .error .nullDevice t) ↔ op.ReachesDevice s := by
  cases op with
  | p4InfoResource res => exact ⟨fun ⟨_, failed⟩ => (nomatch failed), False.elim⟩
  | handlePipelineConfig cfgRoot =>
      rcases cfgRoot with _ | ⟨_ | _, _⟩
      · exact ⟨fun _ => trivial, fun _ => ⟨s, rfl⟩⟩
      · exact ⟨fun ⟨_, failed⟩ => (nomatch failed), False.elim⟩
      · exact ⟨fun _ => trivial, fun _ => ⟨s, rfl⟩⟩
  | afiAddObjEntry tId aId mfs aes =>
      change _ ↔ (s.p4Info.table? tId).isSome ∧ (s.p4Info.action? aId).isSome
      rw [← afiAddObjEntry_none pb tId aId mfs aes s, program, map_eq_pure_bind]
      cases ran : afiAddObjEntry pb none tId aId mfs aes s with
      | ok r t =>
          rw [bind_of_ok ran]
          exact ⟨fun ⟨_, failed⟩ => (nomatch failed), fun ⟨_, failed⟩ => (nomatch failed)⟩
      | error e t =>
          rw [bind_of_error ran]
          simp
  | _ => exact ⟨fun _ => trivial, fun _ => ⟨s, rfl⟩⟩

end Server

/-- The steps of `JP4Agent::init` from the start of the first server on. -/
inductive InitStep where
  | startPIServer
  | startPktIOHandler
  | startDbgCLIServer
  | createDevice
  | storeDevice

/-- The requests of the P4Runtime service. -/
inductive P4RuntimeRequest where
  | setForwardingPipelineConfig (config : ForwardingPipelineConfig)
  | write (updates : List (Update × Memory))
  | read
  | getForwardingPipelineConfig
  | streamChannel

def P4RuntimeRequest.calls (parsers : Parsers) : P4RuntimeRequest → List AgentOp
  | .setForwardingPipelineConfig config => setForwardingPipelineConfigCalls parsers config
  | .write updates => writeCalls updates
  | _ => []

/-- The process: what `init` has still to do, which servers run, the device that
`createDevice` returned and the one in `_afiDevice`, and for each handler the calls it has
still to make. -/
structure Server where
  todo : List InitStep :=
    [.startPIServer, .startPktIOHandler, .startDbgCLIServer, .createDevice, .storeDevice]
  piServer : Bool := false
  dbgCLIServer : Bool := false
  created : Option Target := none
  afiDevice : Option Target := none
  agent : Agent := {}
  handlers : List (List AgentOp) := []
  fault : Option ServerFault := none

inductive ServerEvent where
  | init
  | p4Runtime (request : P4RuntimeRequest)
  | sendCmd (cmdstr : Str)
  | call (handler : Nat)

namespace Server
variable (parsers : Parsers) (pb : Protobuf) (target : Target)

/-- The host-path thread makes no use of the device. -/
def initStep (s : Server) : InitStep → Server
  | .startPIServer => { s with piServer := true }
  | .startPktIOHandler => s
  | .startDbgCLIServer => { s with dbgCLIServer := true }
  | .createDevice => { s with created := some target }
  | .storeDevice => { s with afiDevice := s.created }

/-- The next call of a handler. An exception of jsoncpp ends the handler, any other fault
the process. -/
def call (s : Server) (handler : Nat) (op : AgentOp) (rest : List AgentOp) : Server :=
  match program pb s.afiDevice op s.agent with
  | .ok _ agent => { s with agent := agent, handlers := s.handlers.set handler rest }
  | .error (.afi .json) agent => { s with agent := agent, handlers := s.handlers.set handler [] }
  | .error fault agent => { s with agent := agent, fault := some fault }

/-- A server accepts requests from its start on, and the handlers make their calls at any
time after that. -/
def step (s : Server) (event : ServerEvent) : Option Server :=
  match s.fault with
  | some _ => none
  | none =>
    match event with
    | .init =>
      match s.todo with
      | [] => none
      | now :: later => some (initStep target { s with todo := later } now)
    | .p4Runtime request =>
      if s.piServer then some { s with handlers := s.handlers ++ [request.calls parsers] } else none
    | .sendCmd cmdstr =>
      if s.dbgCLIServer then some { s with handlers := s.handlers ++ [CLIService.calls cmdstr] }
      else none
    | .call handler =>
      match s.handlers[handler]? with
      | some (op :: rest) => some (call pb s handler op rest)
      | _ => none

/-- No handler has used `_afiDevice` while it was null. -/
def NoNullDeref (s : Server) : Prop := s.fault ≠ some .nullDevice

/-- A call that is made before the device is stored does not get as far as using it. -/
def NotEarly (s : Server) : ServerEvent → Prop
  | .call handler => s.afiDevice = none → ∀ op rest, s.handlers[handler]? = some (op :: rest) →
      ¬ op.ReachesDevice s.agent
  | _ => True

theorem program_some_ne (op : AgentOp) (s t : Agent) :
    program pb (some target) op s ≠ .error .nullDevice t := by
  rw [program_some]
  unfold liftAfi mapFault
  cases op.program pb target s with
  | ok r u => exact nofun
  | error fault u => exact nofun

theorem call_noNullDeref {s : Server} (running : s.fault = none) (handler : Nat) (op : AgentOp)
    (rest : List AgentOp) : NoNullDeref (call pb s handler op rest) ↔
      (s.afiDevice = none → ¬ op.ReachesDevice s.agent) := by
  have failed : NoNullDeref (call pb s handler op rest) ↔
      ¬ ∃ t, program pb s.afiDevice op s.agent = .error .nullDevice t := by
    unfold NoNullDeref call
    cases program pb s.afiDevice op s.agent with
    | ok r t => simp [running]
    | error fault t =>
        cases fault with
        | nullDevice => simp
        | afi fault => cases fault <;> simp [running]
  rw [failed]
  cases s.afiDevice with
  | none =>
      rw [program_none]
      exact ⟨fun early _ => early, fun early => early rfl⟩
  | some target =>
      refine ⟨fun _ => nofun, fun _ => ?_⟩
      rintro ⟨t, wrong⟩
      exact program_some_ne pb target op s.agent t wrong

variable {parsers pb target}

/-- What an event does. -/
theorem step_cases {s t : Server} {event : ServerEvent}
    (taken : step parsers pb target s event = some t) : s.fault = none ∧
      ((∃ now later, event = .init ∧ t = initStep target { s with todo := later } now) ∨
        (∃ calls, (∀ handler, event ≠ .call handler) ∧
          t = { s with handlers := s.handlers ++ [calls] }) ∨
        ∃ handler op rest, event = .call handler ∧ s.handlers[handler]? = some (op :: rest) ∧
          t = call pb s handler op rest) := by
  unfold step at taken
  cases fault : s.fault with
  | some _ =>
      rw [fault] at taken
      exact nomatch taken
  | none =>
      refine ⟨rfl, ?_⟩
      simp only [fault] at taken
      cases event with
      | init =>
          dsimp only at taken
          split at taken
          · exact nomatch taken
          · rename_i now later _
            exact .inl ⟨now, later, rfl, by rw [← Option.some.inj taken, ← fault]⟩
      | p4Runtime request =>
          obtain ⟨_, asked⟩ := Option.ite_none_right_eq_some.mp taken
          exact .inr (.inl ⟨_, fun _ => nofun, by rw [← Option.some.inj asked, ← fault]⟩)
      | sendCmd cmdstr =>
          obtain ⟨_, asked⟩ := Option.ite_none_right_eq_some.mp taken
          exact .inr (.inl ⟨_, fun _ => nofun, by rw [← Option.some.inj asked, ← fault]⟩)
      | call handler =>
          dsimp only at taken
          split at taken
          · rename_i op rest next
            exact .inr (.inr ⟨handler, op, rest, rfl, next, (Option.some.inj taken).symm⟩)
          · exact nomatch taken

@[simp] theorem initStep_fault (target : Target) (s : Server) (now : InitStep) :
    (initStep target s now).fault = s.fault := by
  cases now <;> rfl

/-- One event leaves no null dereference behind exactly if it is not too early. -/
theorem step_noNullDeref {s t : Server} {event : ServerEvent}
    (taken : step parsers pb target s event = some t) : NoNullDeref t ↔ NotEarly s event := by
  obtain ⟨running, ⟨now, later, rfl, rfl⟩ | ⟨calls, notCall, rfl⟩ |
    ⟨handler, op, rest, rfl, next, rfl⟩⟩ := step_cases taken
  · refine ⟨fun _ => trivial, fun _ => ?_⟩
    simp [NoNullDeref, running]
  · have notEarly : NotEarly s event := by
      cases event with
      | call handler => exact absurd rfl (notCall handler)
      | _ => trivial
    exact ⟨fun _ => notEarly, fun _ => by simp [NoNullDeref, running]⟩
  · rw [call_noNullDeref pb running]
    constructor
    · intro early none op' rest' next'
      obtain ⟨rfl, rfl⟩ := List.cons.inj (Option.some.inj (next.symm.trans next'))
      exact early none
    · exact fun early none => early none op rest next

/-- Along a run no handler uses a null `_afiDevice` exactly if each call that reaches the
device is made after `init` has stored it. -/
theorem noNullDeref_iff_notEarly (parsers : Parsers) (pb : Protobuf) (target : Target)
    (events : List ServerEvent) (s : Server)
    (ran : run (step parsers pb target) {} events = some s) :
    EveryState (step parsers pb target) NoNullDeref {} events ↔
      EveryStep (step parsers pb target) NotEarly {} events := by
  have start : NoNullDeref {} := nofun
  have keeps : ∀ s event t, True → step parsers pb target s event = some t → True :=
    fun _ _ _ _ _ => trivial
  exact everyState_iff_everyStep keeps (fun _ _ _ _ _ taken => step_noNullDeref taken) trivial
    start ran

/-- A controller that connects as soon as it can, with a pipeline without objects. -/
def earlyEvents : List ServerEvent :=
  [.init, .p4Runtime (.setForwardingPipelineConfig emptyConfig), .call 0]

theorem earlyEvents_run : ∃ s,
    run (step (arrayParsers []) AfiWire.protobuf Aft.target) {} earlyEvents = some s ∧
      s.fault = some .nullDevice := by
  have calls : setForwardingPipelineConfigCalls (arrayParsers []) emptyConfig =
      [.handlePipelineConfig []] := by
    have read : (arrayParsers []).json ((arrayParsers []).p4DeviceConfig
        emptyConfig.p4DeviceConfig).2 = some [] := arrayParsers_read []
    rw [setForwardingPipelineConfigCalls, read]
    rfl
  let started : Server :=
    { todo := [.startPktIOHandler, .startDbgCLIServer, .createDevice, .storeDevice]
      piServer := true }
  let asked : Server := { started with handlers := [[.handlePipelineConfig []]] }
  have start : step (arrayParsers []) AfiWire.protobuf Aft.target {} .init = some started := rfl
  have ask : step (arrayParsers []) AfiWire.protobuf Aft.target started
      (.p4Runtime (.setForwardingPipelineConfig emptyConfig)) = some asked := by
    change some { started with handlers :=
      [setForwardingPipelineConfigCalls (arrayParsers []) emptyConfig] } = some asked
    rw [calls]
  have serve : step (arrayParsers []) AfiWire.protobuf Aft.target asked (.call 0) =
      some { asked with fault := some .nullDevice } := rfl
  refine ⟨{ asked with fault := some .nullDevice }, ?_, rfl⟩
  rw [earlyEvents, run, start, Option.bind_some, run, ask, Option.bind_some, run, serve]
  rfl

/-- The request is served before there is a device. -/
theorem early_nullDeref : ∃ s,
    run (step (arrayParsers []) AfiWire.protobuf Aft.target) {} earlyEvents = some s ∧
      ¬ NoNullDeref s := by
  obtain ⟨s, ran, fault⟩ := earlyEvents_run
  exact ⟨s, ran, fun none => none fault⟩

/-- The same run. -/
theorem noNullDeref_iff_notEarly_run :
    let step := step (arrayParsers []) AfiWire.protobuf Aft.target
    EveryState step NoNullDeref {} earlyEvents ↔ EveryStep step NotEarly {} earlyEvents := by
  obtain ⟨s, ran, _⟩ := earlyEvents_run
  exact noNullDeref_iff_notEarly (arrayParsers []) AfiWire.protobuf Aft.target earlyEvents s ran

end Server
end JP4Agent
