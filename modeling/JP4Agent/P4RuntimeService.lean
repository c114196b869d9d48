import JP4Agent.Afi

set_option autoImplicit false

namespace JP4Agent

/-- A gRPC status, by its code. -/
structure Status where
  code : Nat
  deriving DecidableEq

def Status.OK : Status := ⟨0⟩

namespace P4

/-- The `oneof` of a match field. -/
inductive FieldMatchType where
  | valid (value : Bool)
  | exact (value : Str)
  | lpm (value : Str) (prefixLen : Int32)
  | ternary (value mask : Str)
  | range (low high : Str)
  | notSet

structure FieldMatch where
  fieldId : UInt32
  type : FieldMatchType

structure ActionParam where
  paramId : UInt32
  value : Str

inductive TableAction where
  | action (actionId : UInt32) (params : List ActionParam)
  | actionProfileMemberId (id : UInt32)
  | actionProfileGroupId (id : UInt32)
  | notSet

structure TableEntry where
  tableId : UInt32
  fieldMatches : List FieldMatch
  action : TableAction
  isDefaultAction : Bool
  hasMeterConfig : Bool
  hasCounterData : Bool

inductive UpdateType where
  | unspecified
  | insert
  | modify
  | delete
  /-- A number that is none of the enumerators. -/
  | other (value : Int32)

inductive Entity where
  | externEntry
  | tableEntry (entry : TableEntry)
  | actionProfileMember
  | actionProfileGroup
  | meterEntry
  | directMeterEntry
  | counterEntry
  | directCounterEntry
  | notSet

structure Update where
  type : UpdateType
  entity : Entity

end P4

namespace P4RuntimeServiceImpl
open Afi P4

/-- What `tableInsert` finds in memory it has not written: the local `actionId`, and the
bytes behind the strings of the match fields and parameters, by position. -/
structure Memory where
  actionId : UInt32 := 0
  value : Nat → Nat → UInt8 := fun _ _ => 0
  mask : Nat → Nat → UInt8 := fun _ _ => 0
  param : Nat → Nat → UInt8 := fun _ _ => 0

/-- A call into the AFI layer and what it returned, which the service drops. -/
inductive AfiCall where
  | addEntry (returned : Bool)
  | afiAddObjEntry (returned : Bool)
  deriving DecidableEq

section
variable (pb : Protobuf) (target : Target) (mem : Memory)

/-- The table whose LPM fields go to `addEntry`. -/
def addEntryTable : UInt32 := 33581985

/-- The loop over the match fields, from position `i` on: the calls it makes, and what it
pushes to `afiMFs`. -/
def convertMatch (tableId : UInt32) : Nat → List FieldMatch →
    AfiM (List AfiCall × List AfiTEntryMatchField)
  | _, [] => pure ([], [])
  | i, mf :: rest =>
    match mf.type with
    | .exact value => do
      let (calls, afiMFs) ← convertMatch tableId (i + 1) rest
      pure (calls, ⟨mf.fieldId, .exact, ⟨value, mem.value i⟩, 0, ⟨[], mem.mask i⟩⟩ :: afiMFs)
    | .lpm value prefixLen =>
      if tableId = addEntryTable then do
        let returned ← addEntry pb target value prefixLen
        let (calls, afiMFs) ← convertMatch tableId (i + 1) rest
        pure (.addEntry returned :: calls, afiMFs)
      else do
        let (calls, afiMFs) ← convertMatch tableId (i + 1) rest
        pure (calls, ⟨mf.fieldId, .lpm, ⟨value, mem.value i⟩, prefixLen.toUInt32.toUInt16,
          ⟨[], mem.mask i⟩⟩ :: afiMFs)
    | .ternary value mask => do
      let (calls, afiMFs) ← convertMatch tableId (i + 1) rest
      pure (calls, ⟨mf.fieldId, .ternary, ⟨value, mem.value i⟩, 0, ⟨mask, mem.mask i⟩⟩ :: afiMFs)
    | _ => convertMatch tableId (i + 1) rest

/-- `actionId` and `afiActions` before the call of `afiAddObjEntry`. -/
def convertAction : TableAction → UInt32 × List AfiAEntry
  | .action actionId params =>
    (actionId, params.zipIdx.map fun p => ⟨p.1.paramId, ⟨p.1.value, mem.param p.2⟩⟩)
  | _ => (mem.actionId, [])

def tableInsert (tableEntry : TableEntry) : AfiM (Status × List AfiCall) :=
  if tableEntry.isDefaultAction then pure (.OK, [])
  else do
    let (calls, afiMFs) ← convertMatch pb target mem tableEntry.tableId 0 tableEntry.fieldMatches
    let (actionId, afiActions) := convertAction mem tableEntry.action
    let returned ← afiAddObjEntry pb target tableEntry.tableId actionId afiMFs afiActions
    pure (.OK, calls ++ [.afiAddObjEntry returned])

def tableWrite (update : UpdateType) (tableEntry : TableEntry) : AfiM (Status × List AfiCall) :=
  if tableEntry.hasMeterConfig || tableEntry.hasCounterData then pure (.OK, [])
  else
    match update with
    | .insert => tableInsert pb target mem tableEntry
    | _ => pure (.OK, [])

end

section
variable (pb : Protobuf) (target : Target)

/-- One round of the loop of `_write`, with the status so far. -/
def writeUpdate (status : Status) (update : Update) (mem : Memory) : AfiM (Status × List AfiCall) :=
  match update.entity with
  | .tableEntry entry => tableWrite pb target mem update.type entry
  | _ => pure (status, [])

/-- The loop over the updates, each with the memory it finds. -/
def writeUpdates (status : Status) : List (Update × Memory) →
    AfiM (Status × List (List AfiCall))
  | [] => pure (status, [])
  | (update, mem) :: rest => do
    let (status, calls) ← writeUpdate pb target status update mem
    let (status, others) ← writeUpdates status rest
    pure (status, calls :: others)

def write (updates : List (Update × Memory)) : AfiM (Status × List (List AfiCall)) :=
  writeUpdates pb target .OK updates

end
end P4RuntimeServiceImpl
end JP4Agent
