import JP4Agent.AfiMessages
import JP4Agent.Base64
import JP4Agent.Library.Programs
import JP4Agent.P4Info

set_option autoImplicit false

/- The object store of a target device. What a `_bind` does to the hardware is left
out: it is recorded which object was installed, and with which others. -/
namespace JP4Agent

structure AfiJsonResource where
  type : Str
  id : UInt64
  name : Str
  objStr : Str

/-- An object made by a creator. `addr` tells it from every other object made. -/
structure AfiObject where
  addr : Nat
  jsonRes : AfiJsonResource
  cls : AfiClass
  message : cls.Message

def AfiObject.name (obj : AfiObject) : Str := obj.jsonRes.name

/-- A target: the creators it registers, and the objects that the `_bind` of a class
looks up, in order, with the class each is cast to. A `_bind` returns at the first that
is missing or of another class. -/
structure Target where
  creators : Str → Option AfiClass
  refs : (c : AfiClass) → c.Message → List (Str × AfiClass)

/-- A `_bind` that got past its lookups. -/
structure Installed where
  object : AfiObject
  uses : List AfiObject

/-- The state behind the singletons `P4Info` and `Afi`. -/
structure Agent where
  p4Info : P4Info := {}
  objectsMap : PtrMap Str AfiObject := ∅
  nextAddr : Nat := 0
  /-- The objects `bind` was called on, latest first. -/
  bound : List AfiObject := []
  installed : List Installed := []

inductive Fault where
  | decode (fault : Base64.Fault)
  | nullDeref
  /-- jsoncpp threw; the agent goes on. -/
  | json
  | outOfFuel
  deriving DecidableEq, Repr

abbrev AfiM := EStateM Fault Agent

namespace AfiDevice

/-- The lookup is `operator[]`. -/
def getAfiObject (name : Str) : AfiM (Option AfiObject) := do
  let agent ← get
  set { agent with objectsMap := agent.objectsMap.touch name }
  pure (agent.objectsMap.deref name)

def insertToObjectMap (obj : AfiObject) : AfiM Unit :=
  modify fun agent => { agent with objectsMap := agent.objectsMap.assign obj.name obj }

def getAfiObjects (agent : Agent) : List (Option AfiObject) :=
  agent.objectsMap.toList.map Prod.snd

/-- A new object with the next address. -/
def makeObject (res : AfiJsonResource) (c : AfiClass) (message : c.Message) : AfiM AfiObject := do
  let agent ← get
  set { agent with nextAddr := agent.nextAddr + 1 }
  pure ⟨agent.nextAddr, res, c, message⟩

section
variable (pb : Protobuf) (target : Target)

/-- What an object of class `c` holds: the constructors decode into 5000 zeroed bytes. -/
def construct (c : AfiClass) (objStr : Str) : Except Base64.Fault c.Message :=
  let decoded := Base64.base64Decode objStr 5000
  decoded.result.map fun numDecodedBytes =>
    pb.parse c ((decoded.memory (HeapBuffer.alloc 5000)).load 0 numDecodedBytes.toNat)

def create (res : AfiJsonResource) : AfiM (Option AfiObject) :=
  match target.creators res.type with
  | none => pure none
  | some c =>
    match construct pb c res.objStr with
    | .error fault => throw (.decode fault)
    | .ok message => some <$> makeObject res c message

/-- The lookups of a `_bind`: the objects found, or `none` at an early return. -/
def resolve : List (Str × AfiClass) → AfiM (Option (List AfiObject))
  | [] => pure (some [])
  | (name, cls) :: rest => do
    match ← getAfiObject name with
    | none => pure none
    | some obj =>
      if obj.cls = cls then (Option.map (List.cons obj)) <$> resolve rest else pure none

/-- The templates of all targets return true whatever `_bind` did. -/
def bind (obj : AfiObject) : AfiM Bool := do
  modify fun agent => { agent with bound := obj :: agent.bound }
  match ← resolve (target.refs obj.cls obj.message) with
  | none => pure true
  | some uses =>
    modify fun agent => { agent with installed := ⟨obj, uses⟩ :: agent.installed }
    pure true

def handleDMObject (res : AfiJsonResource) (pipelineStage : Bool) : AfiM (Option AfiObject) := do
  match ← create pb target res with
  | none => pure none
  | some afiObj =>
    insertToObjectMap afiObj
    if pipelineStage = false then
      if ← bind target afiObj then pure (some afiObj) else pure none
    else pure (some afiObj)

/-- The loop over the map, which `bind` may add entries to; an added entry that is
reached is a null pointer. -/
def bindFrom : Nat → Option Str → AfiM Unit
  | 0, _ => throw .outOfFuel
  | fuel + 1, last => do
    match (← get).objectsMap.next last with
    | none => pure ()
    | some (_, none) => throw .nullDeref
    | some (key, some obj) =>
      let _ ← bind target obj
      bindFrom fuel (some key)

def bindAfiObjects : AfiM Unit := do
  bindFrom target ((← get).objectsMap.size + 1) none

end
end AfiDevice
end JP4Agent
