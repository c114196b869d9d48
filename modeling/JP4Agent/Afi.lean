import JP4Agent.AfiCap
import JP4Agent.AfiTreeEncap

set_option autoImplicit false

namespace JP4Agent

/-- The method of the object's class; the base class returns false. -/
def AfiObject.createChildJsonRes (obj : AfiObject) (pb : Protobuf) (tId aId : UInt32)
    (mfs : List AfiTEntryMatchField) (aes : List AfiAEntry) :
    AfiM (Bool × List AfiJsonResource) :=
  match obj.cls with
  | .cap => AfiCap.createChildJsonRes pb tId aId mfs aes
  | .treeEncap => AfiTreeEncap.createChildJsonRes pb tId aId mfs aes
  | _ => pure (false, [])

namespace Afi
open AfiDevice

section
variable (pb : Protobuf) (target : Target)

/-- `none` is a JSON value that jsoncpp does not convert to the four strings and numbers. -/
def handleAfiJsonObject (cfgObj : Option AfiJsonResource) (pipelineStage : Bool) : AfiM Bool :=
  match cfgObj with
  | none => throw .json
  | some res => do
    match ← handleDMObject pb target res pipelineStage with
    | none => pure false
    | some _ => pure true

/-- The loops of `handlePipelineConfig` and of `afiAddObjEntry`. -/
def handleAfiJsonObjects (pipelineStage : Bool) : List (Option AfiJsonResource) → AfiM Bool
  | [] => pure true
  | cfgObj :: rest => do
    if ← handleAfiJsonObject pb target cfgObj pipelineStage then
      handleAfiJsonObjects pipelineStage rest
    else pure false

def handlePipelineConfig (cfgRoot : List (Option AfiJsonResource)) : AfiM Bool := do
  if ← handleAfiJsonObjects pb target true cfgRoot then
    bindAfiObjects target
    pure true
  else pure false

def afiTreeJsonObject (aftTreeName keyField : Str) (protocol : Int32) (defaultNextObject : Str)
    (treeSize : UInt32) : AfiJsonResource :=
  let afiTree : AfiTree :=
    { name := some aftTreeName
      keyField := some keyField
      proto := some (UInt64.ofInt protocol.toInt)
      defaultNextNode := some defaultNextObject
      size := some treeSize.toUInt64 }
  childJsonRes pb (str "afi-tree") 1000001 aftTreeName .tree afiTree

def addAfiTree (aftTreeName keyField : Str) (protocol : Int32) (defaultNextObject : Str)
    (treeSize : UInt32) : AfiM Bool :=
  handleAfiJsonObject pb target
    (some (afiTreeJsonObject pb aftTreeName keyField protocol defaultNextObject treeSize)) false

def afiTreeEntryJsonObject (keystr : Str) (pLen : Int32) : AfiJsonResource :=
  let afiTreeEntry : AfiTreeEntry :=
    { name := some (str "entry1")
      parentName := some (str "ipv4_lpm")
      targetAfiObject := some (str "etherencap1")
      prefixBytes := some keystr
      prefixLength := some (UInt64.ofInt pLen.toInt) }
  childJsonRes pb (str "afi-tree-entry") 1233456 (str "entry1") .treeEntry afiTreeEntry

def addEntry (keystr : Str) (pLen : Int32) : AfiM Bool :=
  handleAfiJsonObject pb target (some (afiTreeEntryJsonObject pb keystr pLen)) false

def afiAddObjEntry (tId aId : UInt32) (mfs : List AfiTEntryMatchField) (aes : List AfiAEntry) :
    AfiM Bool := do
  match ← p4InfoTable tId with
  | none => pure false
  | some table =>
    match ← p4InfoAction aId with
    | none => pure false
    | some _ =>
      match ← getAfiObject table.name with
      | none => pure false
      | some afiPObj =>
        let (created, eObjs) ← afiPObj.createChildJsonRes pb tId aId mfs aes
        if created then handleAfiJsonObjects pb target false (eObjs.map some) else pure false

end
end Afi
end JP4Agent
