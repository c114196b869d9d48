import JP4Agent.Library.PtrMap
import JP4Agent.Library.Bytes

set_option autoImplicit false

namespace JP4Agent

structure P4InfoMatchField where
  id : UInt32
  name : Str
  bitwidth : Int32

structure P4InfoTable where
  id : UInt32
  name : Str
  matchFields : List P4InfoMatchField

structure P4InfoActionParam where
  id : UInt32
  name : Str

structure P4InfoAction where
  id : UInt32
  name : Str
  params : List P4InfoActionParam

inductive P4InfoResource where
  | table (table : P4InfoTable)
  | action (action : P4InfoAction)

namespace P4InfoResource

def id : P4InfoResource → UInt32
  | .table t => t.id
  | .action a => a.id

def name : P4InfoResource → Str
  | .table t => t.name
  | .action a => a.name

/-- `dynamic_pointer_cast<P4InfoTable>` -/
def table? : P4InfoResource → Option P4InfoTable
  | .table t => some t
  | .action _ => none

/-- `dynamic_pointer_cast<P4InfoAction>` -/
def action? : P4InfoResource → Option P4InfoAction
  | .table _ => none
  | .action a => some a

end P4InfoResource

/-- The name and the `uint32_t` bit width, if the table has the field. -/
def P4InfoTable.matchFieldInfo (table : P4InfoTable) (fieldId : UInt32) : Option (Str × UInt32) :=
  (table.matchFields.find? fun field => field.id == fieldId).map fun field =>
    (field.name, field.bitwidth.toUInt32)

/-- The empty string stands for a parameter the action does not have. -/
def P4InfoAction.actionParamName (action : P4InfoAction) (paramId : UInt32) : Str :=
  match action.params.find? fun param => param.id == paramId with
  | some param => param.name
  | none => []

structure P4Info where
  nameMap : PtrMap Str P4InfoResource := ∅
  idMap : PtrMap UInt32 P4InfoResource := ∅

namespace P4Info

def insert2IdMap (info : P4Info) (res : P4InfoResource) : P4Info :=
  { info with idMap := info.idMap.assign res.id res }

def insert2NameMap (info : P4Info) (res : P4InfoResource) : P4Info :=
  { info with nameMap := info.nameMap.assign res.name res }

/-- The pointer found under the id. -/
def p4InfoResource (info : P4Info) (id : UInt32) : Option P4InfoResource := info.idMap.deref id

theorem p4InfoResource_insert2IdMap (info : P4Info) (res : P4InfoResource) (id : UInt32) :
    (info.insert2IdMap res).p4InfoResource id =
      if res.id = id then some res else info.p4InfoResource id :=
  PtrMap.deref_assign ..

@[simp] theorem p4InfoResource_insert2NameMap (info : P4Info) (res : P4InfoResource) (id : UInt32) :
    (info.insert2NameMap res).p4InfoResource id = info.p4InfoResource id := rfl

/-- The maps after the lookup, which binds an unknown id to a null pointer. -/
def lookedUp (info : P4Info) (id : UInt32) : P4Info := { info with idMap := info.idMap.touch id }

@[simp] theorem p4InfoResource_lookedUp (info : P4Info) (id other : UInt32) :
    (info.lookedUp id).p4InfoResource other = info.p4InfoResource other :=
  PtrMap.deref_touch ..

/-- The table with this id. -/
def table? (info : P4Info) (id : UInt32) : Option P4InfoTable :=
  (info.p4InfoResource id).bind P4InfoResource.table?

/-- The action with this id. -/
def action? (info : P4Info) (id : UInt32) : Option P4InfoAction :=
  (info.p4InfoResource id).bind P4InfoResource.action?

@[simp] theorem table?_lookedUp (info : P4Info) (id other : UInt32) :
    (info.lookedUp id).table? other = info.table? other := by
  rw [table?, table?, p4InfoResource_lookedUp]

@[simp] theorem action?_lookedUp (info : P4Info) (id other : UInt32) :
    (info.lookedUp id).action? other = info.action? other := by
  rw [action?, action?, p4InfoResource_lookedUp]

end P4Info
end JP4Agent
