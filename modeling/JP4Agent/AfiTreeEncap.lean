import JP4Agent.AfiEntry

set_option autoImplicit false

namespace JP4Agent.AfiTreeEncap

def id : Nat := 1233457

/-- The key of an action parameter; a name that is not listed leaves the tag unset. -/
def keyKey (name : Str) (value : CStr) : AfiKeyKey :=
  { fieldName :=
      if name = str "port" then .egressPort
      else if name = str "smac" then .packetEtherSaddr
      else if name = str "dmac" then .packetEtherDaddr
      else if name = str "l3_class_id" then .packetL3ClassId
      else .unset
    fieldData := some value.str }

/-- The keys, unless a parameter has no name. -/
def afiKeys (action : P4InfoAction) : List AfiAEntry → Option (List AfiKeyKey)
  | [] => some []
  | ae :: aes =>
    if action.actionParamName ae.id = [] then none
    else (afiKeys action aes).map (keyKey (action.actionParamName ae.id) ae.value :: ·)

/-- One round of the loop over the match fields, for a field the table has. -/
def setField (obj : AfiTreeEntry) (name : Str) (bitWidth : UInt32) (mf : AfiTEntryMatchField) :
    AfiTreeEntry :=
  let obj := if mf.type = .lpm then
      { obj with prefixBytes := some mf.value.str, prefixLength := some mf.len.toUInt64 }
    else obj
  if bitWidth = 0 then obj
  else if bitWidth ≤ 32 then
    let v := readUint bitWidth mf.value
    if name = str "local_metadata.vrf_id" then { obj with vrfId := some v.toUInt64 } else obj
  else obj

/-- The tree entry, unless a field is not one of the table's. -/
def treeEntryObj (table : P4InfoTable) : AfiTreeEntry → List AfiTEntryMatchField →
    Option AfiTreeEntry
  | obj, [] => some obj
  | obj, mf :: mfs =>
    match table.matchFieldInfo mf.id with
    | none => none
    | some (name, bitWidth) => treeEntryObj table (setField obj name bitWidth mf) mfs

def encapName (table : Str) : Str := table ++ str "_entry_encap" ++ str "_" ++ decimal (id + 2)
def treeName (table : Str) : Str := table ++ str "_entry_tree" ++ str "_" ++ decimal (id + 1)
def entryName (table : Str) : Str := table ++ str "_entry" ++ str "_" ++ decimal (id + 1)

def treeEncapEntryObj (table : Str) : AfiTreeEncapEntry :=
  { parentName := some table
    encapEntryObject := some (encapName table)
    treeEntryObject := some (treeName table) }

section
variable (pb : Protobuf)

/-- What is returned, and what has been appended to the result by then. -/
def childObjs (table : P4InfoTable) (action : P4InfoAction) (mfs : List AfiTEntryMatchField)
    (aes : List AfiAEntry) : Bool × List AfiJsonResource :=
  match afiKeys action aes with
  | none => (false, [])
  | some keys =>
    let eObj := childJsonRes pb (str "afi-encap-entry") (id + 2) (encapName table.name)
      .encapEntry { afiKey := keys, parentName := some (table.name ++ str "_encap") }
    match treeEntryObj table {} mfs with
    | none => (false, [eObj])
    | some afiTreeEntryObj =>
      let tObj := childJsonRes pb (str "afi-tree-entry") (id + 1) (treeName table.name)
        .treeEntry { afiTreeEntryObj with
          parentName := some (table.name ++ str "_tree")
          targetAfiObject := some (encapName table.name) }
      let teObj := childJsonRes pb (str "afi-tree-encap-entry") (id + 1) (entryName table.name)
        .treeEncapEntry (treeEncapEntryObj table.name)
      (true, [eObj, tObj, teObj])

def createChildJsonRes (tId aId : UInt32) (mfs : List AfiTEntryMatchField)
    (aes : List AfiAEntry) : AfiM (Bool × List AfiJsonResource) := do
  match ← p4InfoTable tId with
  | none => pure (false, [])
  | some table =>
    match ← p4InfoAction aId with
    | none => pure (false, [])
    | some action => pure (childObjs pb table action mfs aes)

end
end JP4Agent.AfiTreeEncap
