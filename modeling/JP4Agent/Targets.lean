import JP4Agent.AfiDevice

set_option autoImplicit false

namespace JP4Agent

def setObjectCreator (creators : Str → Option AfiClass) (objType : Str) (c : AfiClass) :
    Str → Option AfiClass :=
  fun type => if type = objType then some c else creators type

/-- The tree an entry is added to. -/
def treeEntryRefs (message : AfiTreeEntry) : List (Str × AfiClass) :=
  [(message.parentName.getD [], .tree)]

namespace Aft

def setObjectCreators : Str → Option AfiClass :=
  setObjectCreator (setObjectCreator (fun _ => none) (str "afi-tree") .tree)
    (str "afi-tree-entry") .treeEntry

def refs : (c : AfiClass) → c.Message → List (Str × AfiClass)
  | .treeEntry, message => treeEntryRefs message
  | _, _ => []

def target : Target := ⟨setObjectCreators, refs⟩

end Aft

namespace Null

def setObjectCreators : Str → Option AfiClass :=
  setObjectCreator (setObjectCreator (fun _ => none) (str "afi-tree") .tree)
    (str "afi-tree-entry") .treeEntry

def refs : (c : AfiClass) → c.Message → List (Str × AfiClass)
  | .treeEntry, message => treeEntryRefs message
  | _, _ => []

def target : Target := ⟨setObjectCreators, refs⟩

end Null

namespace Brcm

def setObjectCreators : Str → Option AfiClass :=
  [(str "afi-tree", .tree), (str "afi-tree-entry", .treeEntry), (str "afi-cap", .cap),
    (str "afi-cap-match", .capMatch), (str "afi-cap-action", .capAction),
    (str "afi-cap-entry", .capEntry), (str "afi-cap-entry-match", .capEntryMatch),
    (str "afi-cap-entry-action", .capEntryAction)].foldl
      (fun creators mount => setObjectCreator creators mount.1 mount.2) fun _ => none

def refs : (c : AfiClass) → c.Message → List (Str × AfiClass)
  | .treeEntry, message => treeEntryRefs message
  | .cap, message =>
    [(message.matchObject.getD [], .capMatch), (message.actionObject.getD [], .capAction)]
  | .capEntry, message =>
    [(message.parentName.getD [], .cap), (message.matchObject.getD [], .capEntryMatch),
      (message.actionObject.getD [], .capEntryAction)]
  | _, _ => []

def target : Target := ⟨setObjectCreators, refs⟩

end Brcm

def Shipped (target : Target) : Prop :=
  target = Aft.target ∨ target = Null.target ∨ target = Brcm.target

/-- Every device creates trees and their entries. -/
theorem Shipped.creators {target : Target} (shipped : Shipped target) :
    target.creators (str "afi-tree") = some .tree ∧
      target.creators (str "afi-tree-entry") = some .treeEntry := by
  rcases shipped with rfl | rfl | rfl
  · decide
  · decide
  · decide

theorem aft_ne_brcm : Aft.target ≠ Brcm.target := by
  intro same
  have creators := congrArg (fun target : Target => target.creators (str "afi-cap")) same
  cases creators

end JP4Agent
