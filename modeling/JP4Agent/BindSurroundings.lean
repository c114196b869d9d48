import JP4Agent.TreeEntryBinds

set_option autoImplicit false

namespace JP4Agent
open Agent

/-- What a `_bind` finds around its prefix and its local variables. -/
structure Surroundings where
  /-- Bytes behind the terminator of the prefix that can be read. -/
  readable : Nat
  /-- Bytes behind `dstAddr` that can be overwritten without harm. -/
  writable : Nat
  /-- Using `m` and `port` unassigned does no harm. -/
  staleUsable : Bool
  frame : Brcm.Frame
  l3Intf : UInt16 → Bool

/-- No access stops the agent. -/
def Access.Survives (around : Surroundings) (size : Nat) : Bool → List Access → Prop
  | _, [] => True
  | assigned, .index i :: rest =>
    i ≤ size + around.readable ∧ Survives around size assigned rest
  | assigned, .copy count :: rest =>
    count ≤ 4 + around.writable ∧ Survives around size assigned rest
  | _, .assign :: rest => Survives around size true rest
  | assigned, .use :: rest =>
    (assigned = true ∨ around.staleUsable = true) ∧ Survives around size assigned rest

namespace Surroundings

def strict : Surroundings := ⟨0, 0, false, default, fun _ => false⟩

variable (around : Surroundings)

/-- The next hop is assigned, or may be any. -/
def KnowsNextHop (prefixBytes : Str) : Prop :=
  (Brcm.nextHop (Brcm.dstAddr prefixBytes around.frame)).isSome ∨ around.staleUsable = true

/-- The `_bind` of a tree entry ends, and the agent lives. After a copy past `dstAddr` it goes on
with the first four bytes. On the Null device it does nothing but look for its tree. -/
def Survived (target : Target) (s : Agent) (entry : AfiTreeEntry) : Prop :=
  (target = Aft.target → ∃ fuel accesses,
    Aft.AftTreeEntry.accesses s entry fuel = some accesses ∧
      Access.Survives around (entry.prefixBytes.getD []).length false accesses) ∧
  (target = Brcm.target →
    Access.Survives around (entry.prefixBytes.getD []).length false
      (Brcm.BrcmTreeEntry.bind s around.l3Intf around.frame entry).1 ∧
    ((Brcm.BrcmTreeEntry.bind s around.l3Intf around.frame entry).2 = .overrun →
      around.KnowsNextHop (entry.prefixBytes.getD [])))

/-- The surroundings stand what the `_bind` does with a prefix once it has found the tree: on
the AFT device the loop ends within what can be read, on the Broadcom device the prefix goes to
where it may, and the next hop is known. -/
def Stand (target : Target) (prefixBytes : Str) (prefixLength : UInt64) : Prop :=
  (target = Aft.target → prefixLength.toNat < 4294967296 ∧
    prefixLength.toNat ≤ prefixBytes.length + 1 + around.readable) ∧
  (target = Brcm.target →
    prefixBytes.length ≤ 4 + around.writable ∧ around.KnowsNextHop prefixBytes)

/-- The tree entries that were bound between two states were bound by a living agent. -/
def BindsSurvived (target : Target) (s t : Agent) : Prop :=
  ∃ created, t.bound = created ++ s.bound ∧
    ∀ obj ∈ created, ∀ entry, obj.value = ⟨.treeEntry, entry⟩ → around.Survived target t entry

theorem survives_indices_iff (size : Nat) (assigned : Bool) (positions : List Nat) :
    Access.Survives around size assigned (positions.map Access.index) ↔
      Access.Safe (size + around.readable) assigned (positions.map Access.index) := by
  induction positions with
  | nil => exact Iff.rfl
  | cons i rest ih => exact and_congr_right fun _ => ih

theorem printPrefix_indices {prefixLength : UInt64} (fuel : Nat) :
    ∀ {i : UInt32} {accesses : List Access},
      Aft.AftTreeEntry.printPrefix prefixLength fuel i = some accesses →
        ∃ positions : List Nat, accesses = positions.map Access.index := by
  induction fuel with
  | zero => exact fun ended => nomatch ended
  | succ fuel ih =>
      intro i accesses ended
      rw [Aft.AftTreeEntry.printPrefix] at ended
      split at ended
      · obtain ⟨rest, more, rfl⟩ := Option.map_eq_some_iff.mp ended
        obtain ⟨positions, rfl⟩ := ih more
        exact ⟨i.toNat :: positions, rfl⟩
      · exact ⟨[], (Option.some.inj ended).symm⟩

theorem printPrefix_survives_iff (prefixLength : UInt64) (size : Nat) :
    (∃ fuel accesses, Aft.AftTreeEntry.printPrefix prefixLength fuel 0 = some accesses ∧
      Access.Survives around size false accesses) ↔
    prefixLength.toNat < 4294967296 ∧ prefixLength.toNat ≤ size + 1 + around.readable := by
  have ends := Aft.printPrefix_safe_iff prefixLength (size + around.readable)
  rw [show size + around.readable + 1 = size + 1 + around.readable by omega] at ends
  rw [← ends]
  refine exists_congr fun fuel => exists_congr fun accesses => and_congr_right fun ended => ?_
  obtain ⟨positions, rfl⟩ := printPrefix_indices fuel ended
  exact survives_indices_iff around size false positions

section
variable {s : Agent} {tree : AfiObject} {entry : AfiTreeEntry}
  (found : s.lookup (entry.parentName.getD []) = some tree) (isTree : tree.cls = .tree)
include found isTree

theorem bind_survives_iff :
    (Access.Survives around (entry.prefixBytes.getD []).length false
        (Brcm.BrcmTreeEntry.bind s around.l3Intf around.frame entry).1 ∧
      ((Brcm.BrcmTreeEntry.bind s around.l3Intf around.frame entry).2 = .overrun →
        around.KnowsNextHop (entry.prefixBytes.getD []))) ↔
      (entry.prefixBytes.getD []).length ≤ 4 + around.writable ∧
        around.KnowsNextHop (entry.prefixBytes.getD []) := by
  rw [Brcm.bind_overrun_iff found isTree]
  by_cases short : (entry.prefixBytes.getD []).length ≤ 4
  · rw [Brcm.bind_accesses found isTree around.l3Intf around.frame short, KnowsNextHop]
    cases Brcm.nextHop (Brcm.dstAddr (entry.prefixBytes.getD []) around.frame) with
    | none => simp [Access.Survives, Nat.not_lt.mpr short]
    | some hop => simp [Access.Survives]
  · have long : 4 < (entry.prefixBytes.getD []).length := Nat.not_le.mp short
    have accesses : (Brcm.BrcmTreeEntry.bind s around.l3Intf around.frame entry).1 =
        [.copy (entry.prefixBytes.getD []).length] := by
      rw [Brcm.BrcmTreeEntry.bind, Brcm.resolved_tree found isTree]
      dsimp only
      rw [if_pos long]
    rw [accesses]
    simp [Access.Survives, long]

theorem survived_iff (target : Target) :
    around.Survived target s entry ↔
      around.Stand target (entry.prefixBytes.getD []) (entry.prefixLength.getD 0) := by
  have accesses (fuel : Nat) : Aft.AftTreeEntry.accesses s entry fuel =
      Aft.AftTreeEntry.printPrefix (entry.prefixLength.getD 0) fuel 0 := by
    rw [Aft.AftTreeEntry.accesses, Brcm.resolved_tree found isTree]
  unfold Survived Stand
  simp only [accesses, printPrefix_survives_iff]
  exact and_congr_right fun _ => imp_congr_right fun _ => around.bind_survives_iff found isTree

end

theorem survived_of_unresolved {target : Target} {s : Agent} {entry : AfiTreeEntry}
    (missing : s.resolved (treeEntryRefs entry) = none) : around.Survived target s entry := by
  refine ⟨fun _ => ⟨0, [], ?_, trivial⟩, fun _ => ?_⟩
  · rw [Aft.AftTreeEntry.accesses, missing]
  · rw [Brcm.BrcmTreeEntry.bind, missing]
    refine ⟨trivial, fun overrun => ?_⟩
    cases overrun

/-- The entry finds its tree once it is stored under this name itself. -/
def FindsTree (s : Agent) (name : Str) (entry : AfiTreeEntry) : Prop :=
  entry.parentName.getD [] ≠ name ∧
    ∃ tree, s.lookup (entry.parentName.getD []) = some tree ∧ tree.cls = .tree

theorem bindsSurvived_iff {target : Target} {s t : Agent} {obj : AfiObject}
    {entry : AfiTreeEntry} (handled : Handled target s obj false t)
    (isEntry : obj.value = ⟨.treeEntry, entry⟩) :
    around.BindsSurvived target s t ↔ (FindsTree s obj.name entry →
      around.Stand target (entry.prefixBytes.getD []) (entry.prefixLength.getD 0)) := by
  have bound : t.bound = [obj] ++ s.bound := handled.bound
  have single : around.BindsSurvived target s t ↔ around.Survived target t entry := by
    constructor
    · rintro ⟨created, all, survived⟩
      obtain rfl := List.append_cancel_right (bound.symm.trans all)
      exact survived obj List.mem_cons_self entry isEntry
    · intro survived
      refine ⟨[obj], bound, fun other member entry' isEntry' => ?_⟩
      obtain rfl := List.mem_singleton.mp member
      obtain rfl := eq_of_heq (Sigma.mk.inj (isEntry.symm.trans isEntry')).2
      exact survived
  rw [single]
  by_cases finds : FindsTree s obj.name entry
  · obtain ⟨apart, tree, found, isTree⟩ := finds
    have kept : t.lookup (entry.parentName.getD []) = some tree :=
      ((handled.lookup _).trans (if_neg fun same => apart same.symm)).trans found
    rw [around.survived_iff kept isTree]
    exact ⟨fun stand _ => stand, fun stand => stand ⟨apart, tree, found, isTree⟩⟩
  · refine iff_of_true (around.survived_of_unresolved ?_) fun wrong => absurd wrong finds
    rw [treeEntryRefs, Agent.resolved, handled.lookup]
    by_cases itself : obj.name = entry.parentName.getD []
    · have cls : obj.cls = .treeEntry := congrArg Sigma.fst isEntry
      simp [itself, cls]
    · rw [if_neg itself]
      cases found : s.lookup (entry.parentName.getD []) with
      | none => rfl
      | some tree =>
          have other : tree.cls ≠ .tree := fun isTree =>
            finds ⟨fun same => itself same.symm, tree, found, isTree⟩
          simp [other]

theorem bindsSurvived_congr {target : Target} {s t u : Agent} (same : Unchanged t u)
    (survived : around.BindsSurvived target s t) : around.BindsSurvived target s u := by
  obtain ⟨created, bound, each⟩ := survived
  refine ⟨created, same.bound.trans bound, fun obj member entry isEntry => ?_⟩
  have resolved := same.toSame.resolved (treeEntryRefs entry)
  have survived := each obj member entry isEntry
  simp only [Survived, Aft.AftTreeEntry.accesses, Brcm.BrcmTreeEntry.bind, resolved] at survived ⊢
  exact survived

theorem bindsSurvived_refl (target : Target) (s : Agent) : around.BindsSurvived target s s :=
  ⟨[], rfl, fun _ wrong => absurd wrong List.not_mem_nil⟩

theorem bindsSurvived_of_ne {target : Target} {s t : Agent} {obj : AfiObject}
    (handled : Handled target s obj false t) (other : obj.cls ≠ .treeEntry) :
    around.BindsSurvived target s t := by
  refine ⟨[obj], handled.bound, fun obj' member entry isEntry => ?_⟩
  obtain rfl := List.mem_singleton.mp member
  exact absurd (congrArg Sigma.fst isEntry) other

end Surroundings
end JP4Agent
