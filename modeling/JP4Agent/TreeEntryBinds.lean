import JP4Agent.AfiBinds
import JP4Agent.Targets

set_option autoImplicit false

namespace JP4Agent
open Agent

/-- What a `_bind` does with the string of the prefix and with its local variables. -/
inductive Access where
  /-- `prefix_bytes_str[i]` -/
  | index (i : Nat)
  /-- `memcpy` of so many bytes to `dstAddr` -/
  | copy (count : Nat)
  /-- `m` and `port` are assigned. -/
  | assign
  /-- `m` or `port` is used. -/
  | use
  deriving DecidableEq, Repr

/-- The accesses stay within a string of this size and its terminator and within `dstAddr`,
and use only what has been assigned. -/
def Access.Safe (size : Nat) : Bool → List Access → Prop
  | _, [] => True
  | assigned, .index i :: rest => i ≤ size ∧ Safe size assigned rest
  | assigned, .copy count :: rest => count ≤ 4 ∧ Safe size assigned rest
  | _, .assign :: rest => Safe size true rest
  | assigned, .use :: rest => assigned = true ∧ Safe size assigned rest

namespace Aft

/-- The loop that prints the prefix. Its counter is an `unsigned int`, its bound 64 bits wide. -/
def AftTreeEntry.printPrefix (prefixLength : UInt64) : Nat → UInt32 → Option (List Access)
  | 0, _ => none
  | fuel + 1, i =>
    if i.toUInt64 < prefixLength then
      (printPrefix prefixLength fuel (i + 1)).map (.index i.toNat :: ·)
    else some []

/-- The accesses of `_bind` before the route is added, unless the loop needs more rounds. -/
def AftTreeEntry.accesses (s : Agent) (entry : AfiTreeEntry) (fuel : Nat) : Option (List Access) :=
  match s.resolved (treeEntryRefs entry) with
  | none => some []
  | some _ => printPrefix (entry.prefixLength.getD 0) fuel 0

section
variable {prefixLength : UInt64}

theorem printPrefix_done {fuel : Nat} {i : UInt32} (done : prefixLength.toNat ≤ i.toNat) :
    AftTreeEntry.printPrefix prefixLength (fuel + 1) i = some [] := by
  rw [AftTreeEntry.printPrefix, if_neg]
  rw [UInt64.lt_iff_toNat_lt, UInt32.toNat_toUInt64]
  omega

theorem printPrefix_round {fuel : Nat} {i : UInt32} (more : i.toNat < prefixLength.toNat) :
    AftTreeEntry.printPrefix prefixLength (fuel + 1) i =
      (AftTreeEntry.printPrefix prefixLength fuel (i + 1)).map (.index i.toNat :: ·) := by
  rw [AftTreeEntry.printPrefix, if_pos]
  rw [UInt64.lt_iff_toNat_lt, UInt32.toNat_toUInt64]
  exact more

theorem toNat_add_one {i : UInt32} (inside : i.toNat + 1 < 4294967296) :
    (i + 1).toNat = i.toNat + 1 := by
  rw [UInt32.toNat_add]
  show (i.toNat + 1) % 4294967296 = i.toNat + 1
  omega

theorem printPrefix_forever (unbounded : 4294967296 ≤ prefixLength.toNat) (fuel : Nat) :
    ∀ i : UInt32, AftTreeEntry.printPrefix prefixLength fuel i = none := by
  induction fuel with
  | zero => exact fun i => rfl
  | succ fuel ih =>
      intro i
      have below := i.toNat_lt
      rw [printPrefix_round (by omega), ih, Option.map_none]

theorem printPrefix_unfinished (bounded : prefixLength.toNat < 4294967296) (fuel : Nat) :
    ∀ i : UInt32, i.toNat + fuel ≤ prefixLength.toNat →
      AftTreeEntry.printPrefix prefixLength fuel i = none := by
  induction fuel with
  | zero => exact fun i _ => rfl
  | succ fuel ih =>
      intro i more
      rw [printPrefix_round (by omega), ih, Option.map_none]
      rw [toNat_add_one (by omega)]
      omega

theorem printPrefix_reads (bounded : prefixLength.toNat < 4294967296) (left : Nat) :
    ∀ i : UInt32, i.toNat + left = prefixLength.toNat → ∀ fuel, left < fuel →
      AftTreeEntry.printPrefix prefixLength fuel i =
        some ((List.range' i.toNat left).map Access.index) := by
  induction left with
  | zero =>
      intro i reached fuel enough
      obtain ⟨fuel, rfl⟩ := Nat.exists_eq_add_one_of_ne_zero (Nat.ne_of_gt enough)
      rw [printPrefix_done (by omega)]
      rfl
  | succ left ih =>
      intro i reached fuel enough
      obtain ⟨fuel, rfl⟩ := Nat.exists_eq_add_one_of_ne_zero (by omega : fuel ≠ 0)
      have next := toNat_add_one (show i.toNat + 1 < 4294967296 by omega)
      rw [printPrefix_round (by omega), ih (i + 1) (by omega) fuel (by omega), next,
        Option.map_some, List.range'_succ, List.map_cons]

end

theorem safe_indices_iff (size : Nat) (assigned : Bool) (positions : List Nat) :
    Access.Safe size assigned (positions.map Access.index) ↔ ∀ i ∈ positions, i ≤ size := by
  induction positions with
  | nil => simp [Access.Safe]
  | cons i rest ih => simp [Access.Safe, ih]

/-- The loop ends within the string exactly if its bound is an `unsigned int` and at most one
more than the size of the string. -/
theorem printPrefix_safe_iff (prefixLength : UInt64) (size : Nat) :
    (∃ fuel accesses, AftTreeEntry.printPrefix prefixLength fuel 0 = some accesses ∧
      Access.Safe size false accesses) ↔
    prefixLength.toNat < 4294967296 ∧ prefixLength.toNat ≤ size + 1 := by
  constructor
  · rintro ⟨fuel, accesses, ended, safe⟩
    by_cases bounded : prefixLength.toNat < 4294967296
    · refine ⟨bounded, ?_⟩
      have enough : prefixLength.toNat < fuel := by
        by_contra few
        have unfinished := printPrefix_unfinished bounded fuel 0 (by simpa using few)
        rw [ended] at unfinished
        cases unfinished
      have reads := printPrefix_reads bounded prefixLength.toNat 0 (Nat.zero_add _) fuel enough
      rw [ended, Option.some.injEq] at reads
      rw [reads, safe_indices_iff] at safe
      by_contra long
      have last := safe (prefixLength.toNat - 1) (by
        rw [List.mem_range'_1, UInt32.toNat_zero]
        omega)
      omega
    · rw [printPrefix_forever (by omega)] at ended
      cases ended
  · rintro ⟨bounded, short⟩
    refine ⟨prefixLength.toNat + 1, _,
      printPrefix_reads bounded prefixLength.toNat 0 (Nat.zero_add _) _ (Nat.lt_succ_self _), ?_⟩
    rw [safe_indices_iff]
    intro i listed
    rw [List.mem_range'_1, UInt32.toNat_zero] at listed
    omega

end Aft

namespace Brcm

/-- What the local variables of a `_bind` hold before they are assigned. -/
structure Frame where
  dstAddr : Nat → UInt8
  m : Str
  port : UInt16
  deriving Inhabited

/-- A byte of `dstAddr` after the prefix was copied over it. -/
def dstByte (prefixBytes : Str) (frame : Frame) (i : Nat) : UInt8 :=
  prefixBytes.getD i (frame.dstAddr i)

/-- `dstAddr` on a little-endian host. -/
def dstAddr (prefixBytes : Str) (frame : Frame) : UInt32 :=
  UInt32.ofNat ((dstByte prefixBytes frame 0).toNat + 256 * ((dstByte prefixBytes frame 1).toNat +
    256 * ((dstByte prefixBytes frame 2).toNat + 256 * (dstByte prefixBytes frame 3).toNat)))

/-- The MAC address and the port that are assigned for this destination, if any. -/
def nextHop (dstAddr : UInt32) : Option (Str × UInt16) :=
  if dstAddr = 0x022c2c2c then some (str "88:a2:5e:91:c0:a9", 9)
  else if dstAddr = 0x02373737 then some (str "88:a2:5e:91:75:ff", 13)
  else if dstAddr = 0x012c2c2c then some (str "88:a2:5e:91:a2:a8", 0)
  else if dstAddr = 0x01373737 then some (str "88:a2:5e:91:a2:a9", 0)
  else none

/-- How the `_bind` of a tree entry ends. -/
inductive Ending where
  /-- before the route was added -/
  | returned
  /-- The route was added, with a next hop unless it leads to the CPU. -/
  | added (nextHop : Option (Str × UInt16)) (dstAddr : UInt32) (prefixLength : UInt64)
  /-- `memcpy` wrote past `dstAddr`. If that is survived, the port may be any. -/
  | overrun

/-- The accesses of `_bind` and its end. `l3Intf` tells for which ports there is an L3
interface. -/
def BrcmTreeEntry.bind (s : Agent) (l3Intf : UInt16 → Bool) (frame : Frame)
    (entry : AfiTreeEntry) : List Access × Ending :=
  match s.resolved (treeEntryRefs entry) with
  | none => ([], .returned)
  | some _ =>
    let prefixBytes := entry.prefixBytes.getD []
    if 4 < prefixBytes.length then ([.copy prefixBytes.length], .overrun)
    else
      let addr := dstAddr prefixBytes frame
      let assigned := nextHop addr
      let (m, port) := assigned.getD (frame.m, frame.port)
      let accesses := .copy prefixBytes.length ::
        ((if assigned.isSome then [.assign] else []) ++ [.use])
      let prefixLength := entry.prefixLength.getD 0
      if port = 0 then (accesses, .added none addr prefixLength)
      else if l3Intf port then (accesses, .added (some (m, port)) addr prefixLength)
      else (accesses, .returned)

def nextHopPrefixes : List Str :=
  [[0x2c, 0x2c, 0x2c, 0x02], [0x37, 0x37, 0x37, 0x02], [0x2c, 0x2c, 0x2c, 0x01],
    [0x37, 0x37, 0x37, 0x01]]

theorem dstAddr_toNat (prefixBytes : Str) (frame : Frame) :
    (dstAddr prefixBytes frame).toNat =
      (dstByte prefixBytes frame 0).toNat + 256 * ((dstByte prefixBytes frame 1).toNat +
        256 * ((dstByte prefixBytes frame 2).toNat +
          256 * (dstByte prefixBytes frame 3).toNat)) := by
  have first := (dstByte prefixBytes frame 0).toNat_lt
  have second := (dstByte prefixBytes frame 1).toNat_lt
  have third := (dstByte prefixBytes frame 2).toNat_lt
  have fourth := (dstByte prefixBytes frame 3).toNat_lt
  rw [dstAddr, UInt32.toNat_ofNat']
  exact Nat.mod_eq_of_lt (by omega)

theorem dstAddr_eq_iff (a b c d w x y z : UInt8) (frame frame' : Frame) :
    dstAddr [a, b, c, d] frame = dstAddr [w, x, y, z] frame' ↔ [a, b, c, d] = [w, x, y, z] := by
  have first := dstAddr_toNat [a, b, c, d] frame
  have second := dstAddr_toNat [w, x, y, z] frame'
  simp only [dstByte, List.getD_cons_zero, List.getD_cons_succ] at first second
  rw [← UInt32.toNat_inj, first, second]
  simp only [List.cons.injEq, and_true, ← UInt8.toNat_inj]
  have := a.toNat_lt
  have := b.toNat_lt
  have := c.toNat_lt
  have := w.toNat_lt
  have := x.toNat_lt
  have := y.toNat_lt
  omega

theorem nextHop_isSome_iff (addr : UInt32) : (nextHop addr).isSome ↔
    addr = 0x022c2c2c ∨ addr = 0x02373737 ∨ addr = 0x012c2c2c ∨ addr = 0x01373737 := by
  unfold nextHop
  split
  · simp [*]
  · split
    · simp [*]
    · split
      · simp [*]
      · split
        · simp [*]
        · simp [*]

theorem nextHop_of_four (a b c d : UInt8) (frame : Frame) :
    (nextHop (dstAddr [a, b, c, d] frame)).isSome ↔ [a, b, c, d] ∈ nextHopPrefixes := by
  have first : (0x022c2c2c : UInt32) = dstAddr [0x2c, 0x2c, 0x2c, 0x02] frame := by
    simp [dstAddr, dstByte]
  have second : (0x02373737 : UInt32) = dstAddr [0x37, 0x37, 0x37, 0x02] frame := by
    simp [dstAddr, dstByte]
  have third : (0x012c2c2c : UInt32) = dstAddr [0x2c, 0x2c, 0x2c, 0x01] frame := by
    simp [dstAddr, dstByte]
  have fourth : (0x01373737 : UInt32) = dstAddr [0x37, 0x37, 0x37, 0x01] frame := by
    simp [dstAddr, dstByte]
  rw [nextHop_isSome_iff, first, second, third, fourth]
  simp only [dstAddr_eq_iff, nextHopPrefixes, List.mem_cons, List.not_mem_nil, or_false]

theorem nextHop_always_iff (prefixBytes : Str) (short : prefixBytes.length ≤ 4) :
    (∀ frame : Frame, (nextHop (dstAddr prefixBytes frame)).isSome) ↔
      prefixBytes ∈ nextHopPrefixes := by
  by_cases four : prefixBytes.length = 4
  · obtain ⟨a, b, c, d, rfl⟩ := List.length_eq_four.mp four
    simp only [nextHop_of_four, forall_const]
  · constructor
    · -- the last byte of the variable may be a zero
      intro always
      let frame : Frame := ⟨fun _ => 0, [], 0⟩
      have last : dstByte prefixBytes frame 3 = 0 := by
        rw [dstByte, List.getD_eq_default _ _ (by omega)]
      have number := dstAddr_toNat prefixBytes frame
      have first := (dstByte prefixBytes frame 0).toNat_lt
      have second := (dstByte prefixBytes frame 1).toNat_lt
      have third := (dstByte prefixBytes frame 2).toNat_lt
      rw [last, UInt8.toNat_zero] at number
      have some := always frame
      simp only [nextHop_isSome_iff, ← UInt32.toNat_inj, UInt32.reduceToNat] at some
      omega
    · have lengths : ∀ bytes ∈ nextHopPrefixes, bytes.length = 4 := by decide
      exact fun listed => absurd (lengths prefixBytes listed) four

/-- The port leads to the CPU or has an L3 interface. -/
def HasL3Intf (l3Intf : UInt16 → Bool) (port : UInt16) : Prop := port = 0 ∨ l3Intf port = true

/-- The route was added, or is sure to be if the `_bind` goes on. -/
def Ending.Completed (l3Intf : UInt16 → Bool) : Ending → Prop
  | .returned => False
  | .added .. => True
  | .overrun => ∀ port, HasL3Intf l3Intf port

/-- Every port that may be used for this prefix has its L3 interface: the one that is assigned,
or any that the stack may hold. -/
def FindsL3Intf (l3Intf : UInt16 → Bool) (prefixBytes : Str) : Prop :=
  (∀ port, HasL3Intf l3Intf port) ∨
    (prefixBytes = [0x2c, 0x2c, 0x2c, 0x02] ∧ HasL3Intf l3Intf 9) ∨
    (prefixBytes = [0x37, 0x37, 0x37, 0x02] ∧ HasL3Intf l3Intf 13) ∨
    prefixBytes = [0x2c, 0x2c, 0x2c, 0x01] ∨ prefixBytes = [0x37, 0x37, 0x37, 0x01]

theorem hasL3Intf_iff (l3Intf : UInt16 → Bool) (prefixBytes : Str)
    (short : prefixBytes.length ≤ 4) :
    (∀ frame : Frame, HasL3Intf l3Intf
      ((nextHop (dstAddr prefixBytes frame)).getD (frame.m, frame.port)).2) ↔
    FindsL3Intf l3Intf prefixBytes := by
  by_cases listed : prefixBytes ∈ nextHopPrefixes
  · have cpu : HasL3Intf l3Intf 0 := Or.inl rfl
    have always (port : UInt16) : (∀ port, HasL3Intf l3Intf port) ∨ HasL3Intf l3Intf port ↔
        HasL3Intf l3Intf port := or_iff_right_of_imp fun all => all port
    simp only [nextHopPrefixes, List.mem_cons, List.not_mem_nil, or_false] at listed
    rcases listed with rfl | rfl | rfl | rfl
    · simp [dstAddr, dstByte, nextHop, FindsL3Intf, always]
    · simp [dstAddr, dstByte, nextHop, FindsL3Intf, always]
    · simp [dstAddr, dstByte, nextHop, FindsL3Intf, cpu]
    · simp [dstAddr, dstByte, nextHop, FindsL3Intf, cpu]
  · have unassigned := (nextHop_always_iff prefixBytes short).not.mpr listed
    simp only [not_forall] at unassigned
    obtain ⟨frame, unknown⟩ := unassigned
    rw [Option.not_isSome_iff_eq_none] at unknown
    constructor
    · -- the port is any that the stack may hold
      intro finds
      refine Or.inl fun port => ?_
      have stale := finds { frame with port := port }
      rw [show dstAddr prefixBytes { frame with port := port } = dstAddr prefixBytes frame from rfl,
        unknown] at stale
      exact stale
    · simp only [nextHopPrefixes, List.mem_cons, List.not_mem_nil, or_false, not_or] at listed
      rintro (all | ⟨first, _⟩ | ⟨second, _⟩ | third | fourth) frame
      · exact all _
      · exact absurd first listed.1
      · exact absurd second listed.2.1
      · exact absurd third listed.2.2.1
      · exact absurd fourth listed.2.2.2

section
variable {s : Agent} {tree : AfiObject} {entry : AfiTreeEntry}
  (found : s.lookup (entry.parentName.getD []) = some tree) (isTree : tree.cls = .tree)
include found isTree

theorem resolved_tree : s.resolved (treeEntryRefs entry) = some [tree] := by
  simp [treeEntryRefs, Agent.resolved, found, isTree]

theorem bind_accesses (l3Intf : UInt16 → Bool) (frame : Frame)
    (short : (entry.prefixBytes.getD []).length ≤ 4) :
    (BrcmTreeEntry.bind s l3Intf frame entry).1 = .copy (entry.prefixBytes.getD []).length ::
      ((if (nextHop (dstAddr (entry.prefixBytes.getD []) frame)).isSome then [.assign] else []) ++
        [.use]) := by
  rw [BrcmTreeEntry.bind, resolved_tree found isTree]
  dsimp only
  rw [if_neg (by omega)]
  split
  · rfl
  · split
    · rfl
    · rfl

theorem bind_safe_iff (l3Intf : UInt16 → Bool) :
    (∀ frame, Access.Safe (entry.prefixBytes.getD []).length false
      (BrcmTreeEntry.bind s l3Intf frame entry).1) ↔
    entry.prefixBytes.getD [] ∈ nextHopPrefixes := by
  by_cases short : (entry.prefixBytes.getD []).length ≤ 4
  · rw [← nextHop_always_iff _ short]
    apply forall_congr'
    intro frame
    rw [bind_accesses found isTree l3Intf frame short]
    cases nextHop (dstAddr (entry.prefixBytes.getD []) frame) with
    | none => simp [Access.Safe]
    | some hop => simp [Access.Safe, short]
  · constructor
    · intro safe
      have copied := safe default
      rw [BrcmTreeEntry.bind, resolved_tree found isTree] at copied
      dsimp only at copied
      rw [if_pos (by omega)] at copied
      exact absurd copied.1 short
    · intro listed
      have lengths : ∀ bytes ∈ nextHopPrefixes, bytes.length = 4 := by decide
      exact absurd (Nat.le_of_eq (lengths _ listed)) short

theorem bind_ending (l3Intf : UInt16 → Bool) (frame : Frame)
    (short : (entry.prefixBytes.getD []).length ≤ 4) :
    (BrcmTreeEntry.bind s l3Intf frame entry).2.Completed l3Intf ↔
      HasL3Intf l3Intf ((nextHop (dstAddr (entry.prefixBytes.getD []) frame)).getD
        (frame.m, frame.port)).2 := by
  rw [BrcmTreeEntry.bind, resolved_tree found isTree, HasL3Intf]
  dsimp only
  rw [if_neg (by omega)]
  split
  · simp [*, Ending.Completed]
  · split
    · simp [*, Ending.Completed]
    · simp [*, Ending.Completed]

theorem bind_overrun_iff (l3Intf : UInt16 → Bool) (frame : Frame) :
    (BrcmTreeEntry.bind s l3Intf frame entry).2 = .overrun ↔
      4 < (entry.prefixBytes.getD []).length := by
  rw [BrcmTreeEntry.bind, resolved_tree found isTree]
  dsimp only
  split
  · simp [*]
  · split
    · simp [*]
    · split
      · simp [*]
      · simp [*]

/-- The `_bind` adds the route, whatever port its variables held before, exactly if there is an
L3 interface for every port it may come to use. -/
theorem bind_completed_iff (l3Intf : UInt16 → Bool) :
    (∀ frame, (BrcmTreeEntry.bind s l3Intf frame entry).2.Completed l3Intf) ↔
      FindsL3Intf l3Intf (entry.prefixBytes.getD []) := by
  by_cases short : (entry.prefixBytes.getD []).length ≤ 4
  · simp only [bind_ending found isTree l3Intf _ short]
    exact hasL3Intf_iff l3Intf _ short
  · have overruns (frame : Frame) : (BrcmTreeEntry.bind s l3Intf frame entry).2 = .overrun :=
      (bind_overrun_iff found isTree l3Intf frame).mpr (Nat.not_le.mp short)
    simp only [overruns, Ending.Completed, forall_const]
    refine ⟨Or.inl, fun finds => finds.resolve_right ?_⟩
    have listed {bytes : Str} (four : bytes.length = 4) : entry.prefixBytes.getD [] ≠ bytes := by
      rintro same
      rw [same] at short
      omega
    rintro (⟨same, _⟩ | ⟨same, _⟩ | same | same)
    · exact listed rfl same
    · exact listed rfl same
    · exact listed rfl same
    · exact listed rfl same

end
end Brcm

/-- The `_bind` of a tree entry whose parent tree is stored is safe on the AFT device exactly if
its prefix length is an `unsigned int` and at most one more than the number of its prefix bytes,
and on the Broadcom device exactly if its prefix is one of the four with a next hop. -/
theorem treeEntry_bind_safe_iff (s : Agent) (entry : AfiTreeEntry) (tree : AfiObject)
    (found : s.lookup (entry.parentName.getD []) = some tree) (isTree : tree.cls = .tree)
    (l3Intf : UInt16 → Bool) :
    ((∃ fuel accesses, Aft.AftTreeEntry.accesses s entry fuel = some accesses ∧
        Access.Safe (entry.prefixBytes.getD []).length false accesses) ↔
      (entry.prefixLength.getD 0).toNat < 4294967296 ∧
        (entry.prefixLength.getD 0).toNat ≤ (entry.prefixBytes.getD []).length + 1) ∧
    ((∀ frame, Access.Safe (entry.prefixBytes.getD []).length false
        (Brcm.BrcmTreeEntry.bind s l3Intf frame entry).1) ↔
      entry.prefixBytes.getD [] ∈ Brcm.nextHopPrefixes) := by
  refine ⟨?_, Brcm.bind_safe_iff found isTree l3Intf⟩
  simp only [Aft.AftTreeEntry.accesses, Brcm.resolved_tree found isTree]
  exact Aft.printPrefix_safe_iff _ _

def ipv4Lpm : AfiObject := ⟨0, ⟨str "afi-tree", 1000001, str "ipv4_lpm", []⟩, .tree, {}⟩

def ipv4LpmAgent : Agent where
  objectsMap := PtrMap.assign ∅ (str "ipv4_lpm") ipv4Lpm

theorem ipv4LpmAgent_lookup : ipv4LpmAgent.lookup (str "ipv4_lpm") = some ipv4Lpm := by
  rw [Agent.lookup, ipv4LpmAgent, PtrMap.deref_assign, if_pos rfl]

theorem treeEntry_bind_safe_iff_short :
    let entry : AfiTreeEntry := {
      parentName := some (str "ipv4_lpm")
      prefixBytes := some [0x2c, 0x2c, 0x2c, 0x02]
      prefixLength := some 3 }
    (∃ fuel accesses, Aft.AftTreeEntry.accesses ipv4LpmAgent entry fuel = some accesses ∧
      Access.Safe 4 false accesses) ∧
    ∀ frame, Access.Safe 4 false
      (Brcm.BrcmTreeEntry.bind ipv4LpmAgent (fun _ => true) frame entry).1 := by
  intro entry
  have safe :=
    treeEntry_bind_safe_iff ipv4LpmAgent entry ipv4Lpm ipv4LpmAgent_lookup rfl fun _ => true
  have size : (entry.prefixBytes.getD []).length = 4 := rfl
  rw [size] at safe
  rw [safe.1, safe.2]
  refine ⟨⟨?_, ?_⟩, List.mem_cons_self⟩
  · decide
  · decide

def ipv4LpmEntry (prefixLength : UInt64) : AfiTreeEntry where
  name := some (str "entry1")
  parentName := some (str "ipv4_lpm")
  targetAfiObject := some (str "etherencap1")
  prefixBytes := some [10, 0, 0, 1]
  prefixLength := some prefixLength

/-- The AFT device reads past the end of an IPv4 prefix of 24 bits and does not end the loop for
the prefix length that -1 becomes; the Broadcom device uses a port it did not assign. -/
theorem treeEntry_bind_unsafe :
    (¬ ∃ fuel accesses,
      Aft.AftTreeEntry.accesses ipv4LpmAgent (ipv4LpmEntry 24) fuel = some accesses ∧
        Access.Safe 4 false accesses) ∧
    (∀ fuel,
      Aft.AftTreeEntry.accesses ipv4LpmAgent (ipv4LpmEntry (UInt64.ofInt (-1))) fuel = none) ∧
    ¬ ∀ frame, Access.Safe 4 false
      (Brcm.BrcmTreeEntry.bind ipv4LpmAgent (fun _ => true) frame (ipv4LpmEntry 32)).1 := by
  have resolved (prefixLength : UInt64) :
      ipv4LpmAgent.resolved (treeEntryRefs (ipv4LpmEntry prefixLength)) = some [ipv4Lpm] :=
    Brcm.resolved_tree ipv4LpmAgent_lookup rfl
  refine ⟨?_, ?_, ?_⟩
  · simp only [Aft.AftTreeEntry.accesses, resolved]
    show ¬ ∃ fuel accesses, Aft.AftTreeEntry.printPrefix 24 fuel 0 = some accesses ∧ _
    rw [Aft.printPrefix_safe_iff]
    exact fun fits => absurd fits.2 (by decide)
  · intro fuel
    simp only [Aft.AftTreeEntry.accesses, resolved]
    exact Aft.printPrefix_forever (by decide) fuel 0
  · have found : ipv4LpmAgent.lookup ((ipv4LpmEntry 32).parentName.getD []) = some ipv4Lpm :=
      ipv4LpmAgent_lookup
    have safe := Brcm.bind_safe_iff found rfl fun _ => true
    show ¬ ∀ frame, Access.Safe ((ipv4LpmEntry 32).prefixBytes.getD []).length false _
    rw [safe]
    simp [ipv4LpmEntry, Brcm.nextHopPrefixes]

end JP4Agent
