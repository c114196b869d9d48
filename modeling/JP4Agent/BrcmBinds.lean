import JP4Agent.AfiBinds
import JP4Agent.AfiCapValues

set_option autoImplicit false

namespace JP4Agent.Brcm
open Agent AfiDevice

/-- The keys of the library that the entry uses. -/
inductive MatchKey where
  | etherType
  | srcMac
  | inetDstAddr
  deriving DecidableEq

inductive ActionKey where
  | vrfId
  deriving DecidableEq

/-- A value or a mask. -/
inductive Operand where
  | number (n : Int)
  | bytes (s : Str)
  deriving DecidableEq

/-- An entry of the library, with all that was added to it. -/
structure Rule where
  group : UInt64
  matchFields : List (MatchKey × Operand × Operand)
  actions : List (ActionKey × UInt64 × UInt64)
  priority : Nat

/-- The getter of an attribute that is unset returns 0 or the empty string. For the MAC
address the library is given where the string starts; `after` is what follows it. -/
def BrcmCapEntry.bind (co : AfiCap) (cemo : AfiCapEntryMatch) (ceao : AfiCapEntryAction)
    (after : Nat → UInt8) : Rule :=
  let sma : CStr := ⟨(cemo.bytes .sourceMacAddress).getD [], after⟩
  { group := co.groupId.getD 0
    matchFields :=
      [(.etherType, .number ((cemo.uint .ethertype).getD 0).toNat, .number 0xffff),
        (.srcMac, .bytes ((List.range 6).map sma.byte), .bytes (List.replicate 6 0xff)),
        (.inetDstAddr, .number ((cemo.uint .destinationIpv4Address).getD 0).toNat,
          .number 0xffffffff)]
    actions := [(.vrfId, ceao.vrf.getD 0, 0xffff)]
    priority := 2 }

/-- The rule of an entry, given what follows the string of the object at each address. -/
def rule (memory : Nat → Nat → UInt8) : Installed → Option Rule
  | ⟨⟨_, _, .capEntry, _⟩,
      [⟨_, _, .cap, co⟩, ⟨addr, _, .capEntryMatch, cemo⟩, ⟨_, _, .capEntryAction, ceao⟩]⟩ =>
    some (BrcmCapEntry.bind co cemo ceao (memory addr))
  | _ => none

def rules (memory : Nat → Nat → UInt8) (installed : List Installed) : List Rule :=
  installed.filterMap (rule memory)

/-- The attributes of the message that the agent neither sets nor reads. -/
inductive OtherAttribute where
  | innerIpProto
  | innerVlanCfi
  | innerVlanDot1p
  | innerVlanId
  | l3InterfaceClass
  | l4Packet
  | outerIpProto
  | outerTpid
  | outerVlanCfi
  | pipelineId
  | sourceTrunk
  | systemPortClass
  | tunnelTerminated
  | virtualSliceGroup
  | vlanInnerPresent
  | vlanOuterPresent
  deriving DecidableEq

structure MatchMessage where
  read : AfiCapEntryMatch
  value : OtherAttribute → Option Int
  mask : OtherAttribute → Option Int

inductive Key where
  | known (attr : AfiCap.Attribute)
  | other (attr : OtherAttribute)
  deriving DecidableEq

/-- The attribute that a key of the library stands for. -/
def MatchKey.key : MatchKey → Key
  | .etherType => .known (.uint .ethertype)
  | .srcMac => .known (.bytes .sourceMacAddress)
  | .inetDstAddr => .known (.uint .destinationIpv4Address)

/-- What the message compares a key with: nothing, if the attribute is unset. -/
def MatchMessage.described (m : MatchMessage) : Key → Option (Operand × Operand)
  | .known (.uint field) =>
    (m.read.uint field).map fun v =>
      (.number v.toNat, .number ((m.read.uintMask field).getD 0).toNat)
  | .known (.bytes field) =>
    (m.read.bytes field).map fun v => (.bytes v, .bytes ((m.read.bytesMask field).getD []))
  | .other attr => (m.value attr).map fun v => (.number v, .number ((m.mask attr).getD 0))

/-- One triple for each attribute that is set, with the mask of the message, and no other. -/
def Rule.Implements (rule : Rule) (m : MatchMessage) : Prop :=
  ∀ key operands, (∃ k, (k, operands) ∈ rule.matchFields ∧ k.key = key) ↔
    m.described key = some operands

/-- The three attributes that the device reads are set, with the masks it uses, and no other. -/
structure MatchMessage.Fixed (m : MatchMessage) : Prop where
  ethertype : (m.read.uint .ethertype).isSome
  ethertypeMask : m.read.uintMask .ethertype = some 0xffff
  sourceMac : ∃ mac, m.read.bytes .sourceMacAddress = some mac ∧ mac.length = 6
  sourceMacMask : m.read.bytesMask .sourceMacAddress = some (List.replicate 6 0xff)
  destination : (m.read.uint .destinationIpv4Address).isSome
  destinationMask : m.read.uintMask .destinationIpv4Address = some 0xffffffff
  uints : ∀ field, field ≠ .ethertype → field ≠ .destinationIpv4Address → m.read.uint field = none
  destinationMac : m.read.bytes .destinationMacAddress = none
  others : ∀ attr, m.value attr = none

theorem eq_some_of_read {o : Option UInt64} {n : UInt64} (nonzero : n ≠ 0)
    (read : Operand.number (o.getD 0).toNat = .number n.toNat) : o = some n := by
  have same : (o.getD 0).toNat = n.toNat := Int.ofNat.inj (Operand.number.inj read)
  cases o with
  | none => exact absurd (UInt64.toNat_inj.mp same).symm nonzero
  | some v => exact congrArg some (UInt64.toNat_inj.mp same)

theorem six_bytes {s : CStr} (six : s.str.length = 6) : (List.range 6).map s.byte = s.str := by
  apply List.ext_getElem
  · rw [List.length_map, List.length_range, six]
  · intro i _ inside
    rw [List.getElem_map, List.getElem_range, CStr.byte, dif_pos inside]

section
variable {co : AfiCap} {ceao : AfiCapEntryAction} {after : Nat → UInt8} {m : MatchMessage}

theorem bind_matchFields (key : Key) (operands : Operand × Operand) :
    (∃ k, (k, operands) ∈ (BrcmCapEntry.bind co m.read ceao after).matchFields ∧ k.key = key) ↔
      key = .known (.uint .ethertype) ∧
          operands = (.number ((m.read.uint .ethertype).getD 0).toNat, .number 0xffff) ∨
        key = .known (.bytes .sourceMacAddress) ∧
          operands = (.bytes ((List.range 6).map
            (CStr.byte ⟨(m.read.bytes .sourceMacAddress).getD [], after⟩)),
              .bytes (List.replicate 6 0xff)) ∨
        key = .known (.uint .destinationIpv4Address) ∧
          operands = (.number ((m.read.uint .destinationIpv4Address).getD 0).toNat,
            .number 0xffffffff) := by
  unfold BrcmCapEntry.bind
  simp only [List.mem_cons, List.not_mem_nil, or_false, Prod.mk.injEq]
  constructor
  · rintro ⟨k, ⟨rfl, same⟩ | ⟨rfl, same⟩ | ⟨rfl, same⟩, rfl⟩
    · exact Or.inl ⟨rfl, same⟩
    · exact Or.inr (Or.inl ⟨rfl, same⟩)
    · exact Or.inr (Or.inr ⟨rfl, same⟩)
  · rintro (⟨rfl, same⟩ | ⟨rfl, same⟩ | ⟨rfl, same⟩)
    · exact ⟨.etherType, Or.inl ⟨rfl, same⟩, rfl⟩
    · exact ⟨.srcMac, Or.inr (Or.inl ⟨rfl, same⟩), rfl⟩
    · exact ⟨.inetDstAddr, Or.inr (Or.inr ⟨rfl, same⟩), rfl⟩

theorem implements_of_fixed (fixed : m.Fixed) :
    (BrcmCapEntry.bind co m.read ceao after).Implements m := by
  obtain ⟨et, ethertype⟩ := Option.isSome_iff_exists.mp fixed.ethertype
  obtain ⟨da, destination⟩ := Option.isSome_iff_exists.mp fixed.destination
  obtain ⟨mac, sourceMac, six⟩ := fixed.sourceMac
  intro key operands
  rw [bind_matchFields, ethertype, destination, sourceMac, Option.getD_some, Option.getD_some,
    Option.getD_some, six_bytes six]
  cases key with
  | known attr =>
      cases attr with
      | uint field =>
          by_cases first : field = .ethertype
          · simp [first, MatchMessage.described, ethertype, fixed.ethertypeMask, eq_comm]
          · by_cases second : field = .destinationIpv4Address
            · simp [second, MatchMessage.described, destination, fixed.destinationMask, eq_comm]
            · simp [first, second, MatchMessage.described, fixed.uints field first second]
      | bytes field =>
          cases field with
          | sourceMacAddress =>
              simp [MatchMessage.described, sourceMac, fixed.sourceMacMask, eq_comm]
          | destinationMacAddress => simp [MatchMessage.described, fixed.destinationMac]
  | other attr => simp [MatchMessage.described, fixed.others attr]

theorem fixed_of_implements (same : (BrcmCapEntry.bind co m.read ceao after).Implements m) :
    m.Fixed := by
  have triples (key : Key) (operands : Operand × Operand) :=
    (bind_matchFields key operands).symm.trans (same key operands)
  have ethertype := (triples _ _).mp (Or.inl ⟨rfl, rfl⟩)
  have sourceMac := (triples _ _).mp (Or.inr (Or.inl ⟨rfl, rfl⟩))
  have destination := (triples _ _).mp (Or.inr (Or.inr ⟨rfl, rfl⟩))
  -- a key that the rule has no triple for
  have absent {key : Key} (first : key ≠ .known (.uint .ethertype))
      (second : key ≠ .known (.bytes .sourceMacAddress))
      (third : key ≠ .known (.uint .destinationIpv4Address)) : m.described key = none := by
    by_contra found
    obtain ⟨operands, found⟩ := Option.ne_none_iff_exists'.mp found
    rcases (triples key operands).mpr found with here | here | here
    · exact first here.1
    · exact second here.1
    · exact third here.1
  obtain ⟨et, hasEthertype, etOperands⟩ := Option.map_eq_some_iff.mp ethertype
  obtain ⟨mac, hasMac, macOperands⟩ := Option.map_eq_some_iff.mp sourceMac
  obtain ⟨da, hasDestination, daOperands⟩ := Option.map_eq_some_iff.mp destination
  refine
    { ethertype := Option.isSome_iff_exists.mpr ⟨et, hasEthertype⟩
      ethertypeMask := eq_some_of_read (n := 0xffff) (by decide) (Prod.mk.inj etOperands).2
      sourceMac := ⟨mac, hasMac, ?_⟩
      sourceMacMask := ?_
      destination := Option.isSome_iff_exists.mpr ⟨da, hasDestination⟩
      destinationMask := eq_some_of_read (n := 0xffffffff) (by decide) (Prod.mk.inj daOperands).2
      uints := fun field first second => ?_
      destinationMac := ?_
      others := fun attr => ?_ }
  · have bytes := Operand.bytes.inj (Prod.mk.inj macOperands).1
    rw [bytes, List.length_map, List.length_range]
  · have mask := Operand.bytes.inj (Prod.mk.inj macOperands).2
    cases set : m.read.bytesMask .sourceMacAddress with
    | none =>
        rw [set] at mask
        exact absurd mask (by decide)
    | some bytes =>
        rw [set] at mask
        exact congrArg some mask
  · have none : m.described (.known (.uint field)) = none :=
      absent (by simpa using first) (by simp) (by simpa using second)
    exact Option.map_eq_none_iff.mp none
  · have none : m.described (.known (.bytes .destinationMacAddress)) = none :=
      absent (by simp) (by simp) (by simp)
    exact Option.map_eq_none_iff.mp none
  · have none : m.described (.other attr) = none := absent (by simp) (by simp) (by simp)
    exact Option.map_eq_none_iff.mp none

theorem implements_iff :
    (BrcmCapEntry.bind co m.read ceao after).Implements m ↔ m.Fixed :=
  ⟨fixed_of_implements, implements_of_fixed⟩

end

section
variable (memory : Nat → Nat → UInt8) (s : Agent) (addr coAddr cemoAddr ceaoAddr : Nat)
  (res coRes cemoRes ceaoRes : AfiJsonResource) (entry : AfiCapEntry) (co : AfiCap)
  (cemo : AfiCapEntryMatch) (ceao : AfiCapEntryAction)
  (parent : s.lookup (entry.parentName.getD []) = some ⟨coAddr, coRes, .cap, co⟩)
  (matchObject : s.lookup (entry.matchObject.getD []) =
    some ⟨cemoAddr, cemoRes, .capEntryMatch, cemo⟩)
  (actionObject : s.lookup (entry.actionObject.getD []) =
    some ⟨ceaoAddr, ceaoRes, .capEntryAction, ceao⟩)
include parent matchObject actionObject

/-- Binding a `cap` entry whose parent, match and action are there installs one rule. -/
theorem bind_rule : ∃ t, bind target ⟨addr, res, .capEntry, entry⟩ s = .ok true t ∧
    rules memory t.installed =
      BrcmCapEntry.bind co cemo ceao (memory cemoAddr) :: rules memory s.installed := by
  obtain ⟨r, t, returned, rfl, binds⟩ := (bind_binds target ⟨addr, res, .capEntry, entry⟩ s).returns
  refine ⟨t, returned, ?_⟩
  have install : target.install s ⟨addr, res, .capEntry, entry⟩ =
      some ⟨⟨addr, res, .capEntry, entry⟩, [⟨coAddr, coRes, .cap, co⟩,
        ⟨cemoAddr, cemoRes, .capEntryMatch, cemo⟩,
        ⟨ceaoAddr, ceaoRes, .capEntryAction, ceao⟩]⟩ := by
    have refs : target.refs .capEntry entry =
        [(entry.parentName.getD [], .cap), (entry.matchObject.getD [], .capEntryMatch),
          (entry.actionObject.getD [], .capEntryAction)] := rfl
    rw [Target.install, refs]
    simp [resolved, parent, matchObject, actionObject]
  rw [binds.installed, List.filterMap_cons, install]
  rfl

/-- It is what the match message describes exactly if that message is of the one form. -/
theorem bind_implements_iff (value mask : OtherAttribute → Option Int) :
    ∃ t made, bind target ⟨addr, res, .capEntry, entry⟩ s = .ok true t ∧
      rules memory t.installed = made :: rules memory s.installed ∧
      (made.Implements ⟨cemo, value, mask⟩ ↔ MatchMessage.Fixed ⟨cemo, value, mask⟩) := by
  obtain ⟨t, returned, installed⟩ := bind_rule memory s addr coAddr cemoAddr ceaoAddr res coRes
    cemoRes ceaoRes entry co cemo ceao parent matchObject actionObject
  exact ⟨t, _, returned, installed, implements_iff (m := ⟨cemo, value, mask⟩)⟩

end

/-- A store with a cap, an action and a match object, and an entry made of them. -/
def capStore (cemo : AfiCapEntryMatch) : Agent where
  objectsMap :=
    (((∅ : PtrMap Str AfiObject).assign
      (str "cap") ⟨0, ⟨str "afi-cap", 1, str "cap", []⟩, .cap, {}⟩).assign
        (str "match")
          ⟨1, ⟨str "afi-cap-entry-match", 2, str "match", []⟩, .capEntryMatch, cemo⟩).assign
        (str "action") ⟨2, ⟨str "afi-cap-entry-action", 3, str "action", []⟩, .capEntryAction, {}⟩
  nextAddr := 3

def capStoreEntry : AfiCapEntry where
  parentName := some (str "cap")
  matchObject := some (str "match")
  actionObject := some (str "action")

theorem capStore_lookups (cemo : AfiCapEntryMatch) :
    (capStore cemo).lookup (str "cap") =
        some ⟨0, ⟨str "afi-cap", 1, str "cap", []⟩, .cap, {}⟩ ∧
      (capStore cemo).lookup (str "match") =
        some ⟨1, ⟨str "afi-cap-entry-match", 2, str "match", []⟩, .capEntryMatch, cemo⟩ ∧
      (capStore cemo).lookup (str "action") =
        some ⟨2, ⟨str "afi-cap-entry-action", 3, str "action", []⟩, .capEntryAction, {}⟩ := by
  unfold Agent.lookup capStore
  refine ⟨?_, ?_, ?_⟩
  · rw [PtrMap.deref_assign, if_neg (by decide), PtrMap.deref_assign, if_neg (by decide),
      PtrMap.deref_assign, if_pos rfl]
  · rw [PtrMap.deref_assign, if_neg (by decide), PtrMap.deref_assign, if_pos rfl]
  · rw [PtrMap.deref_assign, if_pos rfl]

def spineMatch : AfiCapEntryMatch where
  uint := fun field =>
    if field = .ethertype then some 0x0800
    else if field = .destinationIpv4Address then some 0x0b0b0b01 else none
  uintMask := fun field =>
    if field = .ethertype then some 0xffff
    else if field = .destinationIpv4Address then some 0xffffffff else none
  bytes := fun field =>
    if field = .sourceMacAddress then some [0x22, 0xa1, 0xa2, 0xa3, 0xa4, 0xa5] else none
  bytesMask := fun field =>
    if field = .sourceMacAddress then some (List.replicate 6 0xff) else none

theorem bind_implements_iff_spine : ∃ t made,
    bind target ⟨3, ⟨str "afi-cap-entry", 4, str "entry", []⟩, .capEntry, capStoreEntry⟩
        (capStore spineMatch) = .ok true t ∧
      rules (fun _ _ => 0) t.installed =
        made :: rules (fun _ _ => 0) (capStore spineMatch).installed ∧
      (made.Implements ⟨spineMatch, fun _ => none, fun _ => none⟩ ↔
        MatchMessage.Fixed ⟨spineMatch, fun _ => none, fun _ => none⟩) := by
  obtain ⟨parent, matchObject, actionObject⟩ := capStore_lookups spineMatch
  exact bind_implements_iff (fun _ _ => 0) (capStore spineMatch) 3 0 1 2 _ _ _ _ capStoreEntry {}
    spineMatch {} parent matchObject actionObject _ _

/-- A match on ARP alone. -/
def arpMatch : AfiCapEntryMatch where
  uint := fun field => if field = .ethertype then some 0x0806 else none
  uintMask := fun field => if field = .ethertype then some 0xffff else none

/-- The rule also asks for the source and the destination to be zero. -/
theorem arp_rule_narrowed : ∃ s t made,
    bind target ⟨3, ⟨str "afi-cap-entry", 4, str "entry", []⟩, .capEntry, capStoreEntry⟩ s =
        .ok true t ∧
      s.lookup (str "match") =
        some ⟨1, ⟨str "afi-cap-entry-match", 2, str "match", []⟩, .capEntryMatch, arpMatch⟩ ∧
      rules (fun _ _ => 0) t.installed = made :: rules (fun _ _ => 0) s.installed ∧
      (.inetDstAddr, .number 0, .number 0xffffffff) ∈ made.matchFields ∧
      ¬ made.Implements ⟨arpMatch, fun _ => none, fun _ => none⟩ := by
  obtain ⟨parent, matchObject, actionObject⟩ := capStore_lookups arpMatch
  obtain ⟨t, returned, installed⟩ := bind_rule (fun _ _ => 0) (capStore arpMatch) 3 0 1 2
    ⟨str "afi-cap-entry", 4, str "entry", []⟩ _ _ _ capStoreEntry {} arpMatch {} parent matchObject
    actionObject
  refine ⟨capStore arpMatch, t, _, returned, matchObject, installed, ?_, ?_⟩
  · exact List.mem_cons_of_mem _ (List.mem_cons_of_mem _ List.mem_cons_self)
  · intro same
    have fixed := fixed_of_implements (m := ⟨arpMatch, fun _ => none, fun _ => none⟩) same
    exact absurd fixed.destination (by decide)

end JP4Agent.Brcm
