import JP4Agent.AfiFieldWidths

set_option autoImplicit false

namespace JP4Agent.AfiCap

/-- The least and the greatest number of a leaf. The leaf of the mask has the same type. -/
def leaf : UintAttribute → Nat × Nat
  | .sourcePort => (0, 255)
  | .destinationPort => (0, 255)
  | .ethertype => (0, 65535)
  | .outerVlanId => (1, 4095)
  | .outerVlanDot1p => (0, 7)
  | .ipv4Ttl => (0, 255)
  | .ipProtocol => (0, 255)
  | .tos => (0, 255)
  | .sourceIpv4Address => (0, 4294967295)
  | .destinationIpv4Address => (0, 4294967295)
  | .l4SourcePort => (0, 65535)
  | .l4DestinationPort => (0, 65535)
  | .ingressClassId => (0, 255)
  | .virtualRoutingAndForwardingId => (0, 4294967295)
  | .arpTargetIpv4Address => (0, 4294967295)
  | .icmpType => (0, 255)

def InLeaf (field : UintAttribute) (n : Nat) : Prop := (leaf field).1 ≤ n ∧ n ≤ (leaf field).2

/-- Every number of the object is one of its leaf. -/
def Conforms (m : AfiCapEntryMatch) : Prop :=
  ∀ field v, (m.uint field = some v → InLeaf field v.toNat) ∧
    (m.uintMask field = some v → InLeaf field v.toNat)

def FitsWidth (bitWidth : UInt32) (bytes : Str) : Prop :=
  bytes.length = byteLength bitWidth ∧ bigEndian bytes < 2 ^ bitWidth.toNat

/-- The number that is read from the bytes: three of them are shifted by one. -/
def numberRead (bitWidth : UInt32) (bytes : Str) : Nat :=
  bigEndian bytes * if 16 < bitWidth ∧ bitWidth ≤ 24 then 256 else 1

/-- The value and the mask of a field are numbers of the leaf. A field that is not ternary
has a mask of 32 ones. -/
def FieldInLeaf (field : UintAttribute) (bitWidth : UInt32) (mf : AfiTEntryMatchField) : Prop :=
  (field = .l4SourcePort ∨ InLeaf field (numberRead bitWidth mf.value.str)) ∧
    if mf.type = .ternary then InLeaf field (numberRead bitWidth mf.mask.str)
    else (leaf field).2 = 4294967295

theorem inLeaf_ones_iff (field : UintAttribute) :
    InLeaf field (0xffffffff : UInt32).toNat ↔ (leaf field).2 = 4294967295 := by
  unfold InLeaf
  cases field <;> decide

section
variable {table : P4InfoTable} {bitWidth : UInt32} {mf : AfiTEntryMatchField}

theorem written_inLeaf_iff {name : Str} {field : UintAttribute}
    (found : attributeOf name bitWidth = some (.uint field))
    (value : FitsWidth bitWidth mf.value.str)
    (mask : mf.type = .ternary → FitsWidth bitWidth mf.mask.str) :
    FieldInLeaf field bitWidth mf ↔
      (field = .l4SourcePort ∨ InLeaf field (readUint bitWidth mf.value).toNat) ∧
        InLeaf field (if mf.type = .ternary then readUint bitWidth mf.mask
          else 0xffffffff : UInt32).toNat := by
  obtain ⟨_, nonzero, small⟩ := attributeOf_iff.mp found
  have positive : 1 ≤ bitWidth := by
    rw [UInt32.le_iff_toNat_le]
    have : bitWidth.toNat ≠ 0 := fun zero => nonzero (UInt32.toNat_inj.mp zero)
    show 1 ≤ bitWidth.toNat
    omega
  unfold FieldInLeaf numberRead
  rw [readUint_toNat positive small value.1]
  by_cases ternary : mf.type = .ternary
  · rw [if_pos ternary, if_pos ternary, readUint_toNat positive small (mask ternary).1]
  · rw [if_neg ternary, if_neg ternary, inLeaf_ones_iff]

end

/-- The match object conforms to the data model exactly if the last field of each attribute
is one whose numbers are of the leaf. -/
theorem matchObj_conforms_iff (table : P4InfoTable) (mfs : List AfiTEntryMatchField)
    (m : AfiCapEntryMatch) (made : matchObj table {} mfs = some m)
    (fits : ∀ mf ∈ mfs, ∀ name bitWidth, table.matchFieldInfo mf.id = some (name, bitWidth) →
      FitsWidth bitWidth mf.value.str ∧
        (mf.type = .ternary → FitsWidth bitWidth mf.mask.str)) :
    Conforms m ↔
      ∀ pre mf post name bitWidth field, mfs = pre ++ mf :: post →
        table.matchFieldInfo mf.id = some (name, bitWidth) →
        attributeOf name bitWidth = some (.uint field) →
        (∀ later ∈ post, fieldAttribute table later ≠ some (.uint field)) →
          FieldInLeaf field bitWidth mf := by
  constructor
  · rintro conforms pre mf post name bitWidth field rfl known found last
    obtain ⟨value, mask⟩ := fits mf (List.mem_append_right pre List.mem_cons_self) name bitWidth
      known
    rw [written_inLeaf_iff found value mask]
    constructor
    · by_cases port : field = .l4SourcePort
      · exact Or.inl port
      · have held := valueOf_last made known found (fun same => port (Attribute.uint.inj same)) last
        obtain ⟨v, held, same⟩ := Option.map_eq_some_iff.mp held
        have inLeaf := (conforms field v).1 held
        rw [Datum.uint.inj same, UInt32.toNat_toUInt64] at inLeaf
        exact Or.inr inLeaf
    · have held := maskOf_last made known found last
      obtain ⟨v, held, same⟩ := Option.map_eq_some_iff.mp held
      have inLeaf := (conforms field v).2 held
      rw [Datum.uint.inj same, UInt32.toNat_toUInt64] at inLeaf
      exact inLeaf
  · intro fields field v
    obtain ⟨values, masks⟩ := matchObj_values table mfs made
    constructor
    · intro held
      have found : valueOf m (.uint field) = some (.uint v) := congrArg (Option.map Datum.uint) held
      rw [values, valueOf_empty] at found
      obtain ⟨pre, mf, post, rfl, wrote, last⟩ := overwritten_filterMap_found found
      obtain ⟨name, bitWidth, known, named, branch, different, same⟩ := valueWrite_iff.mp wrote
      have stands := attributeOf_iff.mpr ⟨named, branch⟩
      obtain ⟨value, mask⟩ :=
        fits mf (List.mem_append_right pre List.mem_cons_self) name bitWidth known
      have inLeaf := fields pre mf post name bitWidth field rfl known stands
        fun later member stands => by
          obtain ⟨datum, wrote⟩ := value_of_fieldAttribute stands different
          exact last later member _ wrote rfl
      rw [written_inLeaf_iff stands value mask] at inLeaf
      rw [Datum.uint.inj same, UInt32.toNat_toUInt64]
      exact inLeaf.1.resolve_left fun port => different (congrArg _ port)
    · intro held
      have found : maskOf m (.uint field) = some (.uint v) := congrArg (Option.map Datum.uint) held
      rw [masks, maskOf_empty] at found
      obtain ⟨pre, mf, post, rfl, wrote, last⟩ := overwritten_filterMap_found found
      obtain ⟨name, bitWidth, known, named, branch, same⟩ := maskWrite_iff.mp wrote
      have stands := attributeOf_iff.mpr ⟨named, branch⟩
      obtain ⟨value, mask⟩ :=
        fits mf (List.mem_append_right pre List.mem_cons_self) name bitWidth known
      have inLeaf := fields pre mf post name bitWidth field rfl known stands
        fun later member stands => by
          obtain ⟨datum, wrote⟩ := mask_of_fieldAttribute stands
          exact last later member _ wrote rfl
      rw [written_inLeaf_iff stands value mask] at inLeaf
      rw [Datum.uint.inj same, UInt32.toNat_toUInt64]
      exact inLeaf.2

/-- The exact EtherType of the tests' class id entry. -/
def exactEtherType : AfiTEntryMatchField :=
  ⟨1, .exact, ⟨[8, 0], fun _ => 0⟩, 0, ⟨[], fun _ => 0⟩⟩

theorem matchObj_conforms_iff_spine : ∃ m,
    let mfs := Spine.mfs Spine.first.1 Spine.first.2
    matchObj Spine.vrfTable {} mfs = some m ∧
      (Conforms m ↔
        ∀ pre mf post name bitWidth field, mfs = pre ++ mf :: post →
          Spine.vrfTable.matchFieldInfo mf.id = some (name, bitWidth) →
          attributeOf name bitWidth = some (.uint field) →
          (∀ later ∈ post, fieldAttribute Spine.vrfTable later ≠ some (.uint field)) →
            FieldInLeaf field bitWidth mf) := by
  refine ⟨_, rfl,
    matchObj_conforms_iff Spine.vrfTable _ _ rfl fun mf member name bitWidth known => ?_⟩
  simp only [Spine.mfs, List.mem_cons, List.not_mem_nil, or_false] at member
  rcases member with rfl | rfl | rfl
  · obtain ⟨rfl, rfl⟩ := Prod.mk.inj (Option.some.inj known)
    exact ⟨⟨rfl, by decide⟩, fun _ => ⟨rfl, by decide⟩⟩
  · obtain ⟨rfl, rfl⟩ := Prod.mk.inj (Option.some.inj known)
    exact ⟨⟨rfl, by decide⟩, fun _ => ⟨rfl, by decide⟩⟩
  · obtain ⟨rfl, rfl⟩ := Prod.mk.inj (Option.some.inj known)
    exact ⟨⟨rfl, by decide⟩, fun _ => ⟨rfl, by decide⟩⟩

theorem exactMask_outside : ∃ m,
    matchObj Spine.vrfTable {} [exactEtherType] = some m ∧
      FitsWidth 16 exactEtherType.value.str ∧
      Spine.vrfTable.matchFieldInfo exactEtherType.id = some (str "hdr.ethernet.ether_type", 16) ∧
      m.uintMask .ethertype = some 4294967295 ∧ ¬ Conforms m := by
  refine ⟨_, rfl, ⟨rfl, by decide⟩, rfl, rfl, fun conforms => ?_⟩
  have inLeaf := ((conforms .ethertype 4294967295).2 rfl).2
  exact absurd inLeaf (by decide)

end JP4Agent.AfiCap
