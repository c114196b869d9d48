import JP4Agent.AfiCapValues

set_option autoImplicit false

namespace JP4Agent.AfiCap

/-- The attribute that the dispatch has for a name, in the branch of some width. -/
def assigned (name : Str) : Option Attribute :=
  ((uintAttribute name).map .uint).or ((bytesAttribute name).map .bytes)

/-- The widths of the branch that an attribute is dealt with in. -/
def InBranch : Attribute → UInt32 → Prop
  | .uint _, bitWidth => bitWidth ≠ 0 ∧ bitWidth ≤ 32
  | .bytes _, bitWidth => 32 < bitWidth ∧ bitWidth ≤ 64

theorem uintName_ne_bytesName (field : UintAttribute) (field' : BytesAttribute) :
    uintName field ≠ bytesName field' := by
  cases field <;> cases field' <;> decide

theorem assigned_uint_iff {name : Str} {field : UintAttribute} :
    assigned name = some (.uint field) ↔ uintAttribute name = some field := by
  unfold assigned
  cases named : uintAttribute name with
  | none => simp
  | some other => simp

theorem assigned_bytes_iff {name : Str} {field : BytesAttribute} :
    assigned name = some (.bytes field) ↔ bytesAttribute name = some field := by
  unfold assigned
  cases named : uintAttribute name with
  | none => simp
  | some other =>
      simp only [Option.map_some, Option.some_or, Option.some.injEq, reduceCtorEq, false_iff]
      intro named'
      exact uintName_ne_bytesName other field ((eq_uintName named).symm.trans (eq_bytesName named'))

theorem eq_of_assigned {name : Str} {attr : Attribute} (named : assigned name = some attr) :
    name = attributeName attr := by
  cases attr with
  | uint field => exact eq_uintName (assigned_uint_iff.mp named)
  | bytes field => exact eq_bytesName (assigned_bytes_iff.mp named)

/-- The attribute of a field is the one of its name, if the width is of that branch. -/
theorem attributeOf_iff {name : Str} {bitWidth : UInt32} {attr : Attribute} :
    attributeOf name bitWidth = some attr ↔ assigned name = some attr ∧ InBranch attr bitWidth := by
  unfold attributeOf
  by_cases zero : bitWidth = 0
  · rw [if_pos zero]
    cases attr <;> simp [InBranch, zero]
  · rw [if_neg zero]
    by_cases small : bitWidth ≤ 32
    · rw [if_pos small]
      cases attr with
      | uint field => simp [assigned_uint_iff, InBranch, zero, small]
      | bytes field => simp [InBranch, UInt32.not_lt.mpr small]
    · rw [if_neg small]
      have large : 32 < bitWidth := UInt32.not_le.mp small
      by_cases upTo : bitWidth ≤ 64
      · rw [if_pos upTo]
        cases attr with
        | uint field => simp [InBranch, small]
        | bytes field => simp [assigned_bytes_iff, InBranch, large, upTo]
      · rw [if_neg upTo]
        cases attr <;> simp [InBranch, small, upTo]

theorem attributeOf_uint {name : Str} {bitWidth : UInt32} {field : UintAttribute}
    (named : uintAttribute name = some field) (nonzero : bitWidth ≠ 0) (small : bitWidth ≤ 32) :
    attributeOf name bitWidth = some (.uint field) :=
  attributeOf_iff.mpr ⟨assigned_uint_iff.mpr named, nonzero, small⟩

/-- Each field has its value and its mask under its own attribute, and no attribute is set
that is not the one of a field. -/
structure Recorded (table : P4InfoTable) (mfs : List AfiTEntryMatchField)
    (m : AfiCapEntryMatch) : Prop where
  fields : ∀ mf ∈ mfs, ∀ name bitWidth attr,
    table.matchFieldInfo mf.id = some (name, bitWidth) → assigned name = some attr →
      valueOf m attr = some (decodedValue bitWidth mf attr) ∧
        maskOf m attr = some (decodedMask bitWidth mf attr)
  others : ∀ attr,
    (∀ mf ∈ mfs, ∀ name bitWidth, table.matchFieldInfo mf.id = some (name, bitWidth) →
      assigned name ≠ some attr) →
        valueOf m attr = none ∧ maskOf m attr = none

section
variable {table : P4InfoTable} {mf : AfiTEntryMatchField} {w : Attribute × Datum}

theorem valueWrite_iff : valueWrite table mf = some w ↔
    ∃ name bitWidth, table.matchFieldInfo mf.id = some (name, bitWidth) ∧
      assigned name = some w.1 ∧ InBranch w.1 bitWidth ∧ w.1 ≠ .uint .l4SourcePort ∧
        w.2 = decodedValue bitWidth mf w.1 := by
  rcases w with ⟨attr, datum⟩
  unfold valueWrite setAttribute
  cases table.matchFieldInfo mf.id with
  | none => simp
  | some info =>
      rcases info with ⟨name, bitWidth⟩
      simp only [Option.bind_some, Option.map_eq_some_iff, Option.filter_eq_some_iff,
        attributeOf_iff, decide_eq_true_eq, Prod.mk.injEq, Option.some.injEq]
      constructor
      · rintro ⟨found, ⟨⟨named, branch⟩, different⟩, rfl, rfl⟩
        exact ⟨name, bitWidth, ⟨rfl, rfl⟩, named, branch, different, rfl⟩
      · rintro ⟨_, _, ⟨rfl, rfl⟩, named, branch, different, rfl⟩
        exact ⟨attr, ⟨⟨named, branch⟩, different⟩, rfl, rfl⟩

theorem maskWrite_iff : maskWrite table mf = some w ↔
    ∃ name bitWidth, table.matchFieldInfo mf.id = some (name, bitWidth) ∧
      assigned name = some w.1 ∧ InBranch w.1 bitWidth ∧ w.2 = decodedMask bitWidth mf w.1 := by
  rcases w with ⟨attr, datum⟩
  unfold maskWrite
  cases table.matchFieldInfo mf.id with
  | none => simp
  | some info =>
      rcases info with ⟨name, bitWidth⟩
      simp only [Option.bind_some, Option.map_eq_some_iff, attributeOf_iff, Prod.mk.injEq,
        Option.some.injEq]
      constructor
      · rintro ⟨found, ⟨named, branch⟩, rfl, rfl⟩
        exact ⟨name, bitWidth, ⟨rfl, rfl⟩, named, branch, rfl⟩
      · rintro ⟨_, _, ⟨rfl, rfl⟩, named, branch, rfl⟩
        exact ⟨attr, ⟨named, branch⟩, rfl, rfl⟩

end

/-- The attribute that a field of the table stands for. -/
def fieldAttribute (table : P4InfoTable) (mf : AfiTEntryMatchField) : Option Attribute :=
  (table.matchFieldInfo mf.id).bind fun info => attributeOf info.1 info.2

theorem fieldAttribute_of_value {table : P4InfoTable} {mf : AfiTEntryMatchField}
    {w : Attribute × Datum} (wrote : valueWrite table mf = some w) :
    fieldAttribute table mf = some w.1 := by
  obtain ⟨name, bitWidth, known, named, branch, _⟩ := valueWrite_iff.mp wrote
  rw [fieldAttribute, known]
  exact attributeOf_iff.mpr ⟨named, branch⟩

theorem fieldAttribute_of_mask {table : P4InfoTable} {mf : AfiTEntryMatchField}
    {w : Attribute × Datum} (wrote : maskWrite table mf = some w) :
    fieldAttribute table mf = some w.1 := by
  obtain ⟨name, bitWidth, known, named, branch, _⟩ := maskWrite_iff.mp wrote
  rw [fieldAttribute, known]
  exact attributeOf_iff.mpr ⟨named, branch⟩

theorem value_of_fieldAttribute {table : P4InfoTable} {mf : AfiTEntryMatchField} {attr : Attribute}
    (stands : fieldAttribute table mf = some attr) (different : attr ≠ .uint .l4SourcePort) :
    ∃ datum, valueWrite table mf = some (attr, datum) := by
  obtain ⟨⟨name, bitWidth⟩, known, found⟩ := Option.bind_eq_some_iff.mp stands
  obtain ⟨named, branch⟩ := attributeOf_iff.mp found
  exact ⟨decodedValue bitWidth mf attr,
    valueWrite_iff.mpr ⟨name, bitWidth, known, named, branch, different, rfl⟩⟩

theorem mask_of_fieldAttribute {table : P4InfoTable} {mf : AfiTEntryMatchField} {attr : Attribute}
    (stands : fieldAttribute table mf = some attr) :
    ∃ datum, maskWrite table mf = some (attr, datum) := by
  obtain ⟨⟨name, bitWidth⟩, known, found⟩ := Option.bind_eq_some_iff.mp stands
  obtain ⟨named, branch⟩ := attributeOf_iff.mp found
  exact ⟨decodedMask bitWidth mf attr,
    maskWrite_iff.mpr ⟨name, bitWidth, known, named, branch, rfl⟩⟩

/-- A field stands for the attribute that the dispatch has for its name. -/
theorem assigned_of_fieldAttribute {table : P4InfoTable} {mf : AfiTEntryMatchField}
    {attr : Attribute} (stands : fieldAttribute table mf = some attr) :
    ∃ name bitWidth, table.matchFieldInfo mf.id = some (name, bitWidth) ∧
      assigned name = some attr := by
  obtain ⟨⟨name, bitWidth⟩, known, found⟩ := Option.bind_eq_some_iff.mp stands
  exact ⟨name, bitWidth, known, (attributeOf_iff.mp found).1⟩

/-- A field of another name stands for another attribute. -/
theorem fieldAttribute_ne {table : P4InfoTable} {mf : AfiTEntryMatchField} {name : Str}
    {attr : Attribute} (named : assigned name = some attr)
    (different : fieldName table mf ≠ some name) : fieldAttribute table mf ≠ some attr := by
  intro same
  obtain ⟨name', bitWidth, known, named'⟩ := assigned_of_fieldAttribute same
  apply different
  rw [fieldName, known, Option.map_some, eq_of_assigned named', eq_of_assigned named]

section
variable {table : P4InfoTable} {mfs : List AfiTEntryMatchField}

/-- Among fields with different names only one stands for an attribute. -/
theorem eq_of_same_attribute (distinct : (mfs.filterMap (fieldName table)).Nodup)
    {mf mf' : AfiTEntryMatchField} (first : mf ∈ mfs) (second : mf' ∈ mfs) {name name' : Str}
    {bitWidth bitWidth' : UInt32} {attr : Attribute}
    (known : table.matchFieldInfo mf.id = some (name, bitWidth))
    (known' : table.matchFieldInfo mf'.id = some (name', bitWidth'))
    (named : assigned name = some attr) (named' : assigned name' = some attr) : mf = mf' := by
  by_contra different
  have names : name ≠ name' := by
    apply ne_of_nodup_filterMap distinct first second different
    · rw [fieldName, known]
      rfl
    · rw [fieldName, known']
      rfl
  exact names ((eq_of_assigned named).trans (eq_of_assigned named').symm)

section
variable {write : AfiTEntryMatchField → Option (Attribute × Datum)}
  (own : ∀ mf w, write mf = some w → fieldAttribute table mf = some w.1)
include own

/-- Among fields with different names none overwrites what another wrote. -/
theorem writes_kept (distinct : (mfs.filterMap (fieldName table)).Nodup)
    (f : Attribute → Option Datum) :
    (∀ mf ∈ mfs, ∃ w, write mf = some w ∧
      overwritten f (mfs.filterMap write) w.1 = some w.2) ↔
        ∀ mf ∈ mfs, (write mf).isSome := by
  rw [overwritten_filterMap_iff]
  apply and_iff_left
  intro mf member mf' member' w w' wrote wrote' same
  obtain ⟨name, bitWidth, known, named⟩ := assigned_of_fieldAttribute (own mf w wrote)
  obtain ⟨name', bitWidth', known', named'⟩ := assigned_of_fieldAttribute (own mf' w' wrote')
  rw [same] at named
  have one := eq_of_same_attribute distinct member member' known known' named named'
  rw [one, wrote', Option.some.injEq] at wrote
  rw [wrote]

theorem write_absent {attr : Attribute} (absent : ∀ mf ∈ mfs, fieldAttribute table mf ≠ some attr)
    (f : Attribute → Option Datum) : overwritten f (mfs.filterMap write) attr = f attr := by
  apply overwritten_filterMap_absent
  intro mf member w wrote same
  exact absent mf member ((own mf w wrote).trans (congrArg some same))

/-- The last field of an attribute is the one that is found. -/
theorem write_last {pre post : List AfiTEntryMatchField} {mf : AfiTEntryMatchField}
    {attr : Attribute} {datum : Datum} (wrote : write mf = some (attr, datum))
    (last : ∀ later ∈ post, fieldAttribute table later ≠ some attr)
    (f : Attribute → Option Datum) :
    overwritten f ((pre ++ mf :: post).filterMap write) attr = some datum := by
  apply overwritten_filterMap_last f pre wrote
  intro later member w wrote same
  exact last later member ((own later w wrote).trans (congrArg some same))

end

theorem values_recorded (distinct : (mfs.filterMap (fieldName table)).Nodup) {m : AfiCapEntryMatch}
    (made : matchObj table {} mfs = some m) :
    (∀ mf ∈ mfs, ∃ w, valueWrite table mf = some w ∧ valueOf m w.1 = some w.2) ↔
      ∀ mf ∈ mfs, (valueWrite table mf).isSome := by
  rw [(matchObj_values table mfs made).1]
  exact writes_kept (fun _ _ => fieldAttribute_of_value) distinct _

theorem masks_recorded (distinct : (mfs.filterMap (fieldName table)).Nodup) {m : AfiCapEntryMatch}
    (made : matchObj table {} mfs = some m) :
    (∀ mf ∈ mfs, ∃ w, maskWrite table mf = some w ∧ maskOf m w.1 = some w.2) ↔
      ∀ mf ∈ mfs, (maskWrite table mf).isSome := by
  rw [(matchObj_values table mfs made).2]
  exact writes_kept (fun _ _ => fieldAttribute_of_mask) distinct _

theorem others_unset {m : AfiCapEntryMatch} (made : matchObj table {} mfs = some m)
    {attr : Attribute}
    (absent : ∀ mf ∈ mfs, ∀ name bitWidth, table.matchFieldInfo mf.id = some (name, bitWidth) →
      assigned name ≠ some attr) : valueOf m attr = none ∧ maskOf m attr = none := by
  obtain ⟨values, masks⟩ := matchObj_values table mfs made
  have other : ∀ mf ∈ mfs, fieldAttribute table mf ≠ some attr := by
    intro mf member stands
    obtain ⟨name, bitWidth, known, named⟩ := assigned_of_fieldAttribute stands
    exact absent mf member name bitWidth known named
  rw [values, masks, valueOf_empty, maskOf_empty]
  constructor
  · exact write_absent (fun _ _ => fieldAttribute_of_value) other _
  · exact write_absent (fun _ _ => fieldAttribute_of_mask) other _

theorem valueOf_last {pre post : List AfiTEntryMatchField} {mf : AfiTEntryMatchField}
    {m : AfiCapEntryMatch} (made : matchObj table {} (pre ++ mf :: post) = some m) {name : Str}
    {bitWidth : UInt32} {attr : Attribute}
    (known : table.matchFieldInfo mf.id = some (name, bitWidth))
    (found : attributeOf name bitWidth = some attr) (different : attr ≠ .uint .l4SourcePort)
    (last : ∀ later ∈ post, fieldAttribute table later ≠ some attr) :
    valueOf m attr = some (decodedValue bitWidth mf attr) := by
  obtain ⟨named, branch⟩ := attributeOf_iff.mp found
  have wrote : valueWrite table mf = some (attr, decodedValue bitWidth mf attr) :=
    valueWrite_iff.mpr ⟨name, bitWidth, known, named, branch, different, rfl⟩
  rw [(matchObj_values table _ made).1]
  exact write_last (fun _ _ => fieldAttribute_of_value) wrote last _

theorem maskOf_last {pre post : List AfiTEntryMatchField} {mf : AfiTEntryMatchField}
    {m : AfiCapEntryMatch} (made : matchObj table {} (pre ++ mf :: post) = some m) {name : Str}
    {bitWidth : UInt32} {attr : Attribute}
    (known : table.matchFieldInfo mf.id = some (name, bitWidth))
    (found : attributeOf name bitWidth = some attr)
    (last : ∀ later ∈ post, fieldAttribute table later ≠ some attr) :
    maskOf m attr = some (decodedMask bitWidth mf attr) := by
  obtain ⟨named, branch⟩ := attributeOf_iff.mp found
  have wrote : maskWrite table mf = some (attr, decodedMask bitWidth mf attr) :=
    maskWrite_iff.mpr ⟨name, bitWidth, known, named, branch, rfl⟩
  rw [(matchObj_values table _ made).2]
  exact write_last (fun _ _ => fieldAttribute_of_mask) wrote last _

/-- Fields with names of the dispatch, no name twice, are recorded exactly if the width of
each is of its branch and none is the layer 4 source port. -/
theorem matchFields_recorded_iff (table : P4InfoTable) (mfs : List AfiTEntryMatchField)
    (supported : ∀ mf ∈ mfs, ∃ name bitWidth attr,
      table.matchFieldInfo mf.id = some (name, bitWidth) ∧ assigned name = some attr)
    (distinct : (mfs.filterMap (fieldName table)).Nodup) :
    (∃ m, matchObj table {} mfs = some m ∧ Recorded table mfs m) ↔
      ∀ mf ∈ mfs, ∀ name bitWidth, table.matchFieldInfo mf.id = some (name, bitWidth) →
        name ≠ str "local_metadata.l4_src_port" ∧
          ∀ attr, assigned name = some attr → InBranch attr bitWidth := by
  constructor
  · rintro ⟨m, made, recorded⟩ mf member name bitWidth known
    obtain ⟨_, _, attr, same, named⟩ := supported mf member
    rw [known, Option.some.injEq, Prod.mk.injEq] at same
    rw [← same.1] at named
    -- a value that is there was written by the field itself
    have held := (recorded.fields mf member name bitWidth attr known named).1
    rw [(matchObj_values table mfs made).1, valueOf_empty] at held
    obtain ⟨pre, mf', post, rfl, wrote, _⟩ := overwritten_filterMap_found held
    obtain ⟨name', bitWidth', known', named', branch, different, _⟩ := valueWrite_iff.mp wrote
    have one := eq_of_same_attribute distinct member
      (List.mem_append_right pre List.mem_cons_self) known known' named named'
    rw [← one, known, Option.some.injEq, Prod.mk.injEq] at known'
    refine ⟨fun port => ?_, fun attr' named' => ?_⟩
    · rw [port] at named
      have itself : assigned (str "local_metadata.l4_src_port") = some (.uint .l4SourcePort) := rfl
      rw [itself, Option.some.injEq] at named
      exact different named.symm
    · rw [named, Option.some.injEq] at named'
      rw [← named', known'.2]
      exact branch
  · intro fits
    obtain ⟨m, made⟩ := (matchObj_some_iff table mfs {}).mpr fun mf member => by
      obtain ⟨name, bitWidth, _, known, _⟩ := supported mf member
      exact ⟨_, known⟩
    have written : ∀ mf ∈ mfs, ∃ name bitWidth attr,
        table.matchFieldInfo mf.id = some (name, bitWidth) ∧ assigned name = some attr ∧
          valueWrite table mf = some (attr, decodedValue bitWidth mf attr) ∧
            maskWrite table mf = some (attr, decodedMask bitWidth mf attr) := by
      intro mf member
      obtain ⟨name, bitWidth, attr, known, named⟩ := supported mf member
      obtain ⟨notPort, branch⟩ := fits mf member name bitWidth known
      have different : attr ≠ .uint .l4SourcePort := by
        intro port
        rw [port] at named
        exact notPort (eq_of_assigned named)
      exact ⟨name, bitWidth, attr, known, named,
        valueWrite_iff.mpr ⟨name, bitWidth, known, named, branch attr named, different, rfl⟩,
        maskWrite_iff.mpr ⟨name, bitWidth, known, named, branch attr named, rfl⟩⟩
    have values := (values_recorded distinct made).mpr fun mf member => by
      obtain ⟨_, _, _, _, _, wrote, _⟩ := written mf member
      rw [wrote]
      rfl
    have masks := (masks_recorded distinct made).mpr fun mf member => by
      obtain ⟨_, _, _, _, _, _, wrote⟩ := written mf member
      rw [wrote]
      rfl
    refine ⟨m, made, fun mf member name bitWidth attr known named => ?_, fun attr absent =>
      others_unset made absent⟩
    obtain ⟨name', bitWidth', attr', known', named', value, mask⟩ := written mf member
    rw [known, Option.some.injEq, Prod.mk.injEq] at known'
    rw [← known'.1, named, Option.some.injEq] at named'
    rw [← named', ← known'.2] at value mask
    obtain ⟨w, wrote, found⟩ := values mf member
    obtain ⟨w', wrote', found'⟩ := masks mf member
    rw [value, Option.some.injEq] at wrote
    rw [mask, Option.some.injEq] at wrote'
    rw [← wrote] at found
    rw [← wrote'] at found'
    exact ⟨found, found'⟩

end

/-- The fields of the VRF classifier. -/
theorem matchFields_recorded_iff_spine :
    (∃ m, matchObj Spine.vrfTable {} (Spine.mfs Spine.first.1 Spine.first.2) = some m ∧
      Recorded Spine.vrfTable (Spine.mfs Spine.first.1 Spine.first.2) m) ↔
      ∀ mf ∈ Spine.mfs Spine.first.1 Spine.first.2, ∀ name bitWidth,
        Spine.vrfTable.matchFieldInfo mf.id = some (name, bitWidth) →
          name ≠ str "local_metadata.l4_src_port" ∧
            ∀ attr, assigned name = some attr → InBranch attr bitWidth := by
  apply matchFields_recorded_iff
  · intro mf member
    simp only [Spine.mfs, List.mem_cons, List.not_mem_nil, or_false] at member
    rcases member with rfl | rfl | rfl
    · exact ⟨_, _, .uint .ethertype, rfl, rfl⟩
    · exact ⟨_, _, .bytes .sourceMacAddress, rfl, rfl⟩
    · exact ⟨_, _, .uint .destinationIpv4Address, rfl, rfl⟩
  · decide

/-- TCP source port 179: the mask is recorded, the value is not. -/
theorem l4SourcePort_unrecorded : ∃ m,
    let mf : AfiTEntryMatchField := ⟨8, .exact, ⟨[0, 179], fun _ => 0⟩, 0, ⟨[], fun _ => 0⟩⟩
    P4RuntimeServiceImpl.classIdTable.matchFieldInfo mf.id =
        some (str "local_metadata.l4_src_port", 16) ∧
      matchObj P4RuntimeServiceImpl.classIdTable {} [mf] = some m ∧
      m.uint .l4SourcePort = none ∧ m.uintMask .l4SourcePort = some 0xffffffff ∧
      ¬ Recorded P4RuntimeServiceImpl.classIdTable [mf] m := by
  refine ⟨_, rfl, rfl, rfl, rfl, fun recorded => ?_⟩
  have value := (recorded.fields _ List.mem_cons_self _ _ (.uint .l4SourcePort) rfl rfl).1
  cases value

end JP4Agent.AfiCap
