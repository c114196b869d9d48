import JP4Agent.AfiCapRecorded

set_option autoImplicit false

namespace JP4Agent

theorem CStr.uint32_toNat (s : CStr) : s.uint32.toNat =
    (((s.byte 0).toNat * 256 + (s.byte 1).toNat) * 256 + (s.byte 2).toNat) * 256 +
      (s.byte 3).toNat := by
  have high := netWord_toNat (s.byte 0) (s.byte 1)
  have low := netWord_toNat (s.byte 2) (s.byte 3)
  have below := (netWord (s.byte 0) (s.byte 1)).toNat_lt
  have below' := (netWord (s.byte 2) (s.byte 3)).toNat_lt
  rw [CStr.uint32, UInt32.toNat_or, UInt32.toNat_shiftLeft, UInt16.toNat_toUInt32,
    UInt16.toNat_toUInt32]
  have shifted : (netWord (s.byte 0) (s.byte 1)).toNat <<< ((16 : UInt32).toNat % 32) % 2 ^ 32 =
      2 ^ 16 * (netWord (s.byte 0) (s.byte 1)).toNat := by
    change _ <<< 16 % 2 ^ 32 = _
    rw [Nat.shiftLeft_eq]
    omega
  rw [shifted, ← Nat.two_pow_add_eq_or_of_lt below', high, low]
  omega

/-- The bytes that encode a field of this width. -/
def byteLength (bitWidth : UInt32) : Nat := (bitWidth.toNat + 7) / 8

/-- Three bytes are read as four, the last of which is the terminator. -/
theorem readUint_toNat {bitWidth : UInt32} {s : CStr} (positive : 1 ≤ bitWidth)
    (small : bitWidth ≤ 32) (sized : s.str.length = byteLength bitWidth) :
    (readUint bitWidth s).toNat =
      bigEndian s.str * if 16 < bitWidth ∧ bitWidth ≤ 24 then 256 else 1 := by
  rcases s with ⟨bytes, after⟩
  rw [UInt32.le_iff_toNat_le] at positive small
  change 1 ≤ bitWidth.toNat at positive
  change bitWidth.toNat ≤ 32 at small
  change bytes.length = (bitWidth.toNat + 7) / 8 at sized
  have upTo (n : UInt32) : bitWidth ≤ n ↔ bitWidth.toNat ≤ n.toNat := UInt32.le_iff_toNat_le
  have above (n : UInt32) : n < bitWidth ↔ n.toNat < bitWidth.toNat := UInt32.lt_iff_toNat_lt
  simp only [readUint, upTo, above, UInt32.reduceToNat]
  rcases bytes with _ | ⟨a, _ | ⟨b, _ | ⟨c, _ | ⟨d, rest⟩⟩⟩⟩
  · change 0 = _ at sized
    omega
  · change 1 = _ at sized
    rw [if_pos (by omega), if_neg (by omega)]
    simp [CStr.uint8, CStr.byte, bigEndian]
  · change 2 = _ at sized
    rw [if_neg (by omega), if_pos (by omega), if_neg (by omega), CStr.uint16,
      UInt16.toNat_toUInt32, netWord_toNat]
    simp [CStr.byte, bigEndian]
  · change 3 = _ at sized
    rw [if_neg (by omega), if_neg (by omega), if_pos (by omega), CStr.uint32_toNat]
    simp [CStr.byte, bigEndian]
  · have last : rest = [] := by
      apply List.length_eq_zero_iff.mp
      change rest.length + 4 = _ at sized
      omega
    subst last
    change 4 = _ at sized
    rw [if_neg (by omega), if_neg (by omega), if_neg (by omega), CStr.uint32_toNat]
    simp [CStr.byte, bigEndian]

theorem bigEndian_three (a b c : UInt8) :
    bigEndian [a, b, c] = (a.toNat * 256 + b.toNat) * 256 + c.toNat := by
  simp [bigEndian]

/-- What is read for a field is what its bytes denote, unless they are three. -/
theorem readUint_bigEndian_iff {bitWidth : UInt32} {s : CStr} (positive : 1 ≤ bitWidth)
    (small : bitWidth ≤ 32) (sized : s.str.length = byteLength bitWidth) :
    (readUint bitWidth s).toNat = bigEndian s.str ↔
      bitWidth ≤ 16 ∨ 24 < bitWidth ∨ ∀ byte ∈ s.str, byte = 0 := by
  rw [readUint_toNat positive small sized]
  by_cases three : 16 < bitWidth ∧ bitWidth ≤ 24
  · rw [if_pos three]
    have wide : ¬ bitWidth ≤ 16 := UInt32.not_le.mpr three.1
    have narrow : ¬ 24 < bitWidth := UInt32.not_lt.mpr three.2
    have length : s.str.length = 3 := by
      have low := UInt32.lt_iff_toNat_lt.mp three.1
      have high := UInt32.le_iff_toNat_le.mp three.2
      change 16 < bitWidth.toNat at low
      change bitWidth.toNat ≤ 24 at high
      rw [sized, byteLength]
      omega
    obtain ⟨a, b, c, bytes⟩ := List.length_eq_three.mp length
    rw [bytes, bigEndian_three]
    have zero (byte : UInt8) : byte = 0 ↔ byte.toNat = 0 := UInt8.toNat_inj.symm
    simp only [List.forall_mem_cons, List.not_mem_nil, false_implies, implies_true, and_true, zero]
    constructor
    · exact fun same => Or.inr (Or.inr (by omega))
    · rintro (wrong | wrong | zero)
      · exact absurd wrong wide
      · exact absurd wrong narrow
      · omega
  · rw [if_neg three, Nat.mul_one]
    refine ⟨fun _ => ?_, fun _ => rfl⟩
    by_cases low : bitWidth ≤ 16
    · exact Or.inl low
    · exact Or.inr (Or.inl (UInt32.not_le.mp fun high => three ⟨UInt32.not_le.mp low, high⟩))

namespace AfiTreeEncap

section
variable (table : P4InfoTable)

theorem treeEntryObj_append (pre post : List AfiTEntryMatchField) : ∀ obj : AfiTreeEntry,
    treeEntryObj table obj (pre ++ post) =
      (treeEntryObj table obj pre).bind fun obj => treeEntryObj table obj post := by
  induction pre with
  | nil => exact fun _ => rfl
  | cons mf rest ih =>
      intro obj
      rw [List.cons_append, treeEntryObj, treeEntryObj]
      cases table.matchFieldInfo mf.id with
      | none => rfl
      | some info => exact ih _

theorem setField_vrfId (obj : AfiTreeEntry) (name : Str) (bitWidth : UInt32)
    (mf : AfiTEntryMatchField) :
    (setField obj name bitWidth mf).vrfId =
      if name = str "local_metadata.vrf_id" ∧ bitWidth ≠ 0 ∧ bitWidth ≤ 32 then
        some (readUint bitWidth mf.value).toUInt64
      else obj.vrfId := by
  have kept : (if mf.type = .lpm then
      { obj with prefixBytes := some mf.value.str, prefixLength := some mf.len.toUInt64 }
    else obj).vrfId = obj.vrfId := by
    by_cases lpm : mf.type = .lpm
    · rw [if_pos lpm]
    · rw [if_neg lpm]
  unfold setField
  dsimp only
  generalize (if mf.type = .lpm then
      { obj with prefixBytes := some mf.value.str, prefixLength := some mf.len.toUInt64 }
    else obj) = written at kept ⊢
  by_cases zero : bitWidth = 0
  · rw [if_pos zero, if_neg fun wrong => wrong.2.1 zero]
    exact kept
  · rw [if_neg zero]
    by_cases small : bitWidth ≤ 32
    · rw [if_pos small]
      by_cases vrf : name = str "local_metadata.vrf_id"
      · rw [if_pos vrf, if_pos ⟨vrf, zero, small⟩]
      · rw [if_neg vrf, if_neg fun wrong => vrf wrong.1]
        exact kept
    · rw [if_neg small, if_neg fun wrong => small wrong.2.2]
      exact kept

/-- Fields of other names leave the VRF id. -/
theorem treeEntryObj_vrfId (post : List AfiTEntryMatchField) : ∀ {obj t : AfiTreeEntry},
    treeEntryObj table obj post = some t →
      (∀ later ∈ post, AfiCap.fieldName table later ≠ some (str "local_metadata.vrf_id")) →
        t.vrfId = obj.vrfId := by
  induction post with
  | nil =>
      intro obj t made _
      rw [treeEntryObj, Option.some.injEq] at made
      rw [made]
  | cons mf rest ih =>
      intro obj t made others
      rw [List.forall_mem_cons] at others
      rw [treeEntryObj] at made
      cases known : table.matchFieldInfo mf.id with
      | none =>
          rw [known] at made
          cases made
      | some info =>
          rw [known] at made
          rw [ih made others.2, setField_vrfId, if_neg]
          intro here
          apply others.1
          rw [AfiCap.fieldName, known, Option.map_some, here.1]

/-- The last field of the name is the one that is found. -/
theorem treeEntryObj_last {pre post : List AfiTEntryMatchField} {mf : AfiTEntryMatchField}
    {t : AfiTreeEntry} (made : treeEntryObj table {} (pre ++ mf :: post) = some t)
    {bitWidth : UInt32} (positive : bitWidth ≠ 0) (small : bitWidth ≤ 32)
    (known : table.matchFieldInfo mf.id = some (str "local_metadata.vrf_id", bitWidth))
    (last : ∀ later ∈ post,
      AfiCap.fieldName table later ≠ some (str "local_metadata.vrf_id")) :
    t.vrfId = some (readUint bitWidth mf.value).toUInt64 := by
  rw [treeEntryObj_append] at made
  obtain ⟨obj, _, made⟩ := Option.bind_eq_some_iff.mp made
  rw [treeEntryObj, known] at made
  rw [treeEntryObj_vrfId table post made last, setField_vrfId, if_pos ⟨rfl, positive, small⟩]

end
end AfiTreeEncap

/-- In every entry where the field is the last of its name, the numbers stored for its value
and for its ternary mask are those that the bytes denote. (For the layer 4 source port the
value is not stored.) -/
structure StoresBigEndian (bitWidth : UInt32) (mf : AfiTEntryMatchField) : Prop where
  capValue : ∀ table name field pre post m,
    table.matchFieldInfo mf.id = some (name, bitWidth) → AfiCap.uintAttribute name = some field →
      field ≠ .l4SourcePort → (∀ later ∈ post, AfiCap.fieldName table later ≠ some name) →
        AfiCap.matchObj table {} (pre ++ mf :: post) = some m →
          ∃ v, m.uint field = some v ∧ v.toNat = bigEndian mf.value.str
  capMask : mf.type = .ternary → ∀ table name field pre post m,
    table.matchFieldInfo mf.id = some (name, bitWidth) → AfiCap.uintAttribute name = some field →
      (∀ later ∈ post, AfiCap.fieldName table later ≠ some name) →
        AfiCap.matchObj table {} (pre ++ mf :: post) = some m →
          ∃ v, m.uintMask field = some v ∧ v.toNat = bigEndian mf.mask.str
  treeValue : ∀ table pre post t,
    table.matchFieldInfo mf.id = some (str "local_metadata.vrf_id", bitWidth) →
      (∀ later ∈ post, AfiCap.fieldName table later ≠ some (str "local_metadata.vrf_id")) →
        AfiTreeEncap.treeEntryObj table {} (pre ++ mf :: post) = some t →
          ∃ v, t.vrfId = some v ∧ v.toNat = bigEndian mf.value.str

section
variable {bitWidth : UInt32} {mf : AfiTEntryMatchField}

theorem ne_zero_of_pos (positive : 1 ≤ bitWidth) : bitWidth ≠ 0 := by
  intro zero
  rw [zero] at positive
  exact absurd positive (by decide)

theorem storesBigEndian_of_reads (positive : 1 ≤ bitWidth) (small : bitWidth ≤ 32)
    (value : (readUint bitWidth mf.value).toNat = bigEndian mf.value.str)
    (mask : mf.type = .ternary → (readUint bitWidth mf.mask).toNat = bigEndian mf.mask.str) :
    StoresBigEndian bitWidth mf := by
  have nonzero := ne_zero_of_pos positive
  have target {name : Str} {field : UintAttribute}
      (named : AfiCap.uintAttribute name = some field) :
      AfiCap.attributeOf name bitWidth = some (.uint field) :=
    AfiCap.attributeOf_uint named nonzero small
  refine ⟨?_, ?_, ?_⟩
  · intro table name field pre post m known named different last made
    have stored := AfiCap.valueOf_last made known (target named)
      (fun same => different (AfiCap.Attribute.uint.inj same)) fun later member =>
        AfiCap.fieldAttribute_ne (AfiCap.assigned_uint_iff.mpr named) (last later member)
    obtain ⟨v, found, same⟩ := Option.map_eq_some_iff.mp stored
    refine ⟨v, found, ?_⟩
    rw [AfiCap.Datum.uint.inj same, UInt32.toNat_toUInt64, value]
  · intro ternary table name field pre post m known named last made
    have stored := AfiCap.maskOf_last made known (target named) fun later member =>
      AfiCap.fieldAttribute_ne (AfiCap.assigned_uint_iff.mpr named) (last later member)
    obtain ⟨v, found, same⟩ := Option.map_eq_some_iff.mp stored
    refine ⟨v, found, ?_⟩
    rw [AfiCap.Datum.uint.inj same, if_pos ternary, UInt32.toNat_toUInt64, mask ternary]
  · intro table pre post t known last made
    refine ⟨_, AfiTreeEncap.treeEntryObj_last table made nonzero small known last, ?_⟩
    rw [UInt32.toNat_toUInt64, value]

/-- A table whose only field is this one, the VRF id. -/
def vrfIdTable (bitWidth fieldId : UInt32) : P4InfoTable where
  id := 1
  name := []
  matchFields := [⟨fieldId, str "local_metadata.vrf_id", bitWidth.toInt32⟩]

theorem vrfIdTable_matchFieldInfo (bitWidth fieldId : UInt32) :
    (vrfIdTable bitWidth fieldId).matchFieldInfo fieldId =
      some (str "local_metadata.vrf_id", bitWidth) := by
  simp [vrfIdTable, P4InfoTable.matchFieldInfo]

theorem StoresBigEndian.reads (stores : StoresBigEndian bitWidth mf) (positive : 1 ≤ bitWidth)
    (small : bitWidth ≤ 32) :
    (readUint bitWidth mf.value).toNat = bigEndian mf.value.str ∧
      (mf.type = .ternary → (readUint bitWidth mf.mask).toNat = bigEndian mf.mask.str) := by
  have known := vrfIdTable_matchFieldInfo bitWidth mf.id
  have named : AfiCap.uintAttribute (str "local_metadata.vrf_id") =
      some .virtualRoutingAndForwardingId := rfl
  have found := AfiCap.attributeOf_uint named (ne_zero_of_pos positive) small
  have nothing : ∀ later ∈ ([] : List AfiTEntryMatchField),
      AfiCap.fieldName (vrfIdTable bitWidth mf.id) later ≠ some (str "local_metadata.vrf_id") :=
    fun _ wrong => absurd wrong List.not_mem_nil
  obtain ⟨m, made⟩ := (AfiCap.matchObj_some_iff (vrfIdTable bitWidth mf.id) [mf] {}).mpr (by
    intro mf' member
    rw [List.mem_singleton.mp member]
    exact ⟨_, known⟩)
  have value : AfiCap.valueOf m _ = some _ :=
    AfiCap.valueOf_last (List.nil_append [mf] ▸ made) known found (by decide)
      fun _ wrong => absurd wrong List.not_mem_nil
  have mask : AfiCap.maskOf m _ = some _ :=
    AfiCap.maskOf_last (List.nil_append [mf] ▸ made) known found
      fun _ wrong => absurd wrong List.not_mem_nil
  constructor
  · obtain ⟨v, held, denotes⟩ := stores.capValue _ _ _ [] [] m known named (by decide) nothing made
    rw [AfiCap.valueOf, held] at value
    have same : v = _ := AfiCap.Datum.uint.inj (Option.some.inj value)
    rw [same, UInt32.toNat_toUInt64] at denotes
    exact denotes
  · intro ternary
    obtain ⟨v, held, denotes⟩ := stores.capMask ternary _ _ _ [] [] m known named nothing made
    rw [AfiCap.maskOf, held] at mask
    have same : v = _ := AfiCap.Datum.uint.inj (Option.some.inj mask)
    rw [same, if_pos ternary, UInt32.toNat_toUInt64] at denotes
    exact denotes

end

/-- The numbers are those of the bytes exactly if the field is not encoded in three bytes, or
only in zeros. -/
theorem storesBigEndian_iff (bitWidth : UInt32) (mf : AfiTEntryMatchField)
    (positive : 1 ≤ bitWidth) (small : bitWidth ≤ 32)
    (sized : mf.value.str.length = byteLength bitWidth)
    (sizedMask : mf.type = .ternary → mf.mask.str.length = byteLength bitWidth) :
    StoresBigEndian bitWidth mf ↔
      bitWidth ≤ 16 ∨ 24 < bitWidth ∨
        (∀ byte ∈ mf.value.str, byte = 0) ∧
          (mf.type = .ternary → ∀ byte ∈ mf.mask.str, byte = 0) := by
  have value := readUint_bigEndian_iff positive small sized
  have mask (ternary : mf.type = .ternary) :=
    readUint_bigEndian_iff positive small (sizedMask ternary)
  constructor
  · intro stores
    obtain ⟨reads, readsMask⟩ := stores.reads positive small
    rcases value.mp reads with low | high | zero
    · exact Or.inl low
    · exact Or.inr (Or.inl high)
    · by_cases low : bitWidth ≤ 16
      · exact Or.inl low
      · by_cases high : 24 < bitWidth
        · exact Or.inr (Or.inl high)
        · refine Or.inr (Or.inr ⟨zero, fun ternary => ?_⟩)
          exact (((mask ternary).mp (readsMask ternary)).resolve_left low).resolve_left high
  · intro fits
    apply storesBigEndian_of_reads positive small
    · rw [value]
      exact fits.imp_right fun rest => rest.imp_right And.left
    · intro ternary
      rw [mask ternary]
      exact fits.imp_right fun rest => rest.imp_right fun zero => zero.2 ternary

theorem storesBigEndian_iff_exact :
    StoresBigEndian 12 ⟨1, .exact, ⟨[1, 44], fun _ => 0⟩, 0, ⟨[], fun _ => 0⟩⟩ ↔
      (12 : UInt32) ≤ 16 ∨ 24 < (12 : UInt32) ∨ (∀ byte ∈ ([1, 44] : Str), byte = 0) ∧
        (MfType.exact = .ternary → ∀ byte ∈ ([] : Str), byte = 0) :=
  storesBigEndian_iff 12 ⟨1, .exact, ⟨[1, 44], fun _ => 0⟩, 0, ⟨[], fun _ => 0⟩⟩ (by decide)
    (by decide) rfl fun wrong => by cases wrong

/-- A field of 20 bits with the value 1 is stored as 256. -/
theorem threeBytes_shifted : ∃ m t,
    let mf : AfiTEntryMatchField := ⟨1, .exact, ⟨[0, 0, 1], fun _ => 0⟩, 0, ⟨[], fun _ => 0⟩⟩
    (vrfIdTable 20 1).matchFieldInfo mf.id = some (str "local_metadata.vrf_id", 20) ∧
      mf.value.str.length = byteLength 20 ∧ bigEndian mf.value.str = 1 ∧
      AfiCap.matchObj (vrfIdTable 20 1) {} [mf] = some m ∧
      m.uint .virtualRoutingAndForwardingId = some 256 ∧
      AfiTreeEncap.treeEntryObj (vrfIdTable 20 1) {} [mf] = some t ∧ t.vrfId = some 256 ∧
      ¬ StoresBigEndian 20 mf := by
  refine ⟨_, _, rfl, rfl, rfl, rfl, rfl, rfl, rfl, fun stores => ?_⟩
  have reads := (stores.reads (by decide) (by decide)).1
  exact absurd reads (by decide)

end JP4Agent
