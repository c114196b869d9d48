import JP4Agent.AfiFieldWidths

set_option autoImplicit false

namespace JP4Agent
open Agent Afi P4 P4RuntimeServiceImpl

/-- The keys of `width` bits that a match field of the controller matches. -/
def P4.FieldMatchType.Matches (width : Nat) : FieldMatchType → Nat → Prop
  | .exact value, x => x = bigEndian value
  | .lpm value prefixLen, x =>
    x / 2 ^ (width - prefixLen.toInt.toNat) =
      bigEndian value / 2 ^ (width - prefixLen.toInt.toNat)
  | .ternary value mask, x => x &&& bigEndian mask = bigEndian value &&& bigEndian mask
  | _, _ => False

/-- The bytes of the field are those of its width, and a prefix is no longer than it. -/
def P4.FieldMatchType.Sized (bitWidth : UInt32) : FieldMatchType → Prop
  | .exact value => value.length = byteLength bitWidth
  | .lpm value prefixLen =>
    value.length = byteLength bitWidth ∧ 0 ≤ prefixLen.toInt ∧
      prefixLen.toInt ≤ bitWidth.toNat
  | .ternary value mask => value.length = byteLength bitWidth ∧ mask.length = byteLength bitWidth
  | _ => False

/-- A prefix, if the field is one, is as long as the field. -/
def P4.FieldMatchType.FullPrefix (bitWidth : UInt32) : FieldMatchType → Prop
  | .lpm _ prefixLen => prefixLen.toInt = bitWidth.toNat
  | _ => True

theorem and_ones {x : Nat} (small : x < 2 ^ 32) : x &&& 4294967295 = x := by
  have ones : (4294967295 : Nat) = 2 ^ 32 - 1 := rfl
  rw [ones, Nat.and_two_pow_sub_one_eq_mod, Nat.mod_eq_of_lt small]

/-- A mask of ones leaves one key, as a prefix of the whole width does and no shorter one. -/
theorem ones_eq_prefix_iff (width n a : Nat) (positive : 0 < width) (upTo : n ≤ width)
    (below : a < 2 ^ width) :
    (∀ x < 2 ^ width, x = a ↔ x / 2 ^ (width - n) = a / 2 ^ (width - n)) ↔ n = width := by
  constructor
  · intro same
    by_contra shorter
    -- the other key that differs in the last bit only
    have even : 2 * 2 ^ (width - 1) = 2 ^ width := mul_pow_sub_one (by omega) 2
    have rest : 2 * 2 ^ (width - n - 1) = 2 ^ (width - n) := mul_pow_sub_one (by omega) 2
    have pair : 2 * (a / 2) + (1 - a % 2) < 2 ^ width := by omega
    have agree := (same _ pair).mpr (by
      rw [← rest, ← Nat.div_div_eq_div_mul, ← Nat.div_div_eq_div_mul]
      congr 1
      omega)
    omega
  · rintro rfl x _
    rw [Nat.sub_self, Nat.pow_zero, Nat.div_one, Nat.div_one]

theorem bigEndian_lt (bytes : Str) : bigEndian bytes < 2 ^ (8 * bytes.length) := by
  unfold bigEndian
  induction bytes using List.reverseRecOn with
  | nil => decide
  | append_singleton bytes byte ih =>
      have digit := byte.toNat_lt
      rw [List.foldl_append, List.foldl_cons, List.foldl_nil, List.length_append,
        List.length_singleton, Nat.mul_add, Nat.pow_add]
      change _ < _ * 256
      omega

theorem passed_split {mem : Memory} {tableId : UInt32} {pre : List FieldMatch}
    (post : List FieldMatch) {mf : FieldMatch} {afiMF : AfiTEntryMatchField}
    (passed : passedField mem tableId pre.length mf = some afiMF) :
    passedFields mem tableId 0 (pre ++ mf :: post) =
      passedFields mem tableId 0 pre ++
        afiMF :: passedFields mem tableId (pre.length + 1) post := by
  rw [passedFields, List.zipIdx_append, List.filterMap_append, Nat.zero_add, List.zipIdx_cons,
    List.filterMap_cons, passed]
  rfl

section
variable {bitWidth : UInt32} {mem : Memory} {tableId : UInt32} {i : Nat} {mf : FieldMatch}
  {afiMF : AfiTEntryMatchField}

theorem pair_matches_iff (width : bitWidth = 8 ∨ bitWidth = 16 ∨ bitWidth = 32)
    (sized : mf.type.Sized bitWidth) (passed : passedField mem tableId i mf = some afiMF)
    {v k : Nat} (value : v = (readUint bitWidth afiMF.value).toNat)
    (mask : k = (if afiMF.type = .ternary then readUint bitWidth afiMF.mask
      else 0xffffffff : UInt32).toNat) :
    (∀ x < 2 ^ bitWidth.toNat, x &&& k = v &&& k ↔ mf.type.Matches bitWidth.toNat x) ↔
      mf.type.FullPrefix bitWidth := by
  have positive : 1 ≤ bitWidth := by rcases width with rfl | rfl | rfl <;> decide
  have small : bitWidth ≤ 32 := by rcases width with rfl | rfl | rfl <;> decide
  have whole : 8 * byteLength bitWidth = bitWidth.toNat := by
    rcases width with rfl | rfl | rfl <;> decide
  have narrow : bitWidth ≤ 16 ∨ 24 < bitWidth := by rcases width with rfl | rfl | rfl <;> decide
  have upTo : bitWidth.toNat ≤ 32 := UInt32.le_iff_toNat_le.mp small
  have reads {s : CStr} (length : s.str.length = byteLength bitWidth) :
      (readUint bitWidth s).toNat = bigEndian s.str :=
    (readUint_bigEndian_iff positive small length).mpr (narrow.imp_right Or.inl)
  have below {bytes : Str} (length : bytes.length = byteLength bitWidth) :
      bigEndian bytes < 2 ^ bitWidth.toNat := by
    rw [← whole, ← length]
    exact bigEndian_lt bytes
  have wide : 2 ^ bitWidth.toNat ≤ 2 ^ 32 := Nat.pow_le_pow_right (by decide) upTo
  rcases mf with ⟨fieldId, type⟩
  cases type with
  | exact a =>
      obtain rfl := Option.some.inj passed
      have sized : a.length = byteLength bitWidth := sized
      rw [reads sized] at value
      change k = 4294967295 at mask
      subst value mask
      refine ⟨fun _ => trivial, fun _ x inside => ?_⟩
      rw [and_ones (Nat.lt_of_lt_of_le inside wide),
        and_ones (Nat.lt_of_lt_of_le (below sized) wide)]
      rfl
  | lpm a prefixLen =>
      unfold passedField at passed
      dsimp only at passed
      by_cases special : tableId = addEntryTable
      · rw [if_pos special] at passed
        cases passed
      · rw [if_neg special] at passed
        obtain rfl := Option.some.inj passed
        obtain ⟨length, least, most⟩ := sized
        rw [reads length] at value
        change k = 4294967295 at mask
        subst value mask
        have full := ones_eq_prefix_iff bitWidth.toNat prefixLen.toInt.toNat _
          (UInt32.le_iff_toNat_le.mp positive) (by omega) (below length)
        have same : prefixLen.toInt = bitWidth.toNat ↔ prefixLen.toInt.toNat = bitWidth.toNat := by
          omega
        change _ ↔ prefixLen.toInt = bitWidth.toNat
        rw [same, ← full]
        refine forall₂_congr fun x inside => ?_
        rw [and_ones (Nat.lt_of_lt_of_le inside wide),
          and_ones (Nat.lt_of_lt_of_le (below length) wide)]
        rfl
  | ternary a b =>
      obtain rfl := Option.some.inj passed
      obtain ⟨length, length'⟩ := sized
      rw [reads length] at value
      change k = (readUint bitWidth ⟨b, mem.mask i⟩).toNat at mask
      rw [reads length'] at mask
      subst value mask
      exact ⟨fun _ => trivial, fun _ x _ => Iff.rfl⟩
  | _ => cases passed

theorem zero_matches_iff (width : bitWidth = 8 ∨ bitWidth = 16 ∨ bitWidth = 32)
    (sized : mf.type.Sized bitWidth) (passed : passedField mem tableId i mf = some afiMF)
    {k : Nat} (mask : k = (if afiMF.type = .ternary then readUint bitWidth afiMF.mask
      else 0xffffffff : UInt32).toNat) :
    (∀ x < 2 ^ bitWidth.toNat, x &&& k = 0 &&& k ↔ mf.type.Matches bitWidth.toNat x) ↔
      mf.type.FullPrefix bitWidth ∧ mf.type.Matches bitWidth.toNat 0 := by
  have own := pair_matches_iff width sized passed rfl mask
  constructor
  · intro same
    have zero : mf.type.Matches bitWidth.toNat 0 := (same 0 (Nat.two_pow_pos _)).mp rfl
    refine ⟨?_, zero⟩
    rcases mf with ⟨fieldId, type⟩
    cases type with
    | lpm a prefixLen =>
        -- the prefix that matches zero matches another key, unless it has the whole width
        have positive : 0 < bitWidth.toNat := by rcases width with rfl | rfl | rfl <;> decide
        have wide : 2 ^ bitWidth.toNat ≤ 2 ^ 32 := by
          rcases width with rfl | rfl | rfl <;> decide
        obtain ⟨_, least, most⟩ := sized
        have ones : k = 4294967295 := by
          unfold passedField at passed
          dsimp only at passed
          by_cases special : tableId = addEntryTable
          · rw [if_pos special] at passed
            cases passed
          · rw [if_neg special] at passed
            obtain rfl := Option.some.inj passed
            exact mask
        have full := (ones_eq_prefix_iff bitWidth.toNat prefixLen.toInt.toNat 0 positive (by omega)
          (Nat.two_pow_pos _)).mp fun x inside => by
            have agree := same x inside
            rw [ones, and_ones (Nat.lt_of_lt_of_le inside wide), Nat.zero_and] at agree
            rw [agree]
            change _ = _ ↔ _ = _
            rw [show 0 / 2 ^ (bitWidth.toNat - prefixLen.toInt.toNat) = _ from zero]
        change prefixLen.toInt = bitWidth.toNat
        omega
    | _ => trivial
  · rintro ⟨full, zero⟩
    have preserved := own.mpr full
    rw [(preserved 0 (Nat.two_pow_pos _)).mpr zero]
    exact preserved

end

namespace AfiCap

/-- The pair of an attribute as it is read, zero where nothing was set. -/
def pair (m : AfiCapEntryMatch) (field : UintAttribute) : Nat × Nat :=
  (((m.uint field).getD 0).toNat, ((m.uintMask field).getD 0).toNat)

/-- The numbers that a field leaves in its attribute. The value of the layer 4 source port is
never set. -/
def readPair (field : UintAttribute) (bitWidth : UInt32) (mf : AfiTEntryMatchField) : Nat × Nat :=
  (if field = .l4SourcePort then 0 else (readUint bitWidth mf.value).toNat,
    (if mf.type = .ternary then readUint bitWidth mf.mask else 0xffffffff : UInt32).toNat)

/-- If later fields of the entry stand for the same attribute, the last of them has the same
value and mask. -/
def Stands (table : P4InfoTable) (field : UintAttribute) (bitWidth : UInt32)
    (mf : AfiTEntryMatchField) (later : List AfiTEntryMatchField) : Prop :=
  ∀ mf' ∈ later.reverse.find? (fun other => fieldAttribute table other = some (.uint field)),
    ∀ name bitWidth', table.matchFieldInfo mf'.id = some (name, bitWidth') →
      readPair field bitWidth' mf' = readPair field bitWidth mf

section
variable {table : P4InfoTable} {pre post : List AfiTEntryMatchField} {mf : AfiTEntryMatchField}
  {m : AfiCapEntryMatch} {name : Str} {bitWidth : UInt32} {field : UintAttribute}

theorem pair_last (made : matchObj table {} (pre ++ mf :: post) = some m)
    (known : table.matchFieldInfo mf.id = some (name, bitWidth))
    (found : attributeOf name bitWidth = some (.uint field))
    (last : ∀ later ∈ post, fieldAttribute table later ≠ some (.uint field)) :
    pair m field = readPair field bitWidth mf := by
  have mask := maskOf_last made known found last
  obtain ⟨k, held, mask⟩ := Option.map_eq_some_iff.mp mask
  have number : k = _ := Datum.uint.inj mask
  rw [pair, readPair, held, number, Option.getD_some, UInt32.toNat_toUInt64]
  congr 1
  by_cases port : field = .l4SourcePort
  · subst port
    rw [(held_matchObj table _ rfl made).1, if_pos rfl]
    rfl
  · have value := valueOf_last made known found (fun same => port (Attribute.uint.inj same)) last
    obtain ⟨v, held, value⟩ := Option.map_eq_some_iff.mp value
    have number : v = _ := Datum.uint.inj value
    rw [held, number, if_neg port, Option.getD_some, UInt32.toNat_toUInt64]

/-- The message keeps the pair of a field unless a later one overwrites it with another. -/
theorem pair_eq_iff (made : matchObj table {} (pre ++ mf :: post) = some m)
    (known : table.matchFieldInfo mf.id = some (name, bitWidth))
    (found : attributeOf name bitWidth = some (.uint field)) :
    pair m field = readPair field bitWidth mf ↔ Stands table field bitWidth mf post := by
  unfold Stands
  cases latest : post.reverse.find?
      (fun other => fieldAttribute table other = some (.uint field)) with
  | none =>
      refine iff_of_true (pair_last made known found fun later member => ?_) fun _ wrong => by
        cases wrong
      have other := List.find?_eq_none.mp latest later (List.mem_reverse.mpr member)
      simpa using other
  | some mf' =>
      obtain ⟨stands, behind, before, split, none⟩ := List.find?_eq_some_iff_append.mp latest
      obtain ⟨⟨name', bitWidth'⟩, known', found'⟩ :=
        Option.bind_eq_some_iff.mp (of_decide_eq_true stands)
      have whole : pre ++ mf :: post =
          (pre ++ mf :: before.reverse) ++ mf' :: behind.reverse := by
        have reversed := congrArg List.reverse split
        rw [List.reverse_reverse] at reversed
        rw [reversed]
        simp
      rw [whole] at made
      have kept := pair_last made known' found' fun later member => by
        simpa using none later (List.mem_reverse.mp member)
      rw [kept]
      constructor
      · rintro same _ ⟨⟩ name'' bitWidth'' known''
        rw [known', Option.some.injEq, Prod.mk.injEq] at known''
        rw [← known''.2]
        exact same
      · intro same
        exact same mf' rfl name' bitWidth' known'

end

/-- The message holds the pair that this field alone is translated to, and the keys that agree
with the pair are those that the field matches. -/
def PairPreserved (table : P4InfoTable) (m : AfiCapEntryMatch) (field : UintAttribute)
    (afiMF : AfiTEntryMatchField) (bitWidth : UInt32) (type : FieldMatchType) : Prop :=
  ∃ own, matchObj table {} [afiMF] = some own ∧ pair m field = pair own field ∧
    ∀ x < 2 ^ bitWidth.toNat,
      x &&& (pair own field).2 = (pair own field).1 &&& (pair own field).2 ↔
        type.Matches bitWidth.toNat x

end AfiCap

/-- The pair that a match field becomes in the match object has the meaning of the field
exactly if the field is not a prefix that is shorter than its width, matches zero if it is the
layer 4 source port, and is not overwritten by a later one with another value or mask. -/
theorem matchKind_preserved_iff (mem : Memory) (pb : Protobuf) (target : Target)
    (tableId : UInt32) (pre post : List FieldMatch) (mf : FieldMatch) (s t : Agent)
    (calls : List AfiCall) (afiMF : AfiTEntryMatchField) (afiMFs : List AfiTEntryMatchField)
    (table : P4InfoTable) (name : Str) (bitWidth : UInt32) (field : UintAttribute)
    (m : AfiCapEntryMatch)
    (converted : convertMatch pb target mem tableId 0 (pre ++ mf :: post) s = .ok (calls, afiMFs) t)
    (passed : passedField mem tableId pre.length mf = some afiMF)
    (known : table.matchFieldInfo mf.fieldId = some (name, bitWidth))
    (width : bitWidth = 8 ∨ bitWidth = 16 ∨ bitWidth = 32) (sized : mf.type.Sized bitWidth)
    (named : AfiCap.uintAttribute name = some field)
    (made : AfiCap.matchObj table {} afiMFs = some m) :
    AfiCap.PairPreserved table m field afiMF bitWidth mf.type ↔
      mf.type.FullPrefix bitWidth ∧
        (field = .l4SourcePort → mf.type.Matches bitWidth.toNat 0) ∧
        AfiCap.Stands table field bitWidth afiMF
          (passedFields mem tableId (pre.length + 1) post) := by
  have fields : afiMFs = _ :=
    (convertMatch_passed mem tableId pb target (pre ++ mf :: post) 0 s).of_ok converted
  rw [fields, passed_split post passed] at made
  rw [← passedField_id mem tableId passed] at known
  have nonzero : bitWidth ≠ 0 := by rcases width with rfl | rfl | rfl <;> decide
  have small : bitWidth ≤ 32 := by rcases width with rfl | rfl | rfl <;> decide
  have found := AfiCap.attributeOf_uint named nonzero small
  obtain ⟨own, alone⟩ := (AfiCap.matchObj_some_iff table [afiMF] {}).mpr
    (by simpa using ⟨_, _, known⟩)
  have single : AfiCap.matchObj table {} ([] ++ [afiMF]) = some own := alone
  have ownPair := AfiCap.pair_last single known found (by simp)
  have meaning : (∀ x < 2 ^ bitWidth.toNat, x &&& (AfiCap.pair own field).2 =
        (AfiCap.pair own field).1 &&& (AfiCap.pair own field).2 ↔
          mf.type.Matches bitWidth.toNat x) ↔
      mf.type.FullPrefix bitWidth ∧
        (field = .l4SourcePort → mf.type.Matches bitWidth.toNat 0) := by
    rw [ownPair]
    by_cases port : field = .l4SourcePort
    · simp only [AfiCap.readPair, port, forall_const]
      exact zero_matches_iff width sized passed rfl
    · simp only [AfiCap.readPair, port, false_implies, and_true]
      exact pair_matches_iff width sized passed rfl rfl
  rw [AfiCap.PairPreserved, ← and_assoc, ← meaning, ← AfiCap.pair_eq_iff made known found]
  constructor
  · rintro ⟨own', alone', kept, preserved⟩
    obtain rfl := Option.some.inj (alone.symm.trans alone')
    exact ⟨preserved, kept.trans ownPair⟩
  · rintro ⟨preserved, kept⟩
    exact ⟨own, alone, kept.trans ownPair.symm, preserved⟩

def prefixField (prefixLen : Int32) : FieldMatch := ⟨4, .lpm [10, 0, 0, 0] prefixLen⟩

def prefixAfiField (prefixLen : Int32) : AfiTEntryMatchField :=
  ⟨4, .lpm, ⟨[10, 0, 0, 0], fun _ => 0⟩, prefixLen.toUInt32.toUInt16, ⟨[], fun _ => 0⟩⟩

theorem matchKind_preserved_iff_host : ∃ m,
    AfiCap.matchObj Spine.vrfTable {} [prefixAfiField 32] = some m ∧
      (AfiCap.PairPreserved Spine.vrfTable m .destinationIpv4Address (prefixAfiField 32) 32
          (prefixField 32).type ↔
        (prefixField 32).type.FullPrefix 32 ∧
          (UintAttribute.destinationIpv4Address = .l4SourcePort →
            (prefixField 32).type.Matches (32 : UInt32).toNat 0) ∧
          AfiCap.Stands Spine.vrfTable .destinationIpv4Address 32 (prefixAfiField 32) []) := by
  obtain ⟨m, made⟩ : ∃ m, AfiCap.matchObj Spine.vrfTable {} [prefixAfiField 32] = some m :=
    ⟨_, rfl⟩
  exact ⟨m, made, matchKind_preserved_iff {} AfiWire.protobuf Brcm.target Spine.vrfTable.id [] []
    (prefixField 32) {} {} [] (prefixAfiField 32) [prefixAfiField 32] Spine.vrfTable
    (str "hdr.ipv4_base.dst_addr") 32 .destinationIpv4Address m rfl rfl rfl
    (Or.inr (Or.inr rfl)) ⟨rfl, by decide, by decide⟩ rfl made⟩

/-- The prefix 10.0.0.0/8 matches 10.0.0.1, its value and mask match 10.0.0.0 only. -/
theorem prefix_narrowed : ∃ m,
    convertMatch AfiWire.protobuf Brcm.target {} Spine.vrfTable.id 0 [prefixField 8] {} =
        .ok ([], [prefixAfiField 8]) {} ∧
      (prefixField 8).type.Sized 32 ∧
      AfiCap.matchObj Spine.vrfTable {} [prefixAfiField 8] = some m ∧
      m.uint .destinationIpv4Address = some 167772160 ∧
      m.uintMask .destinationIpv4Address = some 4294967295 ∧
      (prefixField 8).type.Matches 32 167772161 ∧
      ¬ (167772161 &&& 4294967295 = 167772160 &&& 4294967295) := by
  have inside : (prefixField 8).type.Matches 32 167772161 := by
    show 167772161 / 2 ^ 24 = bigEndian [10, 0, 0, 0] / 2 ^ 24
    decide
  exact ⟨_, rfl, ⟨rfl, by decide, by decide⟩, rfl, rfl, rfl, inside, by decide⟩

end JP4Agent
