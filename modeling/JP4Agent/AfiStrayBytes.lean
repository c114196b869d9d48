import JP4Agent.AfiFieldWidths

set_option autoImplicit false

namespace JP4Agent

/-- The bytes that are read for a field of this width. -/
def readLength (bitWidth : UInt32) : Nat :=
  if bitWidth ≤ 8 then 1 else if bitWidth ≤ 16 then 2 else 4

/-- A read of `n` bytes goes on behind the terminator of the string. -/
def ReadsPast (n : Nat) (s : Str) : Prop := s.length + 1 < n

section
variable {s s' : CStr}

theorem CStr.byte_congr (same : s.str = s'.str) {i : Nat} (inside : i ≤ s.str.length) :
    s.byte i = s'.byte i := by
  rcases s with ⟨bytes, after⟩
  rcases s' with ⟨bytes', after'⟩
  subst same
  unfold byte
  by_cases below : i < bytes.length
  · simp only [dif_pos below]
  · have last : i = bytes.length := Nat.le_antisymm inside (Nat.not_lt.mp below)
    simp only [dif_neg below, if_pos last]

theorem CStr.byte_behind {i : Nat} (behind : s.str.length < i) : s.byte i = s.after i := by
  rw [byte, dif_neg (by omega), if_neg (by omega)]

/-- What is read is determined by the string if it is long enough. -/
theorem readUint_congr {bitWidth : UInt32} (same : s.str = s'.str)
    (enough : ¬ ReadsPast (readLength bitWidth) s.str) :
    readUint bitWidth s = readUint bitWidth s' := by
  have byte (i : Nat) (inside : i < readLength bitWidth) : s.byte i = s'.byte i := by
    apply CStr.byte_congr same
    unfold ReadsPast at enough
    omega
  unfold readUint
  unfold readLength at byte
  by_cases one : bitWidth ≤ 8
  · rw [if_pos one] at byte ⊢
    rw [if_pos one, CStr.uint8, CStr.uint8, byte 0 (by omega)]
  · rw [if_neg one] at byte ⊢
    rw [if_neg one]
    by_cases two : bitWidth ≤ 16
    · rw [if_pos two] at byte ⊢
      rw [if_pos two, CStr.uint16, CStr.uint16, byte 0 (by omega), byte 1 (by omega)]
    · rw [if_neg two] at byte ⊢
      rw [if_neg two, CStr.uint32, CStr.uint32, byte 0 (by omega), byte 1 (by omega),
        byte 2 (by omega), byte 3 (by omega)]

theorem CStr.uint32_mod (s : CStr) : s.uint32.toNat % 256 = (s.byte 3).toNat := by
  have last := (s.byte 3).toNat_lt
  rw [uint32_toNat]
  omega

/-- The last byte that is read is the lowest of the number. -/
theorem readUint_mod (bitWidth : UInt32) (s : CStr) :
    (readUint bitWidth s).toNat % 256 = (s.byte (readLength bitWidth - 1)).toNat := by
  unfold readUint readLength
  by_cases one : bitWidth ≤ 8
  · have last := (s.byte 0).toNat_lt
    rw [if_pos one, if_pos one, CStr.uint8, UInt8.toNat_toUInt32]
    show (s.byte 0).toNat % 256 = (s.byte 0).toNat
    omega
  · rw [if_neg one, if_neg one]
    by_cases two : bitWidth ≤ 16
    · have last := (s.byte 1).toNat_lt
      rw [if_pos two, if_pos two, CStr.uint16, UInt16.toNat_toUInt32, netWord_toNat]
      show ((s.byte 0).toNat * 256 + (s.byte 1).toNat) % 256 = (s.byte 1).toNat
      omega
    · rw [if_neg two, if_neg two]
      exact s.uint32_mod

/-- Other bytes behind a string that is too short make another number. -/
theorem readUint_ne {bitWidth : UInt32} (same : s.str = s'.str)
    (short : ReadsPast (readLength bitWidth) s.str) (different : ∀ i, s.after i ≠ s'.after i) :
    readUint bitWidth s ≠ readUint bitWidth s' := by
  intro equal
  unfold ReadsPast at short
  have behind : s.str.length < readLength bitWidth - 1 := by omega
  have behind' : s'.str.length < readLength bitWidth - 1 := by
    rw [← same]
    exact behind
  have last := readUint_mod bitWidth s
  rw [equal, readUint_mod, CStr.byte_behind behind, CStr.byte_behind behind'] at last
  exact different _ (UInt8.toNat_inj.mp last).symm

theorem CStr.uint32_congr (same : s.str = s'.str) (enough : ¬ ReadsPast 4 s.str) :
    s.uint32 = s'.uint32 := by
  show readUint 32 s = readUint 32 s'
  exact readUint_congr same enough

end

namespace AfiCap

/-- The two match fields differ at most in what follows their strings. -/
structure SameField (mf mf' : AfiTEntryMatchField) : Prop where
  id : mf.id = mf'.id
  type : mf.type = mf'.type
  value : mf.value.str = mf'.value.str
  mask : mf.mask.str = mf'.mask.str

/-- And all that follows their strings is different. -/
structure Displaced (mf mf' : AfiTEntryMatchField) : Prop extends SameField mf mf' where
  behindValue : ∀ i, mf.value.after i ≠ mf'.value.after i
  behindMask : ∀ i, mf.mask.after i ≠ mf'.mask.after i

/-- The number that a field writes under this attribute, or its mask, is read past the end
of its string. -/
def Stray (field : UintAttribute) (bitWidth : UInt32) (mf : AfiTEntryMatchField) : Prop :=
  (field ≠ .l4SourcePort ∧ ReadsPast (readLength bitWidth) mf.value.str) ∨
    mf.type = .ternary ∧ ReadsPast (readLength bitWidth) mf.mask.str

/-- The last of the fields with some attribute is too short for the read of its width. -/
def FieldExposed (table : P4InfoTable) (mfs : List AfiTEntryMatchField) : Prop :=
  ∃ pre mf post name bitWidth field, mfs = pre ++ mf :: post ∧
    table.matchFieldInfo mf.id = some (name, bitWidth) ∧
    attributeOf name bitWidth = some (.uint field) ∧
    (∀ later ∈ post, fieldAttribute table later ≠ some (.uint field)) ∧ Stray field bitWidth mf

theorem eq_of_values {m m' : AfiCapEntryMatch} (values : valueOf m = valueOf m')
    (masks : maskOf m = maskOf m') : m = m' := by
  have uint (field : UintAttribute) : m.uint field = m'.uint field :=
    Option.map_injective (fun _ _ => Datum.uint.inj) (congrFun values (.uint field))
  have uintMask (field : UintAttribute) : m.uintMask field = m'.uintMask field :=
    Option.map_injective (fun _ _ => Datum.uint.inj) (congrFun masks (.uint field))
  have bytes (field : BytesAttribute) : m.bytes field = m'.bytes field :=
    Option.map_injective (fun _ _ => Datum.bytes.inj) (congrFun values (.bytes field))
  have bytesMask (field : BytesAttribute) : m.bytesMask field = m'.bytesMask field :=
    Option.map_injective (fun _ _ => Datum.bytes.inj) (congrFun masks (.bytes field))
  cases m
  cases m'
  congr
  · exact funext uint
  · exact funext uintMask
  · exact funext bytes
  · exact funext bytesMask

section
variable {table : P4InfoTable} {mf mf' : AfiTEntryMatchField} {name : Str} {bitWidth : UInt32}
  {attr : Attribute}

theorem decodedValue_congr (same : SameField mf mf')
    (enough : ∀ field, attr = .uint field → ¬ ReadsPast (readLength bitWidth) mf.value.str) :
    decodedValue bitWidth mf attr = decodedValue bitWidth mf' attr := by
  cases attr with
  | uint field => rw [decodedValue, decodedValue, readUint_congr same.value (enough field rfl)]
  | bytes field => rw [decodedValue, decodedValue, same.value]

theorem decodedMask_congr (same : SameField mf mf')
    (enough : ∀ field, attr = .uint field → mf.type = .ternary →
      ¬ ReadsPast (readLength bitWidth) mf.mask.str) :
    decodedMask bitWidth mf attr = decodedMask bitWidth mf' attr := by
  cases attr with
  | uint field =>
      rw [decodedMask, decodedMask, ← same.type]
      by_cases ternary : mf.type = .ternary
      · rw [if_pos ternary, if_pos ternary, readUint_congr same.mask (enough field rfl ternary)]
      · rw [if_neg ternary, if_neg ternary]
  | bytes field => rw [decodedMask, decodedMask, same.type, same.mask]

theorem valueWrite_fst : (valueWrite table mf).map Prod.fst =
    (table.matchFieldInfo mf.id).bind fun info => setAttribute info.1 info.2 := by
  unfold valueWrite
  cases table.matchFieldInfo mf.id with
  | none => rfl
  | some info =>
      rw [Option.bind_some, Option.bind_some, Option.map_map]
      exact Option.map_id'

theorem maskWrite_fst : (maskWrite table mf).map Prod.fst = fieldAttribute table mf := by
  unfold maskWrite fieldAttribute
  cases table.matchFieldInfo mf.id with
  | none => rfl
  | some info =>
      rw [Option.bind_some, Option.bind_some, Option.map_map]
      exact Option.map_id'

end

section
variable {table : P4InfoTable} {mfs mfs' : List AfiTEntryMatchField} {m m' : AfiCapEntryMatch}

/-- What follows the strings makes no difference if it is not read. -/
theorem matchObj_congr (agree : List.Forall₂ SameField mfs mfs')
    (safe : ¬ FieldExposed table mfs) (made : matchObj table {} mfs = some m)
    (made' : matchObj table {} mfs' = some m') : m = m' := by
  obtain ⟨values, masks⟩ := matchObj_values table mfs made
  obtain ⟨values', masks'⟩ := matchObj_values table mfs' made'
  rw [valueOf_empty] at values values'
  rw [maskOf_empty] at masks masks'
  apply eq_of_values
  · rw [values, values']
    funext attr
    apply overwritten_filterMap_congr agree
    · intro mf mf' same
      rw [valueWrite_fst, valueWrite_fst, same.id]
    · intro pre mf post datum split wrote last mf' same
      obtain ⟨name, bitWidth, known, named, branch, different, held⟩ := valueWrite_iff.mp wrote
      have later : ∀ later ∈ post, fieldAttribute table later ≠ some attr := by
        intro later member stands
        obtain ⟨datum, wrote⟩ := value_of_fieldAttribute stands different
        exact last later member _ wrote rfl
      rw [valueWrite_iff, ← same.id]
      refine ⟨name, bitWidth, known, named, branch, different, held.trans ?_⟩
      apply decodedValue_congr same
      intro field is past
      subst is
      exact safe ⟨pre, mf, post, name, bitWidth, field, split, known,
        attributeOf_iff.mpr ⟨named, branch⟩, later,
        Or.inl ⟨fun port => different (congrArg Attribute.uint port), past⟩⟩
  · rw [masks, masks']
    funext attr
    apply overwritten_filterMap_congr agree
    · intro mf mf' same
      rw [maskWrite_fst, maskWrite_fst, fieldAttribute, fieldAttribute, same.id]
    · intro pre mf post datum split wrote last mf' same
      obtain ⟨name, bitWidth, known, named, branch, held⟩ := maskWrite_iff.mp wrote
      have later : ∀ later ∈ post, fieldAttribute table later ≠ some attr := by
        intro later member stands
        obtain ⟨datum, wrote⟩ := mask_of_fieldAttribute stands
        exact last later member _ wrote rfl
      rw [maskWrite_iff, ← same.id]
      refine ⟨name, bitWidth, known, named, branch, held.trans ?_⟩
      apply decodedMask_congr same
      intro field is ternary past
      subst is
      exact safe ⟨pre, mf, post, name, bitWidth, field, split, known,
        attributeOf_iff.mpr ⟨named, branch⟩, later, Or.inr ⟨ternary, past⟩⟩

theorem fieldExposed_congr (agree : List.Forall₂ SameField mfs mfs')
    (exposed : FieldExposed table mfs) : FieldExposed table mfs' := by
  obtain ⟨pre, mf, post, name, bitWidth, field, rfl, known, stands, last, stray⟩ := exposed
  obtain ⟨pre', mf', post', rfl, same, behind⟩ := forall₂_around pre agree
  refine ⟨pre', mf', post', name, bitWidth, field, rfl, by rw [← same.id, known], stands, ?_, ?_⟩
  · intro later' member
    obtain ⟨later, listed, related⟩ := exists_of_forall₂ behind later' member
    rw [fieldAttribute, ← related.id]
    exact last later listed
  · rw [Stray, ← same.value, ← same.mask, ← same.type]
    exact stray

/-- What follows the strings makes a difference where it is read. -/
theorem matchObj_ne (agree : List.Forall₂ Displaced mfs mfs')
    (exposed : FieldExposed table mfs) (made : matchObj table {} mfs = some m)
    (made' : matchObj table {} mfs' = some m') : m ≠ m' := by
  intro equal
  obtain ⟨pre, mf, post, name, bitWidth, field, rfl, known, stands, last, stray⟩ := exposed
  obtain ⟨pre', mf', post', rfl, same, behind⟩ := forall₂_around pre agree
  have known' : table.matchFieldInfo mf'.id = some (name, bitWidth) := by
    rw [← same.id]
    exact known
  have last' : ∀ later ∈ post', fieldAttribute table later ≠ some (.uint field) := by
    intro later' member
    obtain ⟨later, listed, related⟩ := exists_of_forall₂ behind later' member
    rw [fieldAttribute, ← related.id]
    exact last later listed
  rcases stray with ⟨valued, past⟩ | ⟨ternary, past⟩
  · have different : Attribute.uint field ≠ .uint .l4SourcePort :=
      fun port => valued (Attribute.uint.inj port)
    have value := valueOf_last made known stands different last
    rw [equal, valueOf_last made' known' stands different last'] at value
    have number := UInt32.toUInt64_inj.mp (Datum.uint.inj (Option.some.inj value))
    exact readUint_ne same.value past same.behindValue number.symm
  · have mask := maskOf_last made known stands last
    rw [equal, maskOf_last made' known' stands last', decodedMask, decodedMask, ← same.type,
      if_pos ternary, if_pos ternary] at mask
    have number := UInt32.toUInt64_inj.mp (Datum.uint.inj (Option.some.inj mask))
    exact readUint_ne same.mask past same.behindMask number.symm

end

/-- The two parameters differ at most in what follows their strings. -/
structure SameParam (ae ae' : AfiAEntry) : Prop where
  id : ae.id = ae'.id
  value : ae.value.str = ae'.value.str

structure DisplacedParam (ae ae' : AfiAEntry) : Prop extends SameParam ae ae' where
  behind : ∀ i, ae.value.after i ≠ ae'.value.after i

/-- The last VRF of the parameters is too short for a read of four bytes. The other
parameters are read byte by byte. -/
def ParamExposed (action : P4InfoAction) (aes : List AfiAEntry) : Prop :=
  ∃ pre ae post, aes = pre ++ ae :: post ∧ action.actionParamName ae.id = str "vrf_id" ∧
    (∀ later ∈ post, action.actionParamName later.id ≠ str "vrf_id") ∧ ReadsPast 4 ae.value.str

section
variable {action : P4InfoAction} {aes aes' : List AfiAEntry} {a a' : AfiCapEntryAction}

theorem uint8_congr {s s' : CStr} (same : s.str = s'.str) : s.uint8 = s'.uint8 := by
  rw [CStr.uint8, CStr.uint8, CStr.byte_congr same (Nat.zero_le _)]

/-- The two actions differ at most in the VRF. -/
structure SameButVrf (a a' : AfiCapEntryAction) : Prop where
  destinationClassId : a.destinationClassId = a'.destinationClassId
  cpuQueue : a.cpuQueue = a'.cpuQueue
  copyToCpu : a.copyToCpu = a'.copyToCpu

theorem eq_of_sameButVrf (same : SameButVrf a a') (vrf : a.vrf = a'.vrf) : a = a' := by
  rcases same with ⟨destinationClassId, cpuQueue, copyToCpu⟩
  cases a
  cases a'
  congr

theorem sameButVrf_setParam (same : SameButVrf a a') {name : Str} {s s' : CStr}
    (text : s.str = s'.str) : SameButVrf (setParam a name s) (setParam a' name s') := by
  rcases setParam_cases name with ⟨_, sets⟩ | ⟨_, sets⟩ | ⟨_, sets⟩ | sets
  · rw [sets, sets]
    exact ⟨same.destinationClassId, same.cpuQueue, same.copyToCpu⟩
  · rw [sets, sets, uint8_congr text]
    exact ⟨rfl, same.cpuQueue, same.copyToCpu⟩
  · rw [sets, sets, uint8_congr text]
    exact ⟨same.destinationClassId, rfl, rfl⟩
  · rw [sets, sets]
    exact same

theorem setParam_vrf_of_ne {name : Str} (other : name ≠ str "vrf_id") (s : CStr) :
    (setParam a name s).vrf = a.vrf := by
  rcases setParam_cases name with ⟨vrf, _⟩ | ⟨_, sets⟩ | ⟨_, sets⟩ | sets
  · exact absurd vrf other
  · rw [sets]
  · rw [sets]
  · rw [sets]

theorem setParam_vrf (s : CStr) : (setParam a (str "vrf_id") s).vrf = some s.uint32.toUInt64 := by
  rw [setParam, if_pos rfl]

theorem not_paramExposed_tail {ae : AfiAEntry} (safe : ¬ ParamExposed action (ae :: aes)) :
    ¬ ParamExposed action aes := by
  rintro ⟨pre, last, post, rfl, exposed⟩
  exact safe ⟨ae :: pre, last, post, rfl, exposed⟩

/-- Two actions under construction that differ at most in a VRF that is still to be
overwritten. -/
theorem actionObj_congr_from (agree : List.Forall₂ SameParam aes aes') :
    ∀ {obj obj' : AfiCapEntryAction}, SameButVrf obj obj' →
      (obj.vrf = obj'.vrf ∨ ∃ ae ∈ aes, action.actionParamName ae.id = str "vrf_id") →
      ¬ ParamExposed action aes → actionObj action obj aes = some a →
      actionObj action obj' aes' = some a' → a = a' := by
  induction agree with
  | nil =>
      intro obj obj' same vrf _ made made'
      rcases vrf with vrf | ⟨ae, wrong, _⟩
      · rw [← Option.some.inj made, ← Option.some.inj made']
        exact eq_of_sameButVrf same vrf
      · exact absurd wrong List.not_mem_nil
  | @cons ae ae' rest rest' here behind ih =>
      intro obj obj' same vrf safe made made'
      rw [actionObj] at made made'
      rw [← here.id] at made'
      by_cases unnamed : action.actionParamName ae.id = []
      · rw [if_pos unnamed] at made
        cases made
      · rw [if_neg unnamed] at made made'
        refine ih (sameButVrf_setParam same here.value) ?_ (not_paramExposed_tail safe) made made'
        by_cases later : ∃ ae ∈ rest, action.actionParamName ae.id = str "vrf_id"
        · exact Or.inr later
        · left
          by_cases vrfParam : action.actionParamName ae.id = str "vrf_id"
          · rw [vrfParam, setParam_vrf, setParam_vrf, CStr.uint32_congr here.value]
            exact fun past => safe ⟨[], ae, rest, rfl, vrfParam,
              fun other member named => later ⟨other, member, named⟩, past⟩
          · rw [setParam_vrf_of_ne vrfParam, setParam_vrf_of_ne vrfParam]
            rcases vrf with vrf | ⟨other, member, named⟩
            · exact vrf
            · rcases List.mem_cons.mp member with rfl | member
              · exact absurd named vrfParam
              · exact absurd ⟨other, member, named⟩ later

theorem actionObj_congr (agree : List.Forall₂ SameParam aes aes') (safe : ¬ ParamExposed action aes)
    (made : actionObj action {} aes = some a) (made' : actionObj action {} aes' = some a') :
    a = a' :=
  actionObj_congr_from agree ⟨rfl, rfl, rfl⟩ (Or.inl rfl) safe made made'

/-- Parameters that are no VRF keep the VRF. -/
theorem actionObj_vrf_kept (aes : List AfiAEntry) : ∀ {obj : AfiCapEntryAction},
    (∀ ae ∈ aes, action.actionParamName ae.id ≠ str "vrf_id") →
      actionObj action obj aes = some a → a.vrf = obj.vrf := by
  induction aes with
  | nil =>
      intro obj _ made
      rw [← Option.some.inj made]
  | cons ae rest ih =>
      intro obj others made
      rw [actionObj] at made
      by_cases unnamed : action.actionParamName ae.id = []
      · rw [if_pos unnamed] at made
        cases made
      · rw [if_neg unnamed] at made
        rw [ih (fun later member => others later (List.mem_cons_of_mem _ member)) made,
          setParam_vrf_of_ne (others ae List.mem_cons_self)]

theorem actionObj_vrf_last (pre : List AfiAEntry) {ae : AfiAEntry} {post : List AfiAEntry}
    (named : action.actionParamName ae.id = str "vrf_id")
    (last : ∀ later ∈ post, action.actionParamName later.id ≠ str "vrf_id") :
    ∀ {obj : AfiCapEntryAction}, actionObj action obj (pre ++ ae :: post) = some a →
      a.vrf = some ae.value.uint32.toUInt64 := by
  induction pre with
  | nil =>
      intro obj made
      have nonempty : str "vrf_id" ≠ [] := by decide
      rw [List.nil_append, actionObj, named, if_neg nonempty] at made
      rw [actionObj_vrf_kept post last made, setParam_vrf]
  | cons first pre ih =>
      intro obj made
      rw [List.cons_append, actionObj] at made
      by_cases unnamed : action.actionParamName first.id = []
      · rw [if_pos unnamed] at made
        cases made
      · rw [if_neg unnamed] at made
        exact ih made

theorem paramExposed_congr (agree : List.Forall₂ SameParam aes aes')
    (exposed : ParamExposed action aes) : ParamExposed action aes' := by
  obtain ⟨pre, ae, post, rfl, named, last, past⟩ := exposed
  obtain ⟨pre', ae', post', rfl, same, behind⟩ := forall₂_around pre agree
  refine ⟨pre', ae', post', rfl, by rw [← same.id, named], ?_, by rw [← same.value]; exact past⟩
  intro later' member
  obtain ⟨later, listed, related⟩ := exists_of_forall₂ behind later' member
  rw [← related.id]
  exact last later listed

theorem actionObj_ne (agree : List.Forall₂ DisplacedParam aes aes')
    (exposed : ParamExposed action aes) (made : actionObj action {} aes = some a)
    (made' : actionObj action {} aes' = some a') : a ≠ a' := by
  intro equal
  obtain ⟨pre, ae, post, rfl, named, last, past⟩ := exposed
  obtain ⟨pre', ae', post', rfl, same, behind⟩ := forall₂_around pre agree
  have named' : action.actionParamName ae'.id = str "vrf_id" := by
    rw [← same.id]
    exact named
  have last' : ∀ later ∈ post', action.actionParamName later.id ≠ str "vrf_id" := by
    intro later' member
    obtain ⟨later, listed, related⟩ := exists_of_forall₂ behind later' member
    rw [← related.id]
    exact last later listed
  have vrf := actionObj_vrf_last pre named last made
  rw [equal, actionObj_vrf_last pre' named' last' made'] at vrf
  have number := UInt32.toUInt64_inj.mp (Option.some.inj vrf)
  have different : readUint 32 ae.value ≠ readUint 32 ae'.value :=
    readUint_ne same.value past same.behind
  exact different number.symm

end
end AfiCap
end JP4Agent
