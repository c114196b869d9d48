import JP4Agent.AfiCapOrder

set_option autoImplicit false

namespace JP4Agent.AfiCap

/-- What a `UintValue` or a `BytesValue` holds. -/
inductive Datum where
  | uint (v : UInt64)
  | bytes (s : Str)
  deriving DecidableEq

def valueOf (obj : AfiCapEntryMatch) : Attribute → Option Datum
  | .uint field => (obj.uint field).map .uint
  | .bytes field => (obj.bytes field).map .bytes

def maskOf (obj : AfiCapEntryMatch) : Attribute → Option Datum
  | .uint field => (obj.uintMask field).map .uint
  | .bytes field => (obj.bytesMask field).map .bytes

/-- The value of a field, decoded for an attribute of this kind. -/
def decodedValue (bitWidth : UInt32) (mf : AfiTEntryMatchField) : Attribute → Datum
  | .uint _ => .uint (readUint bitWidth mf.value).toUInt64
  | .bytes _ => .bytes mf.value.str

/-- The mask of a field, which is all ones unless the field is ternary. -/
def decodedMask (bitWidth : UInt32) (mf : AfiTEntryMatchField) : Attribute → Datum
  | .uint _ =>
    .uint (if mf.type = .ternary then readUint bitWidth mf.mask else 0xffffffff).toUInt64
  | .bytes _ => .bytes (if mf.type = .ternary then mf.mask.str else List.replicate 6 0xff)

theorem valueOf_empty : valueOf {} = fun _ => none := by
  funext attr
  cases attr <;> rfl

theorem maskOf_empty : maskOf {} = fun _ => none := by
  funext attr
  cases attr <;> rfl

section
variable (obj : AfiCapEntryMatch)

theorem valueOf_setUint (field : UintAttribute) (v m : UInt32) :
    valueOf (setUint obj field v m) =
      Function.update (valueOf obj) (.uint field) (some (.uint v.toUInt64)) := by
  funext attr
  cases attr with
  | uint other =>
      by_cases same : other = field
      · simp [same, valueOf, setUint]
      · simp [same, valueOf, setUint]
  | bytes other => simp [valueOf, setUint]

theorem maskOf_setUint (field : UintAttribute) (v m : UInt32) :
    maskOf (setUint obj field v m) =
      Function.update (maskOf obj) (.uint field) (some (.uint m.toUInt64)) := by
  funext attr
  cases attr with
  | uint other =>
      by_cases same : other = field
      · simp [same, maskOf, setUint]
      · simp [same, maskOf, setUint]
  | bytes other => simp [maskOf, setUint]

theorem valueOf_setBytes (field : BytesAttribute) (v m : Str) :
    valueOf (setBytes obj field v m) =
      Function.update (valueOf obj) (.bytes field) (some (.bytes v)) := by
  funext attr
  cases attr with
  | uint other => simp [valueOf, setBytes]
  | bytes other =>
      by_cases same : other = field
      · simp [same, valueOf, setBytes]
      · simp [same, valueOf, setBytes]

theorem maskOf_setBytes (field : BytesAttribute) (v m : Str) :
    maskOf (setBytes obj field v m) =
      Function.update (maskOf obj) (.bytes field) (some (.bytes m)) := by
  funext attr
  cases attr with
  | uint other => simp [maskOf, setBytes]
  | bytes other =>
      by_cases same : other = field
      · simp [same, maskOf, setBytes]
      · simp [same, maskOf, setBytes]

/-- The branch of the layer 4 source port sets a mask only. -/
theorem maskOf_setMask (field : UintAttribute) (v m : UInt32) :
    maskOf { obj with
      uintMask := Function.update (Function.update obj.uintMask field (some v.toUInt64))
        field (some m.toUInt64) } =
      Function.update (maskOf obj) (.uint field) (some (.uint m.toUInt64)) := by
  funext attr
  cases attr with
  | uint other =>
      by_cases same : other = field
      · simp [same, maskOf]
      · simp [same, maskOf]
  | bytes other => simp [maskOf]

variable (bitWidth : UInt32) (mf : AfiTEntryMatchField) (attr : Attribute)

theorem valueOf_setTo (different : attr ≠ .uint .l4SourcePort) :
    valueOf (setTo obj bitWidth mf (some attr)) =
      Function.update (valueOf obj) attr (some (decodedValue bitWidth mf attr)) := by
  cases attr with
  | uint field =>
      have other : field ≠ .l4SourcePort := fun same => different (congrArg _ same)
      rw [setTo, setUintAttribute, if_neg other]
      exact valueOf_setUint obj field _ _
  | bytes field => exact valueOf_setBytes obj field _ _

theorem valueOf_setTo_port :
    valueOf (setTo obj bitWidth mf (some (.uint .l4SourcePort))) = valueOf obj := by
  funext attr
  cases attr <;> rfl

theorem maskOf_setTo :
    maskOf (setTo obj bitWidth mf (some attr)) =
      Function.update (maskOf obj) attr (some (decodedMask bitWidth mf attr)) := by
  cases attr with
  | uint field =>
      by_cases port : field = .l4SourcePort
      · rw [setTo, setUintAttribute, if_pos port]
        exact maskOf_setMask obj field _ _
      · rw [setTo, setUintAttribute, if_neg port]
        exact maskOf_setUint obj field _ _
  | bytes field => exact maskOf_setBytes obj field _ _

end

section
variable (table : P4InfoTable)

/-- The attribute whose value a field sets, and what to. -/
def valueWrite (mf : AfiTEntryMatchField) : Option (Attribute × Datum) :=
  (table.matchFieldInfo mf.id).bind fun info =>
    (setAttribute info.1 info.2).map fun attr => (attr, decodedValue info.2 mf attr)

/-- The attribute whose mask a field sets, and what to. -/
def maskWrite (mf : AfiTEntryMatchField) : Option (Attribute × Datum) :=
  (table.matchFieldInfo mf.id).bind fun info =>
    (attributeOf info.1 info.2).map fun attr => (attr, decodedMask info.2 mf attr)

theorem matchObj_values (mfs : List AfiTEntryMatchField) : ∀ {obj m : AfiCapEntryMatch},
    matchObj table obj mfs = some m →
      valueOf m = overwritten (valueOf obj) (mfs.filterMap (valueWrite table)) ∧
        maskOf m = overwritten (maskOf obj) (mfs.filterMap (maskWrite table)) := by
  induction mfs with
  | nil =>
      intro obj m made
      rw [matchObj, Option.some.injEq] at made
      rw [made]
      exact ⟨rfl, rfl⟩
  | cons mf rest ih =>
      intro obj m made
      rw [matchObj] at made
      cases known : table.matchFieldInfo mf.id with
      | none =>
          rw [known] at made
          cases made
      | some info =>
          rw [known] at made
          obtain ⟨values, masks⟩ := ih made
          rw [values, masks, setField_eq, List.filterMap_cons, List.filterMap_cons, valueWrite,
            maskWrite, known, Option.bind_some, Option.bind_some, setAttribute]
          cases attributeOf info.1 info.2 with
          | none => exact ⟨rfl, rfl⟩
          | some attr =>
              refine ⟨?_, congrArg (overwritten · _) (maskOf_setTo obj info.2 mf attr)⟩
              by_cases port : attr = .uint .l4SourcePort
              · rw [port, valueOf_setTo_port]
                rfl
              · rw [valueOf_setTo obj info.2 mf attr port]
                have kept : (some attr).filter (fun attr => attr ≠ .uint .l4SourcePort) =
                    some attr := by
                  simp [Option.filter, port]
                rw [kept]
                rfl

/-- There is a match object exactly if the table has all of the fields. -/
theorem matchObj_some_iff (mfs : List AfiTEntryMatchField) : ∀ obj : AfiCapEntryMatch,
    (∃ m, matchObj table obj mfs = some m) ↔
      ∀ mf ∈ mfs, ∃ info, table.matchFieldInfo mf.id = some info := by
  induction mfs with
  | nil => exact fun obj => ⟨fun _ _ wrong => absurd wrong List.not_mem_nil, fun _ => ⟨obj, rfl⟩⟩
  | cons mf rest ih =>
      intro obj
      rw [List.forall_mem_cons, matchObj]
      cases known : table.matchFieldInfo mf.id with
      | none => simp
      | some info => simp [ih]

end
end JP4Agent.AfiCap
