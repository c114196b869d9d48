import JP4Agent.AfiWire

set_option autoImplicit false

namespace JP4Agent.AfiWire
open Proto3

/-- The numbers of the fields, and the values of varints, have the room they need. -/
def Tagged (fields : List Field) : Prop :=
  ∀ field ∈ fields,
    match field with
    | .varint number value => number < 536870912 ∧ value < 18446744073709551616
    | .bytes number _ => number < 536870912

/-- The fields have the room they need on the wire. -/
def AllFit (fields : List Field) : Prop := ∀ field ∈ fields, field.Fits

theorem tagged_append (fields others : List Field) :
    Tagged (fields ++ others) ↔ Tagged fields ∧ Tagged others := List.forall_mem_append

theorem allFit_append (fields others : List Field) :
    AllFit (fields ++ others) ↔ AllFit fields ∧ AllFit others := List.forall_mem_append

theorem allFit_of_short {fields : List Field} (tagged : Tagged fields)
    (short : (encodeFields fields).length < 18446744073709551616) : AllFit fields := by
  intro field member
  have within := length_le_encodeFields member
  have known := tagged field member
  cases field with
  | varint number value => exact known
  | bytes number value =>
      refine ⟨known, ?_⟩
      simp only [Field.encode, List.length_append] at within
      omega

theorem tagged_wrapper {α : Type} {number : Nat} (known : number < 536870912) (value : Option α)
    (wrap : α → Str) : Tagged (value.toList.map fun v => .bytes number (wrap v)) := by
  intro field member
  obtain ⟨v, _, rfl⟩ := List.mem_map.mp member
  exact known

section
variable {number : Nat} (known : number < 536870912)
include known

theorem tagged_stringField (value : Option Str) : Tagged (stringField number value) :=
  tagged_wrapper known value _

theorem tagged_uintField (value : Option UInt64) : Tagged (uintField number value) :=
  tagged_wrapper known value _

theorem tagged_boolField (value : Option Bool) : Tagged (boolField number value) :=
  tagged_wrapper known value _

end

section
variable (fields others : List Field) (number : Nat)

theorem getString_append :
    getString (fields ++ others) number =
      (getString others number).or (getString fields number) := by
  rw [getString, lastBytes_append, getString, getString]
  cases lastBytes others number <;> rfl

theorem getUint_append :
    getUint (fields ++ others) number = (getUint others number).or (getUint fields number) := by
  rw [getUint, lastBytes_append, getUint, getUint]
  cases lastBytes others number <;> rfl

theorem getBool_append :
    getBool (fields ++ others) number = (getBool others number).or (getBool fields number) := by
  rw [getBool, lastBytes_append, getBool, getBool]
  cases lastBytes others number <;> rfl

end

/-- A wrapper message that is looked up under another number is not found. -/
theorem lastBytes_wrapper {α : Type} (k number : Nat) (value : Option α) (wrap : α → Str) :
    lastBytes (value.toList.map fun v => .bytes k (wrap v)) number =
      if k = number then value.map wrap else none := by
  cases value with
  | none => by_cases same : k = number <;> simp [lastBytes]
  | some v => by_cases same : k = number <;> simp [lastBytes, same]

section
variable (k number : Nat)

theorem getString_stringField {value : Option Str} (fits : AllFit (stringField k value)) :
    getString (stringField k value) number = if k = number then value else none := by
  rw [getString, stringField, lastBytes_wrapper]
  cases value with
  | none => by_cases same : k = number <;> simp
  | some s =>
      have inner := (fits _ (List.mem_map.mpr ⟨s, by simp, rfl⟩)).2
      by_cases empty : s = []
      · by_cases same : k = number <;>
          simp [same, empty, fieldsOf, decodeFields, encodeFields, lastBytes]
      · have whole : AllFit [Field.bytes 1 s] := by
          intro field member
          rw [List.mem_singleton.mp member]
          refine ⟨by omega, ?_⟩
          rw [if_neg empty] at inner
          have within := length_le_encodeFields (List.mem_singleton.mpr (rfl : Field.bytes 1 s = _))
          simp only [Field.encode, List.length_append] at within
          omega
        have back := fieldsOf_encodeFields whole
        by_cases same : k = number <;> simp [same, empty, back, lastBytes]

theorem getUint_uintField (value : Option UInt64) :
    getUint (uintField k value) number = if k = number then value else none := by
  rw [getUint, uintField, lastBytes_wrapper]
  cases value with
  | none => by_cases same : k = number <;> simp
  | some v =>
      by_cases zero : v = 0
      · by_cases same : k = number <;>
          simp [same, zero, fieldsOf, decodeFields, encodeFields, lastVarint]
      · have whole : AllFit [Field.varint 1 v.toNat] := by
          intro field member
          rw [List.mem_singleton.mp member]
          exact ⟨by omega, v.toNat_lt⟩
        have back := fieldsOf_encodeFields whole
        by_cases same : k = number <;> simp [same, zero, back, lastVarint]

theorem getBool_boolField (value : Option Bool) :
    getBool (boolField k value) number = if k = number then value else none := by
  rw [getBool, boolField, lastBytes_wrapper]
  have set : fieldsOf (encodeFields [Field.varint 1 1]) = [Field.varint 1 1] := by decide
  cases value with
  | none => by_cases same : k = number <;> simp
  | some v =>
      cases v with
      | false =>
          by_cases same : k = number <;>
            simp [same, fieldsOf, decodeFields, encodeFields, lastVarint]
      | true => by_cases same : k = number <;> simp [same, set, lastVarint]

variable {k number} (apart : k ≠ number)
include apart

theorem getString_uintField_ne (value : Option UInt64) :
    getString (uintField k value) number = none := by
  rw [getString, uintField, lastBytes_wrapper, if_neg apart]
  rfl

theorem getUint_stringField_ne (value : Option Str) :
    getUint (stringField k value) number = none := by
  rw [getUint, stringField, lastBytes_wrapper, if_neg apart]
  rfl

theorem getUint_boolField_ne (value : Option Bool) : getUint (boolField k value) number = none := by
  rw [getUint, boolField, lastBytes_wrapper, if_neg apart]
  rfl

theorem getBool_uintField_ne (value : Option UInt64) :
    getBool (uintField k value) number = none := by
  rw [getBool, uintField, lastBytes_wrapper, if_neg apart]
  rfl

end

/-- The messages of this class come back, if they are below 2 GiB. -/
def ClassRoundTrips (c : AfiClass) : Prop :=
  ∀ message : c.Message, (encodeFields (toFields c message)).length < 2147483648 →
    ofFields (fieldsOf (encodeFields (toFields c message))) c = message

theorem classRoundTrips_of {c : AfiClass} (tagged : ∀ m : c.Message, Tagged (toFields c m))
    (reads : ∀ m : c.Message, AllFit (toFields c m) → ofFields (toFields c m) c = m) :
    ClassRoundTrips c := by
  intro m short
  have fits := allFit_of_short (tagged m) (by omega)
  rw [fieldsOf_encodeFields fits]
  exact reads m fits

theorem tree_roundTrips : ClassRoundTrips .tree := by
  apply classRoundTrips_of
  · intro m
    simp [toFields, tagged_append, tagged_stringField, tagged_uintField]
  · intro m fits
    simp only [toFields, allFit_append] at fits
    simp [ofFields, toFields, getString_append, getString_stringField, getUint_append,
      getUint_uintField, getUint_stringField_ne, getString_uintField_ne, fits]

theorem treeEntry_roundTrips : ClassRoundTrips .treeEntry := by
  apply classRoundTrips_of
  · intro m
    simp [toFields, tagged_append, tagged_stringField, tagged_uintField]
  · intro m fits
    simp only [toFields, allFit_append] at fits
    simp [ofFields, toFields, getString_append, getString_stringField, getUint_append,
      getUint_uintField, getUint_stringField_ne, getString_uintField_ne, fits]

theorem cap_roundTrips : ClassRoundTrips .cap := by
  apply classRoundTrips_of
  · intro m
    simp [toFields, tagged_append, tagged_stringField, tagged_uintField]
  · intro m fits
    simp only [toFields, allFit_append] at fits
    simp [ofFields, toFields, getString_append, getString_stringField, getUint_append,
      getUint_uintField, getUint_stringField_ne, getString_uintField_ne, fits]

theorem capMatch_roundTrips : ClassRoundTrips .capMatch := by
  apply classRoundTrips_of
  · intro m
    simp [toFields, tagged_append, tagged_boolField]
  · intro m _
    simp [ofFields, toFields, getBool_append, getBool_boolField]

theorem capAction_roundTrips : ClassRoundTrips .capAction := by
  apply classRoundTrips_of
  · intro m
    simp [toFields, tagged_boolField]
  · intro m _
    simp [ofFields, toFields, getBool_boolField]

theorem capEntry_roundTrips : ClassRoundTrips .capEntry := by
  apply classRoundTrips_of
  · intro m
    simp [toFields, tagged_append, tagged_stringField]
  · intro m fits
    simp only [toFields, allFit_append] at fits
    simp [ofFields, toFields, getString_append, getString_stringField, fits]

theorem capEntryAction_roundTrips : ClassRoundTrips .capEntryAction := by
  apply classRoundTrips_of
  · intro m
    simp [toFields, tagged_append, tagged_uintField, tagged_boolField]
  · intro m _
    simp [ofFields, toFields, getUint_append, getUint_uintField, getUint_boolField_ne,
      getBool_append, getBool_boolField, getBool_uintField_ne]

theorem treeEncapEntry_roundTrips : ClassRoundTrips .treeEncapEntry := by
  apply classRoundTrips_of
  · intro m
    simp [toFields, tagged_append, tagged_stringField]
  · intro m fits
    simp only [toFields, allFit_append] at fits
    simp [ofFields, toFields, getString_append, getString_stringField, fits]

/-- Wrapper messages by their field numbers, in the order of the wire. -/
def wrapperFields (wrappers : List (Nat × Option Str)) : List Field :=
  wrappers.flatMap fun w => w.2.toList.map fun wrapper => .bytes w.1 wrapper

/-- With different numbers, each wrapper is found under its own. -/
theorem lastBytes_wrapperFields {wrappers : List (Nat × Option Str)}
    (distinct : (wrappers.map Prod.fst).Nodup) {number : Nat} {value : Option Str}
    (listed : (number, value) ∈ wrappers) :
    lastBytes (wrapperFields wrappers) number = value := by
  have unlisted : ∀ {others : List (Nat × Option Str)}, number ∉ others.map Prod.fst →
      lastBytes (wrapperFields others) number = none := by
    intro others
    induction others with
    | nil => exact fun _ => rfl
    | cons w rest ih =>
        intro absent
        simp only [List.map_cons, List.mem_cons, not_or] at absent
        rw [wrapperFields, List.flatMap_cons, lastBytes_append, lastBytes_wrapper,
          if_neg (Ne.symm absent.1), Option.or_none]
        exact ih absent.2
  induction wrappers with
  | nil => simp at listed
  | cons w rest ih =>
      rw [List.map_cons, List.nodup_cons] at distinct
      rw [wrapperFields, List.flatMap_cons, lastBytes_append, lastBytes_wrapper]
      rcases List.mem_cons.mp listed with rfl | later
      · have last : lastBytes (wrapperFields rest) number = none := unlisted distinct.1
        rw [wrapperFields] at last
        simp [last]
      · have apart : w.1 ≠ number := by
          intro same
          rw [same] at distinct
          exact distinct.1 (List.mem_map_of_mem (f := Prod.fst) later)
        rw [if_neg apart, Option.or_none]
        exact ih distinct.2 later

def wrapUint (v : UInt64) : Str := encodeFields (if v = 0 then [] else [.varint 1 v.toNat])

def wrapString (s : Str) : Str := encodeFields (if s = [] then [] else [.bytes 1 s])

theorem uintField_eq (number : Nat) (value : Option UInt64) :
    uintField number value =
      (value.map wrapUint).toList.map fun wrapper => .bytes number wrapper := by
  cases value <;> rfl

theorem stringField_eq (number : Nat) (value : Option Str) :
    stringField number value =
      (value.map wrapString).toList.map fun wrapper => .bytes number wrapper := by
  cases value <;> rfl

def matchWrappers (m : AfiCapEntryMatch) : List (Nat × Option Str) :=
  [(28405100, (m.uint .destinationPort).map wrapUint),
    (45503681, (m.uintMask .ingressClassId).map wrapUint),
    (52075509, (m.uint .sourcePort).map wrapUint),
    (54776669, (m.bytes .destinationMacAddress).map wrapString),
    (73805004, (m.uint .icmpType).map wrapUint),
    (92916691, (m.uintMask .l4SourcePort).map wrapUint),
    (105929149, (m.uintMask .ipProtocol).map wrapUint),
    (114604274, (m.uintMask .sourcePort).map wrapUint),
    (117014930, (m.uint .arpTargetIpv4Address).map wrapUint),
    (126093135, (m.uintMask .ipv4Ttl).map wrapUint),
    (143906330, (m.bytesMask .destinationMacAddress).map wrapString),
    (153122173, (m.uint .outerVlanId).map wrapUint), (153235660, (m.uint .ethertype).map wrapUint),
    (181758066, (m.bytes .sourceMacAddress).map wrapString),
    (195867119, (m.uintMask .virtualRoutingAndForwardingId).map wrapUint),
    (231397713, (m.uintMask .outerVlanDot1p).map wrapUint),
    (263367791, (m.uintMask .arpTargetIpv4Address).map wrapUint),
    (268263093, (m.uint .l4DestinationPort).map wrapUint),
    (284393839, (m.uintMask .sourceIpv4Address).map wrapUint),
    (305938482, (m.uintMask .l4DestinationPort).map wrapUint),
    (312743493, (m.uintMask .ethertype).map wrapUint),
    (323697253, (m.uintMask .destinationPort).map wrapUint),
    (327635748, (m.uint .ipProtocol).map wrapUint),
    (335549135, (m.bytesMask .sourceMacAddress).map wrapString),
    (336707838, (m.uint .tos).map wrapUint), (358418578, (m.uint .sourceIpv4Address).map wrapUint),
    (367865752, (m.uintMask .destinationIpv4Address).map wrapUint),
    (374409797, (m.uintMask .icmpType).map wrapUint),
    (378476815, (m.uint .destinationIpv4Address).map wrapUint),
    (382902254, (m.uint .l4SourcePort).map wrapUint), (401640867, (m.uintMask .tos).map wrapUint),
    (406427760, (m.uint .outerVlanDot1p).map wrapUint),
    (416561082, (m.uintMask .outerVlanId).map wrapUint),
    (450894048, (m.uint .ingressClassId).map wrapUint),
    (462196242, (m.uint .virtualRoutingAndForwardingId).map wrapUint),
    (480696818, (m.uint .ipv4Ttl).map wrapUint)]

theorem matchFields_eq (m : AfiCapEntryMatch) :
    matchFields m = wrapperFields (matchWrappers m) := by
  unfold matchFields matchWrappers
  simp only [wrapperFields, List.flatMap_cons, List.flatMap_nil, List.append_nil,
    List.append_assoc, uintField_eq, stringField_eq]

theorem matchWrappers_distinct (m : AfiCapEntryMatch) :
    ((matchWrappers m).map Prod.fst).Nodup := by
  have increasing : ((matchWrappers m).map Prod.fst).IsChain (· < ·) := by
    simp [matchWrappers]
  exact (List.isChain_iff_pairwise.mp increasing).imp fun below => below.ne

/-- A wrapped integer is read back. -/
theorem getUint_match {m : AfiCapEntryMatch} {number : Nat} {value : Option UInt64}
    (listed : (number, value.map wrapUint) ∈ matchWrappers m) :
    getUint (matchFields m) number = value := by
  have alone := getUint_uintField number number value
  have single : lastBytes (wrapperFields [(number, value.map wrapUint)]) number =
      value.map wrapUint := lastBytes_wrapperFields (by simp) List.mem_cons_self
  simp only [wrapperFields, List.flatMap_cons, List.flatMap_nil, List.append_nil] at single
  rw [getUint, uintField_eq, single] at alone
  rw [getUint, matchFields_eq, lastBytes_wrapperFields (matchWrappers_distinct m) listed]
  simpa using alone

/-- Wrapped bytes are read back. -/
theorem getString_match {m : AfiCapEntryMatch} (fits : AllFit (matchFields m)) {number : Nat}
    {value : Option Str} (listed : (number, value.map wrapString) ∈ matchWrappers m) :
    getString (matchFields m) number = value := by
  have part : AllFit (stringField number value) := by
    intro field member
    rw [stringField_eq] at member
    apply fits
    rw [matchFields_eq, wrapperFields, List.mem_flatMap]
    exact ⟨_, listed, member⟩
  have alone := getString_stringField number number part
  have single : lastBytes (wrapperFields [(number, value.map wrapString)]) number =
      value.map wrapString := lastBytes_wrapperFields (by simp) List.mem_cons_self
  simp only [wrapperFields, List.flatMap_cons, List.flatMap_nil, List.append_nil] at single
  rw [getString, stringField_eq, single] at alone
  rw [getString, matchFields_eq, lastBytes_wrapperFields (matchWrappers_distinct m) listed]
  simpa using alone

theorem capEntryMatch_roundTrips : ClassRoundTrips .capEntryMatch := by
  apply classRoundTrips_of
  · intro m
    change Tagged (matchFields m)
    unfold matchFields
    simp [tagged_append, tagged_stringField, tagged_uintField]
  · intro m fits
    rcases m with ⟨uint, uintMask, bytes, bytesMask⟩
    change getMatch (matchFields _) = _
    simp only [getMatch, AfiCapEntryMatch.mk.injEq]
    refine ⟨?_, ?_, ?_, ?_⟩
    · funext field
      cases field <;> exact getUint_match (by simp [matchWrappers, uintNumber])
    · funext field
      cases field <;> exact getUint_match (by simp [matchWrappers, uintNumber])
    · funext field
      cases field <;> exact getString_match fits (by simp [matchWrappers, bytesNumber])
    · funext field
      cases field <;> exact getString_match fits (by simp [matchWrappers, bytesNumber])

theorem tagOf_tagNumber (tag : AfiEncapEntryAfiField) : tagOf (tagNumber tag) = tag := by
  cases tag <;> rfl

/-- A key of an encap entry comes back. -/
theorem getKey_keyFields {key : AfiKeyKey}
    (short : (encodeFields (keyFields key)).length < 18446744073709551616) :
    getKey (encodeFields (keyFields key)) = key := by
  have tagged : Tagged (keyFields key) := by
    intro field member
    rcases List.mem_append.mp member with enumerator | data
    · split at enumerator
      · simp at enumerator
      · rw [List.mem_singleton.mp enumerator]
        cases key.fieldName <;> simp [tagNumber]
    · rw [List.mem_singleton.mp data]
      simp
  have fits := allFit_of_short tagged short
  have data := (fits (.bytes 2 (encodeFields (stringField 53072422 key.fieldData)))
    (List.mem_append_right _ List.mem_cons_self)).2
  have inner := allFit_of_short (tagged_stringField (by decide) key.fieldData) data
  have text : lastBytes (keyFields key) 2 =
      some (encodeFields (stringField 53072422 key.fieldData)) := by
    rw [keyFields, lastBytes_append]
    rfl
  have enumerator : (lastVarint (keyFields key) 1).getD 0 = tagNumber key.fieldName := by
    rw [keyFields, lastVarint_append]
    cases key.fieldName <;> rfl
  unfold getKey
  rw [fieldsOf_encodeFields fits, text, enumerator, tagOf_tagNumber, Option.getD_some,
    fieldsOf_encodeFields inner, getString_stringField _ _ inner]
  simp

section
variable (keys : List AfiKeyKey)

theorem getRepeated_keys :
    getRepeated (keys.map fun key => .bytes 212250188 (encodeFields (keyFields key))) 212250188 =
      keys.map fun key => encodeFields (keyFields key) := by
  unfold getRepeated
  simp

theorem lastBytes_keys {number : Nat} (apart : 212250188 ≠ number) :
    lastBytes (keys.map fun key => .bytes 212250188 (encodeFields (keyFields key))) number =
      none := by
  induction keys with
  | nil => rfl
  | cons key rest ih =>
      rw [List.map_cons, ← List.singleton_append, lastBytes_append, ih]
      simp [lastBytes, apart]

theorem getRepeated_stringField {k number : Nat} (apart : k ≠ number) (value : Option Str) :
    getRepeated (stringField k value) number = [] := by
  cases value <;> simp [getRepeated, stringField, apart]

end

theorem encapEntry_roundTrips : ClassRoundTrips .encapEntry := by
  apply classRoundTrips_of
  · intro m
    simp only [toFields, tagged_append]
    refine ⟨tagged_stringField (by decide) _, fun field member => ?_⟩
    obtain ⟨key, _, rfl⟩ := List.mem_map.mp member
    simp
  · intro m fits
    rcases m with ⟨afiKey, parentName⟩
    simp only [toFields, allFit_append] at fits
    have back : ∀ key ∈ afiKey, getKey (encodeFields (keyFields key)) = key := by
      intro key member
      exact getKey_keyFields (fits.2 _ (List.mem_map_of_mem member)).2
    have repeated := getRepeated_keys afiKey
    have parent := getString_stringField 155499100 155499100 fits.1
    unfold getRepeated at repeated
    simp only [ofFields, toFields, AfiEncapEntry.mk.injEq]
    constructor
    · have first : getRepeated (stringField 155499100 parentName) 212250188 = [] :=
        getRepeated_stringField (by decide) parentName
      unfold getRepeated at first ⊢
      rw [List.filterMap_append, first, repeated, List.nil_append, List.map_map]
      exact (List.map_congr_left back).trans (List.map_id afiKey)
    · unfold getString at parent ⊢
      rw [lastBytes_append, lastBytes_keys afiKey (by decide), Option.none_or]
      simpa using parent

theorem classRoundTrips (c : AfiClass) : ClassRoundTrips c := by
  cases c with
  | tree => exact tree_roundTrips
  | treeEntry => exact treeEntry_roundTrips
  | cap => exact cap_roundTrips
  | capMatch => exact capMatch_roundTrips
  | capAction => exact capAction_roundTrips
  | capEntry => exact capEntry_roundTrips
  | capEntryMatch => exact capEntryMatch_roundTrips
  | capEntryAction => exact capEntryAction_roundTrips
  | encap => exact fun _ _ => rfl
  | encapEntry => exact encapEntry_roundTrips
  | treeEncap => exact fun _ _ => rfl
  | treeEncapEntry => exact treeEncapEntry_roundTrips

/-- What is assumed of the protobuf library holds of the wire format. -/
theorem protobuf_roundTrips : protobuf.RoundTrips :=
  fun c message _ short => classRoundTrips c message short

end JP4Agent.AfiWire
