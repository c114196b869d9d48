import JP4Agent.Library.Bytes

set_option autoImplicit false

namespace JP4Agent.Proto3

/-- A field on the wire. -/
inductive Field where
  | varint (number value : Nat)
  | bytes (number : Nat) (value : Str)
  deriving DecidableEq

/-- A varint of at most this many bytes. -/
def encodeVarint : Nat → Nat → Str
  | 0, _ => []
  | groups + 1, n =>
    if n < 128 then [UInt8.ofNat n]
    else UInt8.ofNat (n % 128 + 128) :: encodeVarint groups (n / 128)

/-- A 64-bit value takes at most ten bytes. -/
def varintBytes (n : Nat) : Str := encodeVarint 10 n

def Field.encode : Field → Str
  | .varint number value => varintBytes (number * 8) ++ varintBytes value
  | .bytes number value => varintBytes (number * 8 + 2) ++ varintBytes value.length ++ value

def encodeFields (fields : List Field) : Str := fields.flatMap Field.encode

def decodeVarint : Str → Option (Nat × Str)
  | [] => none
  | b :: rest =>
    if b < 128 then some (b.toNat, rest)
    else (decodeVarint rest).map fun more => (b.toNat - 128 + 128 * more.1, more.2)

/-- One field; the other wire types are not used. -/
def decodeField (bytes : Str) : Option (Field × Str) := do
  let (tag, rest) ← decodeVarint bytes
  let (value, rest) ← decodeVarint rest
  if tag % 8 = 0 then some (.varint (tag / 8) value, rest)
  else if tag % 8 = 2 ∧ value ≤ rest.length then
    some (.bytes (tag / 8) (rest.take value), rest.drop value)
  else none

/-- The fields up to the first that is malformed, at most this many. -/
def decodeFields : Nat → Str → List Field
  | 0, _ => []
  | fuel + 1, bytes =>
    match decodeField bytes with
    | none => []
    | some (field, rest) => field :: decodeFields fuel rest

/-- The contents of the last field of this number that holds bytes. -/
def lastBytes (fields : List Field) (number : Nat) : Option Str :=
  fields.foldl (fun found field =>
    match field with
    | .bytes n value => if n = number then some value else found
    | .varint _ _ => found) none

/-- The value of the last varint of this number. -/
def lastVarint (fields : List Field) (number : Nat) : Option Nat :=
  fields.foldl (fun found field =>
    match field with
    | .varint n value => if n = number then some value else found
    | .bytes _ _ => found) none

/-- Every field takes at least one byte. -/
def fieldsOf (bytes : Str) : List Field := decodeFields bytes.length bytes

/-- The number, and the value or its length, are what the wire format has room for. -/
def Field.Fits : Field → Prop
  | .varint number value => number < 536870912 ∧ value < 18446744073709551616
  | .bytes number value => number < 536870912 ∧ value.length < 18446744073709551616

theorem decodeVarint_encodeVarint (rest : Str) (groups : Nat) : ∀ n, n < 128 ^ (groups + 1) →
    decodeVarint (encodeVarint (groups + 1) n ++ rest) = some (n, rest) := by
  induction groups with
  | zero =>
      intro n small
      have last : n < 128 := by simpa using small
      have byte : (UInt8.ofNat n).toNat = n := by
        rw [UInt8.toNat_ofNat']
        omega
      have below : UInt8.ofNat n < 128 := by
        rw [UInt8.lt_iff_toNat_lt, byte]
        exact last
      simp [encodeVarint, decodeVarint, last, below, byte]
  | succ groups ih =>
      intro n small
      by_cases last : n < 128
      · have byte : (UInt8.ofNat n).toNat = n := by
          rw [UInt8.toNat_ofNat']
          omega
        have below : UInt8.ofNat n < 128 := by
          rw [UInt8.lt_iff_toNat_lt, byte]
          exact last
        simp [encodeVarint, decodeVarint, last, below, byte]
      · have byte : (UInt8.ofNat (n % 128 + 128)).toNat = n % 128 + 128 := by
          rw [UInt8.toNat_ofNat']
          omega
        have above : ¬ UInt8.ofNat (n % 128 + 128) < 128 := by
          rw [UInt8.lt_iff_toNat_lt, byte]
          change ¬ n % 128 + 128 < 128
          omega
        have fewer : n / 128 < 128 ^ (groups + 1) := by
          rw [Nat.pow_succ] at small
          omega
        rw [encodeVarint, if_neg last, List.cons_append, decodeVarint, if_neg above,
          ih (n / 128) fewer, byte]
        simp only [Option.map_some, Option.some.injEq, Prod.mk.injEq, and_true]
        omega

theorem decodeVarint_varintBytes {n : Nat} (small : n < 18446744073709551616) (rest : Str) :
    decodeVarint (varintBytes n ++ rest) = some (n, rest) :=
  decodeVarint_encodeVarint rest 9 n (by omega)

theorem decodeField_encode {field : Field} (fits : field.Fits) (rest : Str) :
    decodeField (field.encode ++ rest) = some (field, rest) := by
  cases field with
  | varint number value =>
      have tag : number * 8 < 18446744073709551616 := by
        have bounded := fits.1
        omega
      simp only [Field.encode, decodeField, List.append_assoc, decodeVarint_varintBytes tag,
        decodeVarint_varintBytes fits.2, Option.bind_eq_bind, Option.bind_some]
      simp
  | bytes number value =>
      have tag : number * 8 + 2 < 18446744073709551616 := by
        have bounded := fits.1
        omega
      have kind : (number * 8 + 2) % 8 = 2 := by omega
      have index : (number * 8 + 2) / 8 = number := by omega
      simp only [Field.encode, decodeField, List.append_assoc, decodeVarint_varintBytes tag,
        decodeVarint_varintBytes fits.2, Option.bind_eq_bind, Option.bind_some]
      simp [kind, index]

theorem encodeVarint_length_le (groups : Nat) : ∀ n, (encodeVarint groups n).length ≤ groups := by
  induction groups with
  | zero => exact fun _ => Nat.le_refl _
  | succ groups ih =>
      intro n
      have rest := ih (n / 128)
      rw [encodeVarint]
      split
      · rw [List.length_singleton]
        omega
      · rw [List.length_cons]
        omega

/-- A number takes one byte for each seven bits. -/
theorem encodeVarint_length (k : Nat) : ∀ groups n, k ≤ groups → (k = 0 ∨ 128 ^ k ≤ n) →
    n < 128 ^ (k + 1) → (encodeVarint (groups + 1) n).length = k + 1 := by
  induction k with
  | zero =>
      intro groups n _ _ most
      rw [encodeVarint, if_pos (by simpa using most)]
      rfl
  | succ k ih =>
      intro groups n room least most
      cases groups with
      | zero => exact absurd room (Nat.not_succ_le_zero k)
      | succ groups =>
          have large : 128 ^ (k + 1) ≤ n := least.resolve_left k.succ_ne_zero
          have more : ¬ n < 128 := by
            have one : 128 ^ 1 ≤ 128 ^ (k + 1) := Nat.pow_le_pow_right (by decide) (by omega)
            omega
          rw [Nat.pow_succ] at large most
          have above : 128 ^ k ≤ n / 128 := by omega
          have below : n / 128 < 128 ^ (k + 1) := by omega
          rw [encodeVarint, if_neg more, List.length_cons,
            ih groups (n / 128) (Nat.le_of_succ_le_succ room) (Or.inr above) below]

theorem varintBytes_length {n : Nat} (k : Nat) (room : k ≤ 9) (least : k = 0 ∨ 128 ^ k ≤ n)
    (most : n < 128 ^ (k + 1)) : (varintBytes n).length = k + 1 :=
  encodeVarint_length k 9 n room least most

/-- A short field whose number takes five bytes. -/
theorem encode_bytes_length {number : Nat} {value : Str}
    (tag : (varintBytes (number * 8 + 2)).length = 5) (short : value.length < 128) :
    (Field.bytes number value).encode.length = 6 + value.length := by
  have length := varintBytes_length 0 (by decide) (Or.inl rfl) short
  rw [Field.encode, List.length_append, List.length_append, tag, length]

/-- Two varints come before the bytes of a field. -/
theorem encode_bytes_length_le (number : Nat) (value : Str) :
    (Field.bytes number value).encode.length ≤ 20 + value.length := by
  have tag : (varintBytes (number * 8 + 2)).length ≤ 10 := encodeVarint_length_le 10 _
  have length : (varintBytes value.length).length ≤ 10 := encodeVarint_length_le 10 _
  rw [Field.encode, List.length_append, List.length_append]
  omega

theorem encode_varint_length_le (number value : Nat) :
    (Field.varint number value).encode.length ≤ 20 := by
  have tag : (varintBytes (number * 8)).length ≤ 10 := encodeVarint_length_le 10 _
  have value : (varintBytes value).length ≤ 10 := encodeVarint_length_le 10 _
  rw [Field.encode, List.length_append]
  omega

theorem encodeFields_append (fields others : List Field) :
    encodeFields (fields ++ others) = encodeFields fields ++ encodeFields others :=
  List.flatMap_append

theorem length_le_encodeFields {field : Field} {fields : List Field} (member : field ∈ fields) :
    field.encode.length ≤ (encodeFields fields).length := by
  obtain ⟨before, after, split⟩ := List.append_of_mem member
  have cons : encodeFields (field :: after) = field.encode ++ encodeFields after :=
    List.flatMap_cons
  rw [split, encodeFields_append, cons]
  simp only [List.length_append]
  omega

theorem encode_length_pos (field : Field) : 0 < field.encode.length := by
  have varint : ∀ n, 0 < (varintBytes n).length := by
    intro n
    rw [varintBytes, encodeVarint]
    split <;> simp
  cases field with
  | varint number value =>
      have tag := varint (number * 8)
      simp only [Field.encode, List.length_append]
      omega
  | bytes number value =>
      have tag := varint (number * 8 + 2)
      simp only [Field.encode, List.length_append]
      omega

theorem decodeFields_encodeFields {fields : List Field} (fits : ∀ field ∈ fields, field.Fits) :
    ∀ fuel, fields.length ≤ fuel → decodeFields fuel (encodeFields fields) = fields := by
  induction fields with
  | nil =>
      intro fuel _
      cases fuel <;> rfl
  | cons field rest ih =>
      intro fuel enough
      cases fuel with
      | zero => simp at enough
      | succ fuel =>
          have cons : encodeFields (field :: rest) = field.encode ++ encodeFields rest :=
            List.flatMap_cons
          rw [decodeFields, cons, decodeField_encode (fits field List.mem_cons_self)]
          simp only [List.length_cons] at enough
          simp only [ih (fun f member => fits f (List.mem_cons_of_mem _ member)) fuel (by omega)]

theorem length_le_encodeFields_length (fields : List Field) :
    fields.length ≤ (encodeFields fields).length := by
  induction fields with
  | nil => simp
  | cons field rest ih =>
      have cons : encodeFields (field :: rest) = field.encode ++ encodeFields rest :=
        List.flatMap_cons
      have positive := encode_length_pos field
      rw [cons, List.length_append, List.length_cons]
      omega

/-- Fields come back in order. -/
theorem fieldsOf_encodeFields {fields : List Field} (fits : ∀ field ∈ fields, field.Fits) :
    fieldsOf (encodeFields fields) = fields :=
  decodeFields_encodeFields fits _ (length_le_encodeFields_length fields)

/-- A fold that keeps what the last of its elements gives. -/
theorem foldl_keeps_last {α β : Type} {step : Option β → α → Option β} (pick : α → Option β)
    (picks : ∀ found a, step found a = (pick a).or found) (l : List α) :
    ∀ found, l.foldl step found = (l.foldl step none).or found := by
  induction l with
  | nil => exact fun found => rfl
  | cons a rest ih =>
      intro found
      rw [List.foldl_cons, List.foldl_cons, ih (step found a), ih (step none a), picks, picks,
        Option.or_none, Option.or_assoc]

section
variable (number : Nat) (fields others : List Field)

/-- A later field takes precedence. -/
theorem lastBytes_append :
    lastBytes (fields ++ others) number =
      (lastBytes others number).or (lastBytes fields number) := by
  rw [lastBytes, List.foldl_append]
  refine foldl_keeps_last (fun field =>
    match field with
    | .bytes n value => if n = number then some value else none
    | .varint _ _ => none) (fun found field => ?_) others _
  cases field with
  | varint n value => rfl
  | bytes n value => by_cases same : n = number <;> simp [same]

theorem lastVarint_append :
    lastVarint (fields ++ others) number =
      (lastVarint others number).or (lastVarint fields number) := by
  rw [lastVarint, List.foldl_append]
  refine foldl_keeps_last (fun field =>
    match field with
    | .varint n value => if n = number then some value else none
    | .bytes _ _ => none) (fun found field => ?_) others _
  cases field with
  | bytes n value => rfl
  | varint n value => by_cases same : n = number <;> simp [same]

end
end JP4Agent.Proto3
