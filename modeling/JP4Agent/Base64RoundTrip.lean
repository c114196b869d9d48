import JP4Agent.Base64Decode

set_option autoImplicit false

namespace JP4Agent.Base64

/-- Decoding the encoding of `bytes` with capacity `len` gives them back, whatever
the scratch arrays and the buffer held. -/
def RoundTrips (bytes : Str) (len : UInt32) : Prop :=
  ∀ (scratch scratch' : Scratch) (buf : HeapBuffer),
    (base64DecodeFrom scratch' (base64EncodeFrom scratch bytes) len).result = .ok bytes.length ∧
      ((base64DecodeFrom scratch' (base64EncodeFrom scratch bytes) len).memory buf).load 0
        bytes.length = bytes

/-- Encoding what `encoded` decodes to with capacity `len` gives it back. -/
def Reencodes (encoded : Str) (len : UInt32) : Prop :=
  ∀ (scratch scratch' : Scratch) (buf : HeapBuffer), ∃ n : Nat,
    (base64DecodeFrom scratch' encoded len).result = .ok n ∧
      base64EncodeFrom scratch (((base64DecodeFrom scratch' encoded len).memory buf).load 0 n) =
        encoded

/-- A padded base64 string whose unused trailing bits are zero. -/
inductive Canonical : Str → Prop where
  | nil : Canonical []
  | one (a b : UInt8) (ha : isBase64 a = true) (hb : isBase64 b = true)
      (unused : find b % 16 = 0) : Canonical [a, b, pad, pad]
  | two (a b c : UInt8) (ha : isBase64 a = true) (hb : isBase64 b = true)
      (hc : isBase64 c = true) (unused : find c % 4 = 0) : Canonical [a, b, c, pad]
  | group (a b c d : UInt8) (rest : Str) (ha : isBase64 a = true) (hb : isBase64 b = true)
      (hc : isBase64 c = true) (hd : isBase64 d = true) (canonical : Canonical rest) :
      Canonical (a :: b :: c :: d :: rest)

/-- Three bytes a group, less one for each pad. -/
def decodedLength (encoded : Str) : Nat := 3 * (encoded.length / 4) - encoded.count pad

theorem charAt_ne_pad {v : UInt8} (six : v < 64) : charAt v ≠ pad :=
  ne_pad (isBase64_charAt v six)

/-- The pads fill up the last group of three bytes. -/
theorem encodeBytes_count_pad (bytes : Str) :
    (encodeBytes bytes).count pad + bytes.length = 3 * ((bytes.length + 2) / 3) := by
  induction bytes using encodeBytes.induct with
  | case1 a b c rest ih =>
      rw [encodeBytes, List.count_cons_of_ne (charAt_ne_pad (sextet0_lt a)),
        List.count_cons_of_ne (charAt_ne_pad (sextet1_lt a b)),
        List.count_cons_of_ne (charAt_ne_pad (sextet2_lt b c)),
        List.count_cons_of_ne (charAt_ne_pad (sextet3_lt c))]
      simp only [List.length_cons]
      omega
  | case2 a b =>
      rw [encodeBytes, List.count_cons_of_ne (charAt_ne_pad (sextet0_lt a)),
        List.count_cons_of_ne (charAt_ne_pad (sextet1_lt a b)),
        List.count_cons_of_ne (charAt_ne_pad (sextet2_lt b 0))]
      simp
  | case3 a =>
      rw [encodeBytes, List.count_cons_of_ne (charAt_ne_pad (sextet0_lt a)),
        List.count_cons_of_ne (charAt_ne_pad (sextet1_lt a 0))]
      simp
  | case4 => rfl

theorem decodedLength_encodeBytes (bytes : Str) :
    decodedLength (encodeBytes bytes) = bytes.length := by
  have pads := encodeBytes_count_pad bytes
  rw [decodedLength, encodeBytes_length]
  omega

theorem encodeBytes_canonical {encoded : Str} (canonical : Canonical encoded) :
    ∃ bytes, encodeBytes bytes = encoded := by
  induction canonical with
  | nil => exact ⟨[], rfl⟩
  | one a b ha hb unused =>
      have group := sextets_octets (find a) (find b) 0 0 (find_lt a ha) (find_lt b hb)
        (by decide) (by decide)
      have spare : octet1 (find b) 0 = 0 := by
        apply UInt8.toNat_inj.mp
        have low : (find b).toNat % 16 = 0 := congrArg UInt8.toNat unused
        rw [octet1_toNat, low]
        rfl
      rw [spare] at group
      refine ⟨[octet0 (find a) (find b)], ?_⟩
      rw [encodeBytes, group.1, group.2.1, charAt_find a ha, charAt_find b hb]
  | two a b c ha hb hc unused =>
      have group := sextets_octets (find a) (find b) (find c) 0 (find_lt a ha) (find_lt b hb)
        (find_lt c hc) (by decide)
      have spare : octet2 (find c) 0 = 0 := by
        apply UInt8.toNat_inj.mp
        have low : (find c).toNat % 4 = 0 := congrArg UInt8.toNat unused
        rw [octet2_toNat, low]
        rfl
      rw [spare] at group
      refine ⟨[octet0 (find a) (find b), octet1 (find b) (find c)], ?_⟩
      rw [encodeBytes, group.1, group.2.1, group.2.2.1, charAt_find a ha, charAt_find b hb,
        charAt_find c hc]
  | group a b c d rest ha hb hc hd canonical ih =>
      obtain ⟨bytes, encoded⟩ := ih
      have group := sextets_octets (find a) (find b) (find c) (find d) (find_lt a ha)
        (find_lt b hb) (find_lt c hc) (find_lt d hd)
      refine ⟨octet0 (find a) (find b) :: octet1 (find b) (find c) :: octet2 (find c) (find d) ::
        bytes, ?_⟩
      rw [encodeBytes, group.1, group.2.1, group.2.2.1, group.2.2.2, charAt_find a ha,
        charAt_find b hb, charAt_find c hc, charAt_find d hd, encoded]

section
variable (bytes : Str) (len : UInt32) (room : bytes.length < len.toNat)
include room

theorem roundTrips_iff :
    RoundTrips bytes len ↔ (encodeBytes bytes).length < 2147483648 := by
  have word := len.toNat_lt
  constructor
  · intro trips
    obtain ⟨returned, _⟩ := trips (fun _ => 0) (fun _ => 0) (HeapBuffer.alloc len.toNat)
    rw [base64EncodeFrom_eq] at returned
    by_contra long
    have missed := base64DecodeFrom_long len _ bytes _ (by omega) returned
    rw [encodeBytes_length] at missed
    omega
  · intro small scratch scratch' buf
    have length := encodeBytes_length bytes
    rw [base64EncodeFrom_eq, base64DecodeFrom_encodeBytes scratch' bytes len room small]
    refine ⟨?_, memory_finish_load bytes buf (by omega)⟩
    rw [finish_eq (by omega)]

theorem reencodes_iff :
    Reencodes (encodeBytes bytes) len ↔ (encodeBytes bytes).length < 2147483648 := by
  have word := len.toNat_lt
  constructor
  · intro gives
    obtain ⟨n, returned, back⟩ := gives (fun _ => 0) (fun _ => 0) (HeapBuffer.alloc len.toNat)
    by_contra long
    have missed := base64DecodeFrom_long len _ bytes n (by omega) returned
    -- the bytes encoded again are too few for a string of this length
    have length := encodeBytes_length (((base64DecodeFrom (fun _ => 0) (encodeBytes bytes)
      len).memory (HeapBuffer.alloc len.toNat)).load 0 n)
    rw [base64EncodeFrom_eq] at back
    rw [back, HeapBuffer.load_length] at length
    omega
  · intro small scratch scratch' buf
    have length := encodeBytes_length bytes
    refine ⟨bytes.length, ?_⟩
    rw [base64EncodeFrom_eq, base64DecodeFrom_encodeBytes scratch' bytes len room small,
      memory_finish_load bytes buf (by omega), finish_eq (by omega)]
    exact ⟨rfl, rfl⟩

end

/-- Both directions hold exactly for the encoded strings whose length is an `int`. -/
theorem base64_inverse_iff (len : UInt32) :
    (∀ bytes : Str, bytes.length < len.toNat →
      (RoundTrips bytes len ↔ 4 * ((bytes.length + 2) / 3) < 2147483648)) ∧
    (∀ encoded : Str, Canonical encoded → decodedLength encoded < len.toNat →
      (Reencodes encoded len ↔ encoded.length < 2147483648)) := by
  constructor
  · intro bytes room
    rw [roundTrips_iff bytes len room, encodeBytes_length]
  · intro encoded canonical room
    obtain ⟨bytes, rfl⟩ := encodeBytes_canonical canonical
    rw [decodedLength_encodeBytes] at room
    exact reencodes_iff bytes len room

theorem base64_inverse_iff_two :
    (RoundTrips [0x4A, 0x50] 5000 ↔ 4 < 2147483648) ∧
      (Reencodes [83, 108, 65, pad] 5000 ↔ 4 < 2147483648) := by
  have at5000 := base64_inverse_iff 5000
  exact ⟨at5000.1 [0x4A, 0x50] (by decide), at5000.2 [83, 108, 65, pad]
    (.two 83 108 65 rfl rfl rfl rfl) (by decide)⟩

/-- The encoding of these `3 * 2 ^ 30` bytes has `2 ^ 32` characters, which is zero as
an `int`. -/
theorem base64_inverse_fails :
    ¬ ((∀ (bytes : Str) (len : UInt32), bytes.length < len.toNat → RoundTrips bytes len) ∧
      ∀ (encoded : Str) (len : UInt32), Canonical encoded → decodedLength encoded < len.toNat →
        Reencodes encoded len) := by
  rintro ⟨trips, _⟩
  have length : (List.replicate 3221225472 (0 : UInt8)).length = 3221225472 :=
    List.length_replicate
  have room : (List.replicate 3221225472 (0 : UInt8)).length < (3221225473 : UInt32).toNat := by
    rw [length]
    decide
  have small := (roundTrips_iff _ _ room).mp (trips _ _ room)
  rw [encodeBytes_length, length] at small
  omega

end JP4Agent.Base64
