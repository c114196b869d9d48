import Mathlib

set_option autoImplicit false

namespace JP4Agent

/-- The contents of a `std::string`: any bytes, no terminator counted. -/
abbrev Str := List UInt8

/-- An ASCII literal. -/
def str (literal : String) : Str := literal.toList.map fun c => c.toNat.toUInt8

/-- The bytes are the UTF-8 encoding of some text. -/
def ValidUtf8 (s : Str) : Prop := ∃ text : List Char, s = text.flatMap String.utf8EncodeChar

theorem ValidUtf8.append {s t : Str} (first : ValidUtf8 s) (second : ValidUtf8 t) :
    ValidUtf8 (s ++ t) := by
  obtain ⟨text, rfl⟩ := first
  obtain ⟨more, rfl⟩ := second
  exact ⟨text ++ more, List.flatMap_append.symm⟩

/-- Text is as it stands if all of it is ASCII. -/
theorem validUtf8_ascii {s : Str} (ascii : ∀ c ∈ s, c < 128) : ValidUtf8 s := by
  induction s with
  | nil => exact ⟨[], rfl⟩
  | cons c rest ih =>
      rw [List.forall_mem_cons] at ascii
      have code : c.toNat < 128 := ascii.1
      have first : ValidUtf8 [c] := by
        have valid : Nat.isValidChar c.toNat := Or.inl (by omega)
        have same : (Char.ofNat c.toNat).val.toNat = c.toNat :=
          (Char.toNat_ofNat c.toNat).trans (if_pos valid)
        have encoded : String.utf8EncodeChar (Char.ofNat c.toNat) = [c] := by
          rw [String.utf8EncodeChar, same, if_pos (by omega), UInt8.ofNat_toNat]
        exact ⟨[Char.ofNat c.toNat], by simp [encoded]⟩
      exact first.append (ih ascii.2)

/-- `*(uint16_t *)p = htons(v)` stores this byte at `p`. -/
def netHigh (v : UInt16) : UInt8 := (v >>> 8).toUInt8

/-- `*(uint16_t *)p = htons(v)` stores this byte at `p + 1`. -/
def netLow (v : UInt16) : UInt8 := v.toUInt8

/-- `ntohs(*(uint16_t *)p)` for the bytes at `p` and `p + 1`. -/
def netWord (high low : UInt8) : UInt16 := high.toUInt16 <<< 8 ||| low.toUInt16

theorem netWord_toNat (high low : UInt8) :
    (netWord high low).toNat = high.toNat * 256 + low.toNat := by
  have hh := high.toNat_lt
  have hl := low.toNat_lt
  simp only [netWord, UInt16.toNat_or, UInt16.toNat_shiftLeft, UInt8.toNat_toUInt16]
  have shifted : high.toNat <<< ((8 : UInt16).toNat % 16) % 2 ^ 16 = 2 ^ 8 * high.toNat := by
    change high.toNat <<< 8 % 2 ^ 16 = _
    rw [Nat.shiftLeft_eq]
    omega
  rw [shifted, ← Nat.two_pow_add_eq_or_of_lt hl, Nat.mul_comm]

theorem netHigh_toNat (v : UInt16) : (netHigh v).toNat = v.toNat / 256 := by
  have hv := v.toNat_lt
  simp only [netHigh, UInt16.toNat_toUInt8, UInt16.toNat_shiftRight]
  change v.toNat >>> 8 % 2 ^ 8 = _
  rw [Nat.shiftRight_eq_div_pow]
  omega

theorem netLow_toNat (v : UInt16) : (netLow v).toNat = v.toNat % 256 := by
  simp only [netLow, UInt16.toNat_toUInt8]

/-- Storing in network order and loading it back is the identity. -/
@[simp] theorem netWord_high_low (v : UInt16) : netWord (netHigh v) (netLow v) = v := by
  apply UInt16.toNat_inj.mp
  rw [netWord_toNat, netHigh_toNat, netLow_toNat]
  omega

@[simp] theorem netHigh_netWord (high low : UInt8) : netHigh (netWord high low) = high := by
  apply UInt8.toNat_inj.mp
  have hl := low.toNat_lt
  rw [netHigh_toNat, netWord_toNat]
  omega

@[simp] theorem netLow_netWord (high low : UInt8) : netLow (netWord high low) = low := by
  apply UInt8.toNat_inj.mp
  have hl := low.toNat_lt
  rw [netLow_toNat, netWord_toNat]
  omega

/-- The number that bytes in network order denote. -/
def bigEndian (bytes : Str) : Nat := bytes.foldl (fun n byte => n * 256 + byte.toNat) 0

section
variable (b m s : UInt8) (k : Nat)

/-- A mask of the `k` lowest bits. -/
theorem mask_toNat (mask : m.toNat = 2 ^ k - 1) : (b &&& m).toNat = b.toNat % 2 ^ k := by
  rw [UInt8.toNat_and, mask, Nat.and_two_pow_sub_one_eq_mod]

/-- A mask of `k` bits that a shift to the right moves to the lowest. -/
theorem mask_shiftRight (mask : m.toNat >>> (s.toNat % 8) = 2 ^ k - 1) :
    ((b &&& m) >>> s).toNat = b.toNat / 2 ^ (s.toNat % 8) % 2 ^ k := by
  rw [UInt8.toNat_shiftRight, UInt8.toNat_and, Nat.shiftRight_and_distrib, mask,
    Nat.and_two_pow_sub_one_eq_mod, Nat.shiftRight_eq_div_pow]

theorem shiftLeft_toNat : (b <<< s).toNat = b.toNat * 2 ^ (s.toNat % 8) % 2 ^ 8 := by
  rw [UInt8.toNat_shiftLeft, Nat.shiftLeft_eq]

/-- A mask of the `k` lowest bits, none of which a shift to the left drops. -/
theorem mask_shiftLeft (mask : m.toNat = 2 ^ k - 1) (fits : k + s.toNat % 8 ≤ 8) :
    ((b &&& m) <<< s).toNat = b.toNat % 2 ^ k * 2 ^ (s.toNat % 8) := by
  have below : b.toNat % 2 ^ k * 2 ^ (s.toNat % 8) < 2 ^ 8 := by
    calc
      b.toNat % 2 ^ k * 2 ^ (s.toNat % 8) < 2 ^ k * 2 ^ (s.toNat % 8) :=
        Nat.mul_lt_mul_of_pos_right (Nat.mod_lt _ (Nat.two_pow_pos k)) (Nat.two_pow_pos _)
      _ = 2 ^ (k + s.toNat % 8) := (Nat.pow_add 2 k _).symm
      _ ≤ 2 ^ 8 := Nat.pow_le_pow_right (by decide) fits
  rw [shiftLeft_toNat, mask_toNat b m k mask, Nat.mod_eq_of_lt below]

end

/-- The value of a `size_t` after an implicit conversion to a 32-bit `int`. -/
def toInt32 (n : Nat) : Int :=
  if n % 4294967296 < 2147483648 then (n % 4294967296 : Nat)
  else (n % 4294967296 : Nat) - 4294967296

theorem toInt32_of_lt {n : Nat} (small : n < 2147483648) : toInt32 n = n := by
  unfold toInt32
  split <;> omega

/-- The result of the conversion is never above the operand. -/
theorem toInt32_le (n : Nat) : toInt32 n ≤ n := by
  unfold toInt32
  split <;> omega

/-- Above `INT_MAX` the conversion loses at least `2 ^ 32`. -/
theorem toInt32_wraps {n : Nat} (large : 2147483648 ≤ n) : toInt32 n + 4294967296 ≤ n := by
  unfold toInt32
  split <;> omega

theorem uint16_ofInt_natCast (n : Nat) : UInt16.ofInt n = UInt16.ofNat n := by
  apply UInt16.toNat_inj.mp
  rw [UInt16.ofInt, UInt16.toNat_ofNat', UInt16.toNat_ofNat']
  omega

end JP4Agent
