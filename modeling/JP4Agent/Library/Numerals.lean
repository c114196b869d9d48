import Mathlib.Data.Nat.Digits.Lemmas

set_option autoImplicit false

namespace JP4Agent.Numerals

/-- The digits of a number in this base; 0 has the digit 0. -/
def numeral (base n : Nat) : List Nat :=
  if n = 0 then [0] else (Nat.digits base n).reverse

/-- A numeral with zeros in front of it up to this width. -/
def padded (base width n : Nat) : List Nat :=
  List.replicate (width - (numeral base n).length) 0 ++ numeral base n

/-- The number that digits denote. -/
def value (base : Nat) (digits : List Nat) : Nat :=
  digits.foldl (fun n digit => n * base + digit) 0

section
variable {base : Nat}

theorem value_eq_ofDigits (digits : List Nat) :
    value base digits = Nat.ofDigits base digits.reverse := by
  induction digits using List.reverseRecOn with
  | nil => rfl
  | append_singleton digits digit ih =>
      rw [value, List.foldl_append, ← value, ih, List.reverse_append, List.reverse_singleton,
        List.singleton_append, Nat.ofDigits_cons]
      show Nat.ofDigits base digits.reverse * base + digit = _
      rw [Nat.mul_comm, Nat.add_comm]

/-- Reading what was printed. -/
theorem value_numeral (n : Nat) : value base (numeral base n) = n := by
  rw [value_eq_ofDigits, numeral]
  split
  · rename_i zero
    rw [zero]
    simp
  · rw [List.reverse_reverse, Nat.ofDigits_digits]

theorem numeral_injective : Function.Injective (numeral base) :=
  Function.LeftInverse.injective value_numeral

theorem digit_lt (atLeastTwo : 1 < base) {n digit : Nat} (member : digit ∈ numeral base n) :
    digit < base := by
  rw [numeral] at member
  split at member
  · rw [List.mem_singleton] at member
    omega
  · exact Nat.digits_lt_base atLeastTwo (List.mem_reverse.mp member)

theorem numeral_length_le (atLeastTwo : 1 < base) {width n : Nat} (wide : 0 < width)
    (small : n < base ^ width) : (numeral base n).length ≤ width := by
  rw [numeral]
  split
  · exact wide
  · rw [List.length_reverse, Nat.digits_length_le_iff atLeastTwo]
    exact small

/-- The numeral of a number of two parts, the low one of `width` digits. -/
theorem numeral_append (atLeastTwo : 1 < base) {width high low : Nat} (positive : 0 < high)
    (wide : 0 < width) (small : low < base ^ width) :
    numeral base (high * base ^ width + low) =
      numeral base high ++ padded base width low := by
  have total : 0 < high * base ^ width + low :=
    Nat.add_pos_left (Nat.mul_pos positive (Nat.pow_pos (by omega))) low
  by_cases zero : low = 0
  · subst zero
    have digits := Nat.digits_append_zeroes_append_digits (k := width) (n := 0) atLeastTwo positive
    rw [Nat.digits_zero, List.length_nil, Nat.zero_add, Nat.zero_add, List.nil_append] at digits
    have zeros : padded base width 0 = List.replicate width 0 := by
      rw [padded, numeral, if_pos rfl, List.length_singleton, ← List.replicate_succ']
      congr
      omega
    rw [numeral, if_neg (by omega), Nat.add_zero, Nat.mul_comm, ← digits, zeros, numeral,
      if_neg (by omega), List.reverse_append, List.reverse_replicate]
  · have shorter : (Nat.digits base low).length ≤ width :=
      (Nat.digits_length_le_iff atLeastTwo low).mpr small
    have digits := Nat.digits_append_zeroes_append_digits
      (k := width - (Nat.digits base low).length) (n := low) atLeastTwo positive
    rw [Nat.add_sub_cancel' shorter] at digits
    have sum : high * base ^ width + low = low + base ^ width * high := by
      rw [Nat.mul_comm, Nat.add_comm]
    rw [numeral, if_neg (by omega), sum, ← digits, padded, numeral, if_neg (by omega), numeral,
      if_neg zero, List.length_reverse, List.reverse_append, List.reverse_append,
      List.reverse_replicate]

end
end JP4Agent.Numerals
