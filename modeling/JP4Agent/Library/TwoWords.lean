import Mathlib.Tactic.Ring
import Mathlib.Data.Nat.ModEq

set_option autoImplicit false

namespace JP4Agent.TwoWords

/-- The number with these digits. -/
def join (base high low : Nat) : Nat := high * base + low

section
variable {base high low high' low' : Nat}

theorem join_lt (hh : high < base) (hl : low < base) : join base high low < base * base := by
  have rows : (high + 1) * base ≤ base * base := Nat.mul_le_mul_right base hh
  rw [Nat.succ_mul] at rows
  unfold join
  omega

theorem join_lt_iff (high high' : Nat) (hl : low < base) (hl' : low' < base) :
    join base high low < join base high' low' ↔ high < high' ∨ high = high' ∧ low < low' := by
  unfold join
  rcases Nat.lt_trichotomy high high' with less | rfl | more
  · have rows := Nat.mul_le_mul_right base (Nat.succ_le_of_lt less)
    rw [Nat.succ_mul] at rows
    omega
  · omega
  · have rows := Nat.mul_le_mul_right base (Nat.succ_le_of_lt more)
    rw [Nat.succ_mul] at rows
    omega

theorem join_inj (high high' : Nat) (hl : low < base) (hl' : low' < base) :
    join base high low = join base high' low' ↔ high = high' ∧ low = low' := by
  have less := join_lt_iff high high' hl hl'
  have more := join_lt_iff high' high hl' hl
  omega

/-- Reducing the high digit reduces the number. -/
theorem join_mod (digit : Nat) (hl : low < base) :
    join base (digit % base) low = join base digit low % (base * base) := by
  have positive : 0 < base := by omega
  have quotient : join base digit low / base = digit := by
    rw [join, Nat.add_comm, Nat.add_mul_div_right _ _ positive, Nat.div_eq_of_lt hl, Nat.zero_add]
  have rest : join base digit low % base = low := by
    rw [join, Nat.add_comm, Nat.add_mul_mod_self_right, Nat.mod_eq_of_lt hl]
  rw [Nat.mod_mul, quotient, rest, join, Nat.mul_comm base, Nat.add_comm]

/-- The sum of the low digits wrapped around exactly if it is below one of them. -/
theorem carry_iff (hl : low < base) (hl' : low' < base) :
    (low + low') % base < low ↔ base ≤ low + low' := by
  by_cases wraps : base ≤ low + low'
  · have rest : (low + low') % base = low + low' - base := by
      rw [Nat.mod_eq_sub_mod wraps, Nat.mod_eq_of_lt (by omega)]
    omega
  · rw [Nat.mod_eq_of_lt (by omega)]
    omega

/-- The difference of the low digits wrapped around exactly if it is above the first. -/
theorem borrow_iff (hl : low < base) (hl' : low' < base) :
    low < (base - low' + low) % base ↔ low < low' := by
  by_cases wraps : low < low'
  · rw [Nat.mod_eq_of_lt (by omega)]
    omega
  · have rest : (base - low' + low) % base = low - low' := by
      rw [Nat.mod_eq_sub_mod (by omega), Nat.mod_eq_of_lt (by omega)]
      omega
    omega

theorem join_add (high high' : Nat) (hl : low < base) (hl' : low' < base) :
    join base ((high + high' + if (low + low') % base < low then 1 else 0) % base)
        ((low + low') % base) =
      (join base high low + join base high' low') % (base * base) := by
  have below : (low + low') % base < base := Nat.mod_lt _ (by omega)
  rw [join_mod _ below]
  congr 1
  simp only [carry_iff hl hl']
  unfold join
  by_cases wraps : base ≤ low + low'
  · have rest : (low + low') % base = low + low' - base := by
      rw [Nat.mod_eq_sub_mod wraps, Nat.mod_eq_of_lt (by omega)]
    rw [if_pos wraps, rest, Nat.add_mul, Nat.add_mul]
    omega
  · rw [if_neg wraps, Nat.mod_eq_of_lt (by omega), Nat.add_mul, Nat.add_mul]
    omega

theorem join_sub (hh : high < base) (hh' : high' < base) (hl : low < base) (hl' : low' < base) :
    join base ((base - (if low < (base - low' + low) % base then 1 else 0) +
        (base - high' + high) % base) % base) ((base - low' + low) % base) =
      (base * base - join base high' low' + join base high low) % (base * base) := by
  have below : (base - low' + low) % base < base := Nat.mod_lt _ (by omega)
  have rows : (high' + 1) * base ≤ base * base := Nat.mul_le_mul_right base hh'
  rw [Nat.succ_mul] at rows
  have difference : (base - high' + high) * base = base * base - high' * base + high * base := by
    rw [Nat.add_mul, Nat.sub_mul]
  simp only [borrow_iff hl hl', Nat.add_mod_mod]
  by_cases wraps : low < low'
  · have rest : (base - low' + low) % base = base - low' + low := Nat.mod_eq_of_lt (by omega)
    rw [if_pos wraps, join_mod _ below, rest]
    have total : join base (base - 1 + (base - high' + high)) (base - low' + low) =
        base * base - join base high' low' + join base high low + base * base := by
      unfold join
      rw [Nat.add_mul, difference, Nat.sub_mul]
      omega
    rw [total, Nat.add_mod_right]
  · have rest : (base - low' + low) % base = low - low' := by
      rw [Nat.mod_eq_sub_mod (by omega), Nat.mod_eq_of_lt (by omega)]
      omega
    rw [if_neg wraps, join_mod _ below, rest]
    have total : join base (base - 0 + (base - high' + high)) (low - low') =
        base * base - join base high' low' + join base high low + base * base := by
      unfold join
      rw [Nat.sub_zero, Nat.add_mul, difference]
      omega
    rw [total, Nat.add_mod_right]

end
end JP4Agent.TwoWords
