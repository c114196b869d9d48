import Mathlib.Data.List.Induction
import Mathlib.Data.Nat.ModEq
import Mathlib.Tactic.Ring

set_option autoImplicit false

/- One's complement arithmetic on words of any base: sums with an end-around carry, their
complement as a checksum, and sums of words whose two halves are swapped. Nothing here
depends on the program that uses it. -/
namespace JP4Agent.OnesComplement

/-- The carry is added back in at the low end. -/
def fold (base s : Nat) : Nat := s / base + s % base

/-- The sum of two words. -/
def add (base x y : Nat) : Nat := fold base (x + y)

def sum (base : Nat) (words : List Nat) : Nat := words.foldl (add base) 0

section
variable {base : Nat}

theorem fold_modEq (h : 1 < base) (s : Nat) : fold base s ≡ s [MOD base - 1] := by
  obtain ⟨m, rfl⟩ : ∃ m, base = m + 1 := ⟨base - 1, by omega⟩
  have parts : s = fold (m + 1) s + m * (s / (m + 1)) := by
    have division := Nat.div_add_mod s (m + 1)
    rw [Nat.add_mul] at division
    unfold fold
    omega
  show fold (m + 1) s % m = s % m
  conv_rhs => rw [parts]
  rw [Nat.add_mul_mod_self_left]

theorem fold_eq_zero (s : Nat) : fold base s = 0 ↔ s = 0 := by
  have division := Nat.div_add_mod s base
  constructor
  · intro zero
    obtain ⟨quotient, rest⟩ := Nat.add_eq_zero_iff.mp zero
    rw [quotient, rest] at division
    simpa using division.symm
  · rintro rfl
    simp [fold]

theorem fold_lt (h : 1 < base) {s : Nat} (small : s ≤ 2 * base - 2) : fold base s < base := by
  by_cases carry : s < base
  · rw [fold, Nat.div_eq_of_lt carry, Nat.mod_eq_of_lt carry, Nat.zero_add]
    exact carry
  · have quotient : s / base = 1 := Nat.div_eq_of_lt_le (by omega) (by omega)
    have rest : s % base = s - base := by
      rw [Nat.mod_eq_sub_mod (by omega), Nat.mod_eq_of_lt (by omega)]
    rw [fold, quotient, rest]
    omega

theorem fold_le {s : Nat} (small : s < base * base) : fold base s ≤ 2 * base - 2 := by
  have quotient : s / base < base := Nat.div_lt_of_lt_mul small
  have positive : 0 < base := Nat.pos_of_ne_zero fun zero => by simp [zero] at small
  have rest : s % base < base := Nat.mod_lt _ positive
  unfold fold
  generalize s / base = q at quotient
  omega

/-- A word is determined by its residue and by whether it is zero. -/
theorem word_unique {x y : Nat} (hx : x < base) (hy : y < base)
    (same : x ≡ y [MOD base - 1]) (zero : x = 0 ↔ y = 0) : x = y := by
  by_cases left : x = 0
  · rw [left, zero.mp left]
  · have right : y ≠ 0 := fun wrong => left (zero.mpr wrong)
    have shifted : x - 1 ≡ y - 1 [MOD base - 1] := by
      apply Nat.ModEq.add_right_cancel' 1
      rw [Nat.sub_add_cancel (by omega), Nat.sub_add_cancel (by omega)]
      exact same
    have equal := shifted.eq_of_lt_of_lt (by omega) (by omega)
    omega

theorem add_lt (h : 1 < base) {x y : Nat} (hx : x < base) (hy : y < base) : add base x y < base :=
  fold_lt h (by omega)

/-- What a sum is: a word with the residue of the plain sum, and zero only if that is. -/
theorem sum_spec (h : 1 < base) (words : List Nat) (all : ∀ w ∈ words, w < base) :
    sum base words < base ∧ sum base words ≡ words.sum [MOD base - 1] ∧
      (sum base words = 0 ↔ words.sum = 0) := by
  induction words using List.reverseRecOn with
  | nil => exact ⟨by show 0 < base; omega, Nat.ModEq.refl 0, Iff.rfl⟩
  | append_singleton words w ih =>
      obtain ⟨below, residue, zero⟩ := ih fun v member => all v (List.mem_append_left _ member)
      have last : w < base := all w (List.mem_append_right _ (List.mem_singleton_self w))
      have step : sum base (words ++ [w]) = add base (sum base words) w := by
        rw [sum, List.foldl_append]
        rfl
      rw [step, List.sum_append, List.sum_singleton]
      refine ⟨add_lt h below last, ?_, ?_⟩
      · exact (fold_modEq h _).trans (residue.add_right w)
      · rw [add, fold_eq_zero]
        omega

/-- Two foldings at the end are as good as a carry after each addition. -/
theorem fold_fold_eq_sum (h : 1 < base) {words : List Nat} (all : ∀ w ∈ words, w < base)
    (small : words.sum < base * base) : fold base (fold base words.sum) = sum base words := by
  obtain ⟨below, residue, zero⟩ := sum_spec h words all
  apply word_unique (fold_lt h (fold_le small)) below
  · exact ((fold_modEq h _).trans (fold_modEq h _)).trans residue.symm
  · rw [fold_eq_zero, fold_eq_zero, zero]

/-- All bits are set exactly if the plain sum is a multiple other than zero. -/
theorem sum_eq_top_iff (h : 1 < base) {words : List Nat} (all : ∀ w ∈ words, w < base) :
    sum base words = base - 1 ↔ base - 1 ∣ words.sum ∧ words.sum ≠ 0 := by
  obtain ⟨below, residue, zero⟩ := sum_spec h words all
  constructor
  · intro top
    rw [top] at residue zero
    exact ⟨(Nat.modEq_zero_iff_dvd.mp (residue.symm.trans (by simp [Nat.ModEq]))), by omega⟩
  · rintro ⟨divides, positive⟩
    apply word_unique below (by omega)
    · refine residue.trans ((Nat.modEq_zero_iff_dvd.mpr divides).trans ?_)
      simp [Nat.ModEq]
    · omega

end

/-- The value of a word made of two halves. -/
def pair (half high low : Nat) : Nat := high * half + low

/-- Swapping the halves of a word multiplies it by the base of the halves. -/
theorem swap_modEq {half : Nat} (h : 1 < half) (high low : Nat) :
    pair half low high ≡ half * pair half high low [MOD half * half - 1] := by
  obtain ⟨m, square⟩ : ∃ m, half * half = m + 1 := ⟨half * half - 1, by
    have := Nat.mul_pos (show 0 < half by omega) (show 0 < half by omega)
    omega⟩
  have expanded : half * pair half high low = pair half low high + m * high := by
    have product : half * (high * half) = half * half * high := by ring
    unfold pair
    rw [Nat.mul_add, product, square, Nat.add_mul, Nat.one_mul, Nat.mul_comm half low]
    omega
  rw [expanded, square, Nat.add_sub_cancel]
  exact (Nat.add_mul_mod_self_left _ m high).symm

/-- The order of the halves does not matter to whether all bits of the sum are set. -/
theorem swapped_dvd {half s t : Nat} (h : 1 < half)
    (swapped : t ≡ half * s [MOD half * half - 1]) :
    half * half - 1 ∣ t ↔ half * half - 1 ∣ s := by
  have square : 1 ≤ half * half := Nat.mul_pos (by omega) (by omega)
  have coprime : Nat.Coprime (half * half - 1) half := by
    have one : Nat.Coprime (half * half) (half * half - 1) := by
      have next : half * half = half * half - 1 + 1 := by omega
      rw [next, Nat.add_sub_cancel]
      exact (Nat.coprime_self_add_left).mpr (Nat.coprime_one_left _)
    exact (Nat.Coprime.coprime_mul_left one).symm
  rw [← Nat.modEq_zero_iff_dvd, ← Nat.modEq_zero_iff_dvd]
  constructor
  · intro zero
    have product := swapped.symm.trans zero
    exact Nat.modEq_zero_iff_dvd.mpr
      (coprime.dvd_of_dvd_mul_left (Nat.modEq_zero_iff_dvd.mp product))
  · intro zero
    exact swapped.trans ((zero.mul_left half).trans (by rw [Nat.mul_zero]))

end JP4Agent.OnesComplement
