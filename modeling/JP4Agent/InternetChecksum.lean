import JP4Agent.Library.Bytes
import JP4Agent.Library.OnesComplement

set_option autoImplicit false

/- The checksum that the controller computes over the words of its little-endian host, and
the sum in network order that a receiver takes. -/
namespace JP4Agent.Controller
open OnesComplement

/-- The words `*w++`, and the odd byte at the end as the low byte of a word. -/
def hostWords : Str → List Nat
  | [] => []
  | [last] => [pair 256 0 last.toNat]
  | first :: second :: rest => pair 256 second.toNat first.toNat :: hostWords rest

/-- `none` if the additions overflow the `int`. -/
def csum (bytes : Str) : Option UInt16 :=
  let sum := (hostWords bytes).sum
  if sum < 2147483648 then
    let sum := sum >>> 16 + sum % 65536
    let sum := sum + sum >>> 16
    some (~~~ UInt16.ofNat sum)
  else none

/-- The bytes of a word of the host in memory. -/
def hostBytes (v : UInt16) : Str := [netLow v, netHigh v]

/-- The words as a receiver reads them, padded with a zero byte. -/
def netWords : Str → List Nat
  | [] => []
  | [last] => [pair 256 last.toNat 0]
  | first :: second :: rest => pair 256 first.toNat second.toNat :: netWords rest

/-- The one's complement sum of the words has all bits set. -/
def Verifies (bytes : Str) : Prop := sum 65536 (netWords bytes) = 65535

instance (bytes : Str) : Decidable (Verifies bytes) := inferInstanceAs (Decidable (_ = _))

theorem pair_lt (high low : UInt8) : pair 256 high.toNat low.toNat < 65536 := by
  have hh := high.toNat_lt
  have hl := low.toNat_lt
  unfold pair
  omega

theorem hostWords_lt (bytes : Str) : ∀ w ∈ hostWords bytes, w < 65536 := by
  induction bytes using hostWords.induct with
  | case1 => simp [hostWords]
  | case2 last =>
      have word := pair_lt 0 last
      simpa [hostWords] using word
  | case3 first second rest ih =>
      rw [hostWords, List.forall_mem_cons]
      exact ⟨pair_lt second first, ih⟩

theorem netWords_lt (bytes : Str) : ∀ w ∈ netWords bytes, w < 65536 := by
  induction bytes using netWords.induct with
  | case1 => simp [netWords]
  | case2 last =>
      have word := pair_lt last 0
      simpa [netWords] using word
  | case3 first second rest ih =>
      rw [netWords, List.forall_mem_cons]
      exact ⟨pair_lt first second, ih⟩

theorem netWords_sum (bytes : Str) :
    (netWords bytes).sum ≡ 256 * (hostWords bytes).sum [MOD 65535] := by
  induction bytes using hostWords.induct with
  | case1 => exact Nat.ModEq.refl 0
  | case2 last =>
      have word := swap_modEq (show 1 < 256 by decide) 0 last.toNat
      simpa [netWords, hostWords] using word
  | case3 first second rest ih =>
      have word := swap_modEq (show 1 < 256 by decide) second.toNat first.toNat
      rw [netWords, hostWords, List.sum_cons, List.sum_cons, Nat.mul_add]
      exact word.add ih

theorem netWords_sum_eq_zero (bytes : Str) :
    (netWords bytes).sum = 0 ↔ (hostWords bytes).sum = 0 := by
  induction bytes using hostWords.induct with
  | case1 => exact Iff.rfl
  | case2 last => simp [netWords, hostWords, pair]
  | case3 first second rest ih =>
      rw [netWords, hostWords, List.sum_cons, List.sum_cons]
      unfold pair
      omega

/-- The receiver may as well sum the words of the host. -/
theorem verifies_iff (bytes : Str) : Verifies bytes ↔ sum 65536 (hostWords bytes) = 65535 := by
  have order := swapped_dvd (show 1 < 256 by decide) (netWords_sum bytes)
  have zero := netWords_sum_eq_zero bytes
  unfold Verifies
  rw [sum_eq_top_iff (show 1 < 65536 by decide) (netWords_lt bytes),
    sum_eq_top_iff (show 1 < 65536 by decide) (hostWords_lt bytes)]
  exact and_congr order (not_congr zero)

theorem hostWords_append (front back : Str) (even : front.length % 2 = 0) :
    hostWords (front ++ back) = hostWords front ++ hostWords back := by
  induction front using hostWords.induct with
  | case1 => rfl
  | case2 last => simp at even
  | case3 first second rest ih =>
      simp only [List.length_cons] at even
      rw [List.cons_append, List.cons_append, hostWords, hostWords, ih (by omega), List.cons_append]

/-- `2 ^ 16` bytes do not overflow the sum. -/
theorem hostWords_sum_le (bytes : Str) :
    (hostWords bytes).sum ≤ 65535 * ((bytes.length + 1) / 2) := by
  induction bytes using hostWords.induct with
  | case1 => exact Nat.zero_le _
  | case2 last =>
      have word := pair_lt 0 last
      simp only [hostWords, List.sum_singleton, List.length_singleton]
      show pair 256 (0 : UInt8).toNat last.toNat ≤ _
      omega
  | case3 first second rest ih =>
      have word := pair_lt second first
      rw [hostWords, List.sum_cons]
      simp only [List.length_cons]
      omega

theorem csum_eq {bytes : Str} (short : bytes.length ≤ 65536) :
    ∃ c, csum bytes = some c ∧ c.toNat = 65535 - sum 65536 (hostWords bytes) := by
  have bound := hostWords_sum_le bytes
  have small : (hostWords bytes).sum < 2147483648 := by omega
  have folded := fold_fold_eq_sum (show 1 < 65536 by decide) (hostWords_lt bytes)
    (by omega : (hostWords bytes).sum < 65536 * 65536)
  refine ⟨_, by rw [csum, if_pos small], ?_⟩
  have size : UInt16.size = 65536 := rfl
  rw [← folded, UInt16.toNat_not, UInt16.toNat_ofNat', size]
  unfold fold
  simp only [Nat.shiftRight_eq_div_pow, Nat.reducePow]
  generalize (hostWords bytes).sum = s at small
  omega

/-- The words of a segment with two bytes in a field at an even offset. -/
theorem hostWords_field (front back : Str) (even : front.length % 2 = 0) (c : UInt16) :
    (hostWords (front ++ hostBytes c ++ back)).sum =
      (hostWords front).sum + c.toNat + (hostWords back).sum := by
  have word : pair 256 (netHigh c).toNat (netLow c).toNat = c.toNat := by
    rw [pair, netHigh_toNat, netLow_toNat]
    omega
  rw [List.append_assoc, hostWords_append _ _ even, List.sum_append, hostBytes, List.cons_append,
    List.cons_append, List.nil_append, hostWords, List.sum_cons, word]
  omega

theorem hostBytes_zero : hostBytes 0 = [0, 0] := rfl

section
variable (front back : Str) (even : front.length % 2 = 0)
include even

/-- What a receiver accepts in the field: the complement of the sum of the rest, and the
other zero of the one's complement if that is zero. -/
theorem verifies_field_iff {c : UInt16}
    (value : c.toNat = 65535 - sum 65536 (hostWords (front ++ [0, 0] ++ back))) (c' : UInt16) :
    Verifies (front ++ hostBytes c' ++ back) ↔ c' = c ∨ c = 0 ∧ c' = 65535 := by
  have zeros := hostWords_field front back even 0
  rw [hostBytes_zero] at zeros
  obtain ⟨below, residue, zero⟩ := sum_spec (show 1 < 65536 by decide)
    (hostWords (front ++ [0, 0] ++ back)) (hostWords_lt _)
  rw [zeros] at residue zero
  have rest : sum 65536 (hostWords (front ++ [0, 0] ++ back)) % 65535 =
      ((hostWords front).sum + 0 + (hostWords back).sum) % 65535 := residue
  have same : sum 65536 (hostWords (front ++ [0, 0] ++ back)) = 0 ↔
      (hostWords front).sum + 0 + (hostWords back).sum = 0 := zero
  rw [verifies_iff, sum_eq_top_iff (show 1 < 65536 by decide) (hostWords_lt _),
    hostWords_field front back even c', ← UInt16.toNat_inj, ← UInt16.toNat_inj,
    ← UInt16.toNat_inj]
  show _ ↔ _ ∨ c.toNat = 0 ∧ c'.toNat = 65535
  have bound := c'.toNat_lt
  generalize sum 65536 (hostWords (front ++ [0, 0] ++ back)) = total at *
  omega

variable (short : (front ++ [0, 0] ++ back).length ≤ 65536)
include short

theorem csum_verifies :
    ∃ c, csum (front ++ [0, 0] ++ back) = some c ∧ Verifies (front ++ hostBytes c ++ back) := by
  obtain ⟨c, computed, value⟩ := csum_eq short
  exact ⟨c, computed, (verifies_field_iff front back even value c).mpr (Or.inl rfl)⟩

/-- The two foldings at the end make the checksum that a carry after each addition would
make, and a receiver in network order accepts it and nothing else but the other zero. -/
theorem csum_receiver_iff :
    ∃ c, csum (front ++ [0, 0] ++ back) = some c ∧
      c.toNat = 65535 - sum 65536 (hostWords (front ++ [0, 0] ++ back)) ∧
      ∀ c', Verifies (front ++ hostBytes c' ++ back) ↔ c' = c ∨ c = 0 ∧ c' = 65535 := by
  obtain ⟨c, computed, value⟩ := csum_eq short
  exact ⟨c, computed, value, verifies_field_iff front back even value⟩

end

theorem csum_receiver_iff_ping :
    let front : Str := [0x45, 0, 0, 0x54, 0xda, 0xcc, 0x40, 0, 0x40, 1]
    let back : Str := [0x67, 0x1e, 0x0a, 0x01, 0x67, 0x1e, 0x0a, 0x03]
    ∃ c, csum (front ++ [0, 0] ++ back) = some c ∧
      c.toNat = 65535 - sum 65536 (hostWords (front ++ [0, 0] ++ back)) ∧
      ∀ c', Verifies (front ++ hostBytes c' ++ back) ↔ c' = c ∨ c = 0 ∧ c' = 65535 :=
  csum_receiver_iff [0x45, 0, 0, 0x54, 0xda, 0xcc, 0x40, 0, 0x40, 1]
    [0x67, 0x1e, 0x0a, 0x01, 0x67, 0x1e, 0x0a, 0x03] (by decide) (by decide)

end JP4Agent.Controller
