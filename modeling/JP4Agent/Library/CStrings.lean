import JP4Agent.Library.HeapBuffer

set_option autoImplicit false

namespace JP4Agent.HeapBuffer

/-- The string that starts at `offset` is this text. -/
def HoldsString (b : HeapBuffer) (offset : Nat) : Str → Prop
  | [] => b.cells offset = 0
  | c :: text => b.cells offset = c ∧ c ≠ 0 ∧ b.HoldsString (offset + 1) text

/-- The string depends on the cells up to its terminator. -/
theorem HoldsString.congr {b b' : HeapBuffer} {text : Str} : ∀ {offset : Nat},
    b.HoldsString offset text →
      (∀ i, offset ≤ i → i ≤ offset + text.length → b'.cells i = b.cells i) →
        b'.HoldsString offset text := by
  induction text with
  | nil =>
      intro offset holds same
      exact (same offset (Nat.le_refl _) (Nat.le_refl _)).trans holds
  | cons c text ih =>
      intro offset holds same
      rw [List.length_cons] at same
      refine ⟨(same offset (Nat.le_refl _) (by omega)).trans holds.1, holds.2.1, ?_⟩
      exact ih holds.2.2 fun i from_ upTo => same i (by omega) (by omega)

/-- A store in front of the string. -/
theorem HoldsString.store_before {b : HeapBuffer} {offset : Nat} {text : Str}
    (holds : b.HoldsString offset text) {i : Nat} (before : i < offset) (byte : UInt8) :
    (b.store i byte).HoldsString offset text := by
  apply holds.congr
  intro j inside _
  rw [store_cells, if_neg (by omega)]

/-- Bytes without a zero, and a zero behind them. -/
theorem holdsString_of_cells {b : HeapBuffer} {text : Str} (nonzero : ∀ c ∈ text, c ≠ 0) :
    ∀ {offset : Nat}, (∀ i (inside : i < text.length), b.cells (offset + i) = text[i]) →
      b.cells (offset + text.length) = 0 → b.HoldsString offset text := by
  induction text with
  | nil => exact fun _ zero => zero
  | cons c text ih =>
      intro offset chars zero
      rw [List.forall_mem_cons] at nonzero
      refine ⟨chars 0 (Nat.succ_pos _), nonzero.1, ?_⟩
      apply ih nonzero.2
      · intro i inside
        have char := chars (i + 1) (Nat.succ_lt_succ inside)
        rw [List.getElem_cons_succ] at char
        rw [← char, Nat.add_assoc, Nat.add_comm 1 i]
      · rw [List.length_cons] at zero
        rw [← zero, Nat.add_assoc, Nat.add_comm 1 text.length]

theorem holdsString_of_load {b : HeapBuffer} {offset : Nat} {text : Str}
    (nonzero : ∀ c ∈ text, c ≠ 0) (loaded : b.load offset text.length = text)
    (zero : b.cells (offset + text.length) = 0) : b.HoldsString offset text := by
  apply holdsString_of_cells nonzero _ zero
  intro i inside
  have char := b.load_getElem offset text.length i (by rw [load_length]; exact inside)
  rw [← char]
  simp only [loaded]

/-- A text that is stored in front of a zero. -/
theorem holdsString_storeBytes {b : HeapBuffer} {offset : Nat} {text : Str}
    (nonzero : ∀ c ∈ text, c ≠ 0) (zero : b.cells (offset + text.length) = 0) :
    (b.storeBytes offset text).HoldsString offset text := by
  apply holdsString_of_cells nonzero
  · exact fun i inside => storeBytes_inside b offset text i inside
  · rw [storeBytes_outside b offset text _ (Or.inr (Nat.le_refl _)), zero]

end JP4Agent.HeapBuffer
