import Mathlib.Data.List.Basic

set_option autoImplicit false

namespace JP4Agent

section
variable {α : Type}

/-- `n` elements from `offset`. -/
def loadAt (buffer : List α) (offset n : Nat) : List α := (buffer.drop offset).take n

/-- A copy to `offset`, over what is there. -/
def storeAt (buffer : List α) (offset : Nat) (field : List α) : List α :=
  buffer.take offset ++ field ++ buffer.drop (offset + field.length)

theorem loadAt_length {buffer : List α} {offset n : Nat} (inside : offset + n ≤ buffer.length) :
    (loadAt buffer offset n).length = n := by
  simp [loadAt]
  omega

/-- A field is the next part of what is behind its offset. -/
theorem loadAt_append_drop (buffer : List α) (offset n : Nat) :
    loadAt buffer offset n ++ buffer.drop (offset + n) = buffer.drop offset := by
  rw [loadAt, ← List.drop_drop, List.take_append_drop]

section
variable {front : List α} (rest : List α) {offset n : Nat}

theorem drop_skip (before : front.length ≤ offset) :
    (front ++ rest).drop offset = rest.drop (offset - front.length) := by
  rw [List.drop_append, List.drop_eq_nil_of_le before, List.nil_append]

theorem loadAt_skip (before : front.length ≤ offset) :
    loadAt (front ++ rest) offset n = loadAt rest (offset - front.length) n := by
  rw [loadAt, loadAt, drop_skip rest before]

theorem loadAt_front (within : front.length ≤ n) :
    loadAt (front ++ rest) 0 n = front ++ loadAt rest 0 (n - front.length) := by
  rw [loadAt, loadAt, List.drop_zero, List.drop_zero, List.take_append,
    List.take_of_length_le within]

theorem loadAt_nothing (buffer : List α) : loadAt buffer offset 0 = [] := List.take_zero

theorem loadAt_whole {buffer : List α} (whole : buffer.length ≤ n) :
    loadAt buffer 0 n = buffer := by
  rw [loadAt, List.drop_zero, List.take_of_length_le whole]

theorem storeAt_skip (field : List α) (before : front.length ≤ offset) :
    storeAt (front ++ rest) offset field = front ++ storeAt rest (offset - front.length) field := by
  have behind : offset + field.length - front.length = offset - front.length + field.length := by
    omega
  rw [storeAt, storeAt, List.take_append, List.take_of_length_le before,
    drop_skip rest (show front.length ≤ offset + field.length by omega), behind,
    List.append_assoc, List.append_assoc, List.append_assoc]

theorem storeAt_front {field : List α} (same : front.length = field.length) :
    storeAt (front ++ rest) 0 field = field ++ rest := by
  rw [storeAt, List.take_zero, List.nil_append, Nat.zero_add, ← same, List.drop_left]

theorem storeAt_whole {buffer field : List α} (same : buffer.length = field.length) :
    storeAt buffer 0 field = field := by
  rw [storeAt, List.take_zero, List.nil_append, Nat.zero_add, ← same, List.drop_length,
    List.append_nil]

end

end

end JP4Agent
