import JP4Agent.Library.Bytes

set_option autoImplicit false

/- A heap allocation reached through a raw pointer. Stores are not checked against
the size of the allocation: they are recorded, so that a result can say whether
each of them was in bounds. -/
namespace JP4Agent

structure HeapBuffer where
  /-- Number of bytes allocated. -/
  size : Nat
  /-- The byte at each offset from the start of the allocation. -/
  cells : Nat → UInt8
  /-- The offsets stored to, latest first. -/
  stored : List Nat

namespace HeapBuffer

/-- `new uint8_t[n]{}` -/
def alloc (n : Nat) : HeapBuffer := ⟨n, fun _ => 0, []⟩

/-- `*(base + offset) = byte` -/
def store (b : HeapBuffer) (offset : Nat) (byte : UInt8) : HeapBuffer :=
  { b with
    cells := fun i => if i = offset then byte else b.cells i
    stored := offset :: b.stored }

/-- A read, an operation on the byte and a store to the same offset. -/
def modify (b : HeapBuffer) (offset : Nat) (f : UInt8 → UInt8) : HeapBuffer :=
  b.store offset (f (b.cells offset))

/-- `memcpy(base + offset, bytes, n)` with the `n` source bytes. -/
def storeBytes (b : HeapBuffer) (offset : Nat) : Str → HeapBuffer
  | [] => b
  | byte :: bytes => (b.store offset byte).storeBytes (offset + 1) bytes

/-- `n` bytes read from `base + offset`. -/
def load (b : HeapBuffer) (offset n : Nat) : Str :=
  (List.range n).map fun i => b.cells (offset + i)

/-- The allocation as it is reached through `base + offset`. -/
def behind (b : HeapBuffer) (offset : Nat) : HeapBuffer :=
  ⟨b.size - offset, fun i => b.cells (offset + i), []⟩

/-- The allocation after this was made of what is reached through `base + offset`. -/
def putBehind (b : HeapBuffer) (offset : Nat) (part : HeapBuffer) : HeapBuffer :=
  { b with
    cells := fun i => if i < offset then b.cells i else part.cells (i - offset)
    stored := part.stored.map (offset + ·) ++ b.stored }

/-- The whole allocation. -/
def contents (b : HeapBuffer) : Str := b.load 0 b.size

@[simp] theorem alloc_size (n : Nat) : (alloc n).size = n := rfl
@[simp] theorem alloc_cells (n i : Nat) : (alloc n).cells i = 0 := rfl
@[simp] theorem alloc_stored (n : Nat) : (alloc n).stored = [] := rfl

section
variable (b : HeapBuffer) (offset : Nat)

@[simp] theorem store_size (byte : UInt8) : (b.store offset byte).size = b.size := rfl

@[simp] theorem store_cells (byte : UInt8) (i : Nat) :
    (b.store offset byte).cells i = if i = offset then byte else b.cells i := rfl

@[simp] theorem store_stored (byte : UInt8) :
    (b.store offset byte).stored = offset :: b.stored := rfl

@[simp] theorem modify_size (f : UInt8 → UInt8) : (b.modify offset f).size = b.size := rfl

@[simp] theorem modify_cells (f : UInt8 → UInt8) (i : Nat) :
    (b.modify offset f).cells i = if i = offset then f (b.cells offset) else b.cells i := rfl

@[simp] theorem modify_stored (f : UInt8 → UInt8) :
    (b.modify offset f).stored = offset :: b.stored := rfl

end

@[simp] theorem storeBytes_size (b : HeapBuffer) (offset : Nat) (bytes : Str) :
    (b.storeBytes offset bytes).size = b.size := by
  induction bytes generalizing b offset with
  | nil => rfl
  | cons byte bytes ih => rw [storeBytes, ih, store_size]

theorem storeBytes_outside (b : HeapBuffer) (offset : Nat) (bytes : Str) (i : Nat)
    (outside : i < offset ∨ offset + bytes.length ≤ i) :
    (b.storeBytes offset bytes).cells i = b.cells i := by
  induction bytes generalizing b offset with
  | nil => rfl
  | cons byte bytes ih =>
      simp only [List.length_cons] at outside
      have apart : i ≠ offset := by omega
      rw [storeBytes, ih (b.store offset byte) (offset + 1) (by omega), store_cells,
        if_neg apart]

theorem storeBytes_inside (b : HeapBuffer) (offset : Nat) (bytes : Str) (i : Nat)
    (inside : i < bytes.length) :
    (b.storeBytes offset bytes).cells (offset + i) = bytes[i] := by
  induction bytes generalizing b offset i with
  | nil => simp at inside
  | cons byte bytes ih =>
      rw [storeBytes]
      cases i with
      | zero =>
          -- the rest of the copy starts above this offset
          rw [storeBytes_outside _ _ _ _ (Or.inl (by omega)), Nat.add_zero, store_cells,
            if_pos rfl, List.getElem_cons_zero]
      | succ i =>
          simp only [List.length_cons] at inside
          rw [show offset + (i + 1) = offset + 1 + i by omega,
            ih (b.store offset byte) (offset + 1) i (by omega), List.getElem_cons_succ]

theorem mem_storeBytes_stored (b : HeapBuffer) (offset : Nat) (bytes : Str) (i : Nat) :
    i ∈ (b.storeBytes offset bytes).stored ↔
      (offset ≤ i ∧ i < offset + bytes.length) ∨ i ∈ b.stored := by
  induction bytes generalizing b offset with
  | nil =>
      have nothing : ¬ (offset ≤ i ∧ i < offset + ([] : Str).length) := by
        simp only [List.length_nil]
        omega
      simp only [storeBytes, nothing, false_or]
  | cons byte bytes ih =>
      rw [storeBytes, ih, store_stored, List.mem_cons, List.length_cons]
      constructor
      · rintro (inside | rfl | old)
        · exact Or.inl (by omega)
        · exact Or.inl (by omega)
        · exact Or.inr old
      · rintro (inside | old)
        · by_cases first : i = offset
          · exact Or.inr (Or.inl first)
          · exact Or.inl (by omega)
        · exact Or.inr (Or.inr old)

theorem storeBytes_append (b : HeapBuffer) (offset : Nat) (bytes more : Str) :
    b.storeBytes offset (bytes ++ more) =
      (b.storeBytes offset bytes).storeBytes (offset + bytes.length) more := by
  induction bytes generalizing b offset with
  | nil => rfl
  | cons byte bytes ih =>
      rw [List.cons_append, storeBytes, ih, storeBytes, List.length_cons,
        Nat.add_assoc, Nat.add_comm 1]

theorem putBehind_store (b part : HeapBuffer) (offset i : Nat) (byte : UInt8) :
    b.putBehind offset (part.store i byte) =
      (b.putBehind offset part).store (offset + i) byte := by
  have cells : (b.putBehind offset (part.store i byte)).cells =
      ((b.putBehind offset part).store (offset + i) byte).cells := by
    funext j
    show (if j < offset then b.cells j else if j - offset = i then byte else _) =
      if j = offset + i then byte else if j < offset then b.cells j else _
    split_ifs <;> first | rfl | omega
  exact congrArg (fun cells => HeapBuffer.mk b.size cells
    ((offset + i) :: (part.stored.map (offset + ·) ++ b.stored))) cells

theorem putBehind_behind (b : HeapBuffer) (offset : Nat) :
    b.putBehind offset (b.behind offset) = b := by
  have cells : (b.putBehind offset (b.behind offset)).cells = b.cells := by
    funext i
    show (if i < offset then b.cells i else b.cells (offset + (i - offset))) = b.cells i
    split_ifs with before
    · rfl
    · rw [Nat.add_sub_cancel' (Nat.le_of_not_lt before)]
  exact congrArg (fun cells => HeapBuffer.mk b.size cells b.stored) cells

/-- Stores through a pointer into the allocation. -/
theorem putBehind_storeBytes (b : HeapBuffer) (offset i : Nat) (bytes : Str) :
    b.putBehind offset ((b.behind offset).storeBytes i bytes) =
      b.storeBytes (offset + i) bytes := by
  have each : ∀ (bytes : Str) (part : HeapBuffer) (i : Nat),
      b.putBehind offset (part.storeBytes i bytes) =
        (b.putBehind offset part).storeBytes (offset + i) bytes := by
    intro bytes
    induction bytes with
    | nil => exact fun _ _ => rfl
    | cons byte bytes ih =>
        intro part i
        rw [storeBytes, ih, putBehind_store, storeBytes, Nat.add_assoc]
  rw [each, putBehind_behind]

@[simp] theorem load_length (b : HeapBuffer) (offset n : Nat) :
    (b.load offset n).length = n := by
  simp only [load, List.length_map, List.length_range]

@[simp] theorem contents_length (b : HeapBuffer) : b.contents.length = b.size := by
  simp only [contents, load_length]

theorem load_getElem (b : HeapBuffer) (offset n i : Nat) (inside : i < (b.load offset n).length) :
    (b.load offset n)[i] = b.cells (offset + i) := by
  simp only [load, List.getElem_map, List.getElem_range]

/-- A block is determined by the cells it covers. -/
theorem load_eq (b : HeapBuffer) (offset : Nat) (bytes : Str)
    (same : ∀ i, (inside : i < bytes.length) → b.cells (offset + i) = bytes[i]) :
    b.load offset bytes.length = bytes := by
  apply List.ext_getElem
  · rw [load_length]
  · intro i _ inside
    rw [load_getElem, same i inside]

end HeapBuffer
end JP4Agent
