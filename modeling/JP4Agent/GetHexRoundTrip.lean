import JP4Agent.GetHex
import JP4Agent.HexStrings

set_option autoImplicit false

namespace JP4Agent.Utils

/-- The two digits of a byte. -/
def digits (byte : UInt8) : Str := [hexDigit (byte / 16), hexDigit (byte % 16)]

/-- The text without its spaces and row breaks. -/
def withoutBreaks (text : Str) : Str := text.filter fun c => c ≠ 32 ∧ c ≠ 10

theorem hexDigit_isDigit {v : UInt8} (small : v < 16) : IsDigit v.toNat (hexDigit v) := by
  have all : ∀ n < 16, IsDigit n (hexDigit (UInt8.ofNat n)) := by decide
  have digit := all v.toNat (UInt8.lt_iff_toNat_lt.mp small)
  rw [UInt8.ofNat_toNat] at digit
  exact digit

theorem high_isDigit (byte : UInt8) : IsDigit (byte.toNat / 16) (hexDigit (byte / 16)) := by
  have below : byte / 16 < 16 := by
    have bound := byte.toNat_lt
    rw [UInt8.lt_iff_toNat_lt, UInt8.toNat_div]
    change byte.toNat / 16 < 16
    omega
  exact UInt8.toNat_div byte 16 ▸ hexDigit_isDigit below

theorem low_isDigit (byte : UInt8) : IsDigit (byte.toNat % 16) (hexDigit (byte % 16)) := by
  have below : byte % 16 < 16 := by
    rw [UInt8.lt_iff_toNat_lt, UInt8.toNat_mod]
    exact Nat.mod_lt _ (by decide)
  exact UInt8.toNat_mod byte 16 ▸ hexDigit_isDigit below

theorem digits_pairs (bytes : Str) : HexPairs bytes (bytes.flatMap digits) := by
  induction bytes with
  | nil => exact .nil
  | cons byte bytes ih => exact .cons (high_isDigit byte) (low_isDigit byte) ih

theorem hexByte_nonzero (byte : UInt8) : ∀ c ∈ hexByte byte, c ≠ 0 := by
  simp [hexByte, (high_isDigit byte).visible, (low_isDigit byte).visible]

theorem withoutBreaks_hexByte (byte : UInt8) : withoutBreaks (hexByte byte) = digits byte := by
  simp [withoutBreaks, hexByte, digits, (high_isDigit byte).visible, (low_isDigit byte).visible]

/-- `after` is `before` with a text added at `offset`, which has the digits of these bytes, and a
terminator behind it. -/
structure Printed (before after : HeapBuffer) (offset : Nat) (text bytes : Str) : Prop where
  loaded : after.load 0 (offset + text.length) = before.load 0 offset ++ text
  zero : after.cells (offset + text.length) = 0
  nonzero : ∀ c ∈ text, c ≠ 0
  shown : withoutBreaks text = bytes.flatMap digits

theorem Printed.trans {first second third : HeapBuffer} {offset : Nat}
    {text more bytes others : Str} (h : Printed first second offset text bytes)
    (h' : Printed second third (offset + text.length) more others) :
    Printed first third offset (text ++ more) (bytes ++ others) where
  loaded := by
    rw [List.length_append, ← Nat.add_assoc, h'.loaded, h.loaded, List.append_assoc]
  zero := by
    rw [List.length_append, ← Nat.add_assoc]
    exact h'.zero
  nonzero c member := by
    rcases List.mem_append.mp member with before | after
    · exact h.nonzero c before
    · exact h'.nonzero c after
  shown := by
    rw [withoutBreaks, List.filter_append, List.flatMap_append]
    exact congrArg₂ (· ++ ·) h.shown h'.shown

theorem printed_nothing {out : HeapBuffer} {offset : Nat} (zero : out.cells offset = 0) :
    Printed out out offset [] [] :=
  ⟨(List.append_nil _).symm, zero, fun _ wrong => absurd wrong List.not_mem_nil, rfl⟩

/-- `snprintf` with room for the text and its terminator. -/
theorem snprintf_printed (out : HeapBuffer) (offset : Nat) {n : Int} {text bytes : Str}
    (room : text.length < n) (nonzero : ∀ c ∈ text, c ≠ 0)
    (shown : withoutBreaks text = bytes.flatMap digits) :
    Printed out (out.storeBytes offset (snprintf n text)) offset text bytes := by
  have size : sizeT n = n.toNat := by
    unfold sizeT
    rw [if_neg (by omega)]
  have written : snprintf n text = text ++ [0] := by
    rw [snprintf, size, if_neg (by omega), List.take_of_length_le (by omega)]
  have length : (snprintf n text).length = text.length + 1 := by
    rw [written, List.length_append, List.length_singleton]
  refine ⟨?_, ?_, nonzero, shown⟩
  · apply List.ext_getElem
    · simp only [HeapBuffer.load_length, List.length_append]
    · intro i inside _
      rw [HeapBuffer.load_length] at inside
      rw [HeapBuffer.load_getElem, Nat.zero_add]
      by_cases old : i < offset
      · rw [HeapBuffer.storeBytes_outside _ _ _ _ (Or.inl old), List.getElem_append_left
          (by rw [HeapBuffer.load_length]; exact old), HeapBuffer.load_getElem, Nat.zero_add]
      · obtain ⟨k, rfl⟩ := Nat.exists_eq_add_of_le (Nat.le_of_not_lt old)
        rw [HeapBuffer.storeBytes_inside _ _ _ _ (by omega), List.getElem_append_right
          (by rw [HeapBuffer.load_length]; omega)]
        simp only [written, HeapBuffer.load_length, Nat.add_sub_cancel_left]
        rw [List.getElem_append_left]
  · rw [HeapBuffer.storeBytes_inside _ _ _ _ (by omega)]
    simp only [written, List.getElem_concat_length]

/-- The inner loop, with room for the rest of the buffer. -/
theorem row_printed (col : Nat) : ∀ (buf : Str) (cursor : Cursor),
    3 * buf.length < cursor.hexLen → cursor.out.cells cursor.hex = 0 ∨ 0 < col ∧ buf ≠ [] →
      ∃ out text, row col buf cursor = (buf.drop col, ⟨out, cursor.hex + text.length,
          cursor.hexLen - 3 * (buf.take col).length⟩) ∧
        Printed cursor.out out cursor.hex text (buf.take col) := by
  induction col with
  | zero =>
      intro buf cursor _ ends
      have zero := ends.resolve_right fun more => Nat.lt_irrefl 0 more.1
      refine ⟨cursor.out, [], ?_, printed_nothing zero⟩
      simp [row]
  | succ col ih =>
      intro buf cursor room ends
      cases buf with
      | nil =>
          have zero := ends.resolve_right fun more => more.2 rfl
          refine ⟨cursor.out, [], ?_, printed_nothing zero⟩
          simp [row]
      | cons byte buf =>
          rw [List.length_cons] at room
          have shown : withoutBreaks (hexByte byte) = [byte].flatMap digits := by
            rw [withoutBreaks_hexByte, List.flatMap_singleton]
          have first := snprintf_printed cursor.out cursor.hex
            (show (3 : Nat) < cursor.hexLen by omega) (hexByte_nonzero byte) shown
          obtain ⟨out, text, ran, more⟩ := ih buf
            { out := cursor.out.storeBytes cursor.hex (snprintf cursor.hexLen (hexByte byte))
              hex := cursor.hex + 3
              hexLen := cursor.hexLen - 3 } (by dsimp only; omega) (Or.inl first.zero)
          refine ⟨out, hexByte byte ++ text, ?_, first.trans more⟩
          rw [row, if_pos (by omega), ran, List.take_succ_cons, List.drop_succ_cons,
            List.length_append, List.length_cons]
          dsimp only
          congr 2
          · rw [Nat.add_assoc]
            rfl
          · omega

/-- The break, if there is one. -/
theorem newline_printed (cursor : Cursor) {left : Nat} (room : 3 * left < cursor.hexLen)
    (zero : cursor.out.cells cursor.hex = 0) :
    ∃ out text, (if 1 < left then newline cursor else cursor) =
        ⟨out, cursor.hex + text.length, cursor.hexLen⟩ ∧
      Printed cursor.out out cursor.hex text [] := by
  by_cases broken : 1 < left
  · have nonzero : ∀ c ∈ str "\n", c ≠ 0 := by
      intro c member
      rw [List.mem_singleton.mp member]
      decide
    rw [if_pos broken]
    exact ⟨_, str "\n", rfl, snprintf_printed cursor.out cursor.hex
      (show (1 : Nat) < cursor.hexLen by omega) nonzero rfl⟩
  · rw [if_neg broken]
    exact ⟨_, [], rfl, printed_nothing zero⟩

/-- By induction on the rows: they are added one after another, with breaks between them. -/
theorem rows_printed (numCol : Nat) (cols : 0 < numCol) (fuel : Nat) :
    ∀ (buf : Str) (cursor : Cursor), 3 * buf.length < cursor.hexLen → buf ≠ [] →
      buf.length ≤ fuel →
      ∃ out text, rows numCol fuel buf cursor = some out ∧
        Printed cursor.out out cursor.hex text buf := by
  induction fuel with
  | zero =>
      intro buf _ _ more enough
      exact absurd (List.length_eq_zero_iff.mp (Nat.le_zero.mp enough)) more
  | succ fuel ih =>
      intro buf cursor room more enough
      have bytes : 0 < buf.length := List.length_pos_iff.mpr more
      have taken : (buf.take numCol).length = min numCol buf.length := List.length_take
      have left : (buf.drop numCol).length = buf.length - numCol := List.length_drop
      obtain ⟨out, text, ran, first⟩ := row_printed numCol buf cursor room (Or.inr ⟨cols, more⟩)
      obtain ⟨out', text', broken, second⟩ := newline_printed
        ⟨out, cursor.hex + text.length, cursor.hexLen - 3 * (buf.take numCol).length⟩
        (show 3 * ((buf.drop numCol).length : Int) < cursor.hexLen - 3 * (buf.take numCol).length
          by omega) first.zero
      have both := first.trans second
      rw [rows, ran]
      dsimp only at broken ⊢
      rw [broken]
      by_cases last : buf.drop numCol = []
      · have all : buf.take numCol = buf := by
          have whole := List.take_append_drop numCol buf
          rw [last, List.append_nil] at whole
          exact whole
        rw [List.append_nil, all] at both
        rw [if_neg fun rest => rest.1 last]
        exact ⟨out', _, rfl, both⟩
      · have some : 0 < (buf.drop numCol).length := List.length_pos_iff.mpr last
        rw [if_pos ⟨last, by dsimp only; omega⟩]
        obtain ⟨final, text'', ended, rest⟩ := ih (buf.drop numCol)
          ⟨out', cursor.hex + text.length + text'.length,
            cursor.hexLen - 3 * (buf.take numCol).length⟩ (by dsimp only; omega) last (by omega)
        have behind : cursor.hex + text.length + text'.length =
            cursor.hex + (text ++ text').length := by
          rw [List.length_append, Nat.add_assoc]
        dsimp only at rest
        rw [behind] at rest
        have three := both.trans rest
        rw [List.append_nil, List.take_append_drop] at three
        exact ⟨final, _, ended, three⟩

/-- The call returns, and the digits of the text it leaves, given without spaces and breaks to
`convertHexStringToBinary` with room for the buffer, are read as the buffer. -/
def Recovers (buf : Str) (result : Option HeapBuffer) : Prop :=
  ∃ out text, result = some out ∧ out.HoldsString 0 text ∧
    ∀ source target : HeapBuffer, ∀ capacity : Int,
      source.HoldsString 0 (withoutBreaks text) → (withoutBreaks text).length < source.size →
        buf.length ≤ capacity → ∃ after,
          convertHexStringToBinary source target capacity = some ((buf.length : Int), after) ∧
            after.load 0 buf.length = buf

theorem recovers_of_printed {before after : HeapBuffer} {text buf : Str}
    (printed : Printed before after 0 text buf) : Recovers buf (some after) := by
  have loaded := printed.loaded
  have nothing : before.load 0 0 = [] := rfl
  rw [Nat.zero_add, nothing, List.nil_append] at loaded
  refine ⟨after, text, rfl, HeapBuffer.holdsString_of_load printed.nonzero loaded printed.zero, ?_⟩
  intro source target capacity holds fits room
  obtain ⟨len, rfl⟩ := Int.eq_ofNat_of_zero_le (a := capacity) (by omega)
  rw [printed.shown] at holds fits
  rw [convertHexStringToBinary_pairs (digits_pairs buf) holds fits target, if_pos (by omega),
    List.take_of_length_le (by omega)]
  refine ⟨_, rfl, HeapBuffer.load_eq _ 0 buf fun i inside => ?_⟩
  exact HeapBuffer.storeBytes_inside target 0 buf i inside

/-- A trace with room for its digits and breaks can be read back, and so can that of a packet of
at most 2000 bytes. -/
theorem getHex_round_trip (buf : Str) (hex : HeapBuffer) (hexLen numCol : Int)
    (cols : 1 ≤ numCol) (dataHexStr : Nat → UInt8) :
    (3 * buf.length + (buf.length + numCol - 1) / numCol + 1 ≤ hexLen →
      Recovers buf (getHex buf hex hexLen numCol)) ∧
    (buf.length ≤ 2000 → Recovers buf (pktTrace buf dataHexStr)) := by
  have recovers : ∀ (hex : HeapBuffer) (hexLen numCol : Int), 1 ≤ numCol →
      3 * buf.length + (buf.length + numCol - 1) / numCol + 1 ≤ hexLen →
        Recovers buf (getHex buf hex hexLen numCol) := by
    intro hex hexLen numCol cols capacity
    have breaks : 0 ≤ (buf.length + numCol - 1) / numCol :=
      Int.ediv_nonneg (by omega) (by omega)
    have positive : 0 < hexLen := by omega
    unfold getHex
    by_cases empty : buf = []
    · subst empty
      rw [if_pos rfl, if_pos positive]
      have zero : (hex.store 0 0).cells 0 = 0 := rfl
      exact recovers_of_printed (printed_nothing zero)
    · have bytes : 0 < buf.length := List.length_pos_iff.mpr empty
      rw [if_neg empty, if_neg (by omega)]
      obtain ⟨out, text, ended, printed⟩ := rows_printed numCol.toNat (by omega) (buf.length + 1)
        buf ⟨hex, 0, hexLen⟩ (by dsimp only; omega) empty (Nat.le_succ _)
      rw [ended]
      exact recovers_of_printed printed
  refine ⟨recovers hex hexLen numCol cols, fun short => ?_⟩
  exact recovers _ 10000 16 (by decide) (by omega)

theorem getHex_round_trip_rows :
    Recovers [0x00, 0x7f, 0x80, 0xff, 0x0a]
        (getHex [0x00, 0x7f, 0x80, 0xff, 0x0a] (HeapBuffer.alloc 19) 19 2) ∧
      Recovers [0x00, 0x7f, 0x80, 0xff, 0x0a]
        (pktTrace [0x00, 0x7f, 0x80, 0xff, 0x0a] fun _ => 0) := by
  have recovers := getHex_round_trip [0x00, 0x7f, 0x80, 0xff, 0x0a] (HeapBuffer.alloc 19) 19 2
    (by decide) fun _ => 0
  exact ⟨recovers.1 (by decide), recovers.2 (by decide)⟩

end JP4Agent.Utils
