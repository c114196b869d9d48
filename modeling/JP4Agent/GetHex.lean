import JP4Agent.Library.HeapBuffer

set_option autoImplicit false

namespace JP4Agent.Utils

/-- An `int` converted to a 64-bit `size_t`: a negative one becomes huge. -/
def sizeT (n : Int) : Nat := (if n < 0 then n + 18446744073709551616 else n).toNat

/-- What `snprintf` stores of a text, at most `n` bytes with the terminator. -/
def snprintf (n : Int) (text : Str) : Str :=
  if sizeT n = 0 then [] else text.take (sizeT n - 1) ++ [0]

def hexDigit (v : UInt8) : UInt8 := if v < 10 then 48 + v else 55 + v

/-- `"%02X "` -/
def hexByte (byte : UInt8) : Str := [hexDigit (byte / 16), hexDigit (byte % 16), 32]

/-- The output with `hex_`, as an offset from where it started, and `hex_len`. -/
structure Cursor where
  out : HeapBuffer
  hex : Nat
  hexLen : Int

/-- The inner loop, with the columns that are left and the rest of the buffer. -/
def row : Nat → Str → Cursor → Str × Cursor
  | 0, buf, cursor => (buf, cursor)
  | _ + 1, [], cursor => ([], cursor)
  | col + 1, byte :: buf, cursor =>
    if 0 < cursor.hexLen then
      row col buf
        { out := cursor.out.storeBytes cursor.hex (snprintf cursor.hexLen (hexByte byte))
          hex := cursor.hex + 3
          hexLen := cursor.hexLen - 3 }
    else (byte :: buf, cursor)

/-- The end of a row. Unlike for a byte, `hex_len` keeps its value. -/
def newline (cursor : Cursor) : Cursor :=
  { cursor with
    out := cursor.out.storeBytes cursor.hex (snprintf cursor.hexLen (str "\n"))
    hex := cursor.hex + 1 }

/-- The outer loop; `none` if it has not ended after so many rows. -/
def rows (numCol : Nat) : Nat → Str → Cursor → Option HeapBuffer
  | 0, _, _ => none
  | fuel + 1, buf, cursor =>
    let (buf, cursor) := row numCol buf cursor
    let cursor := if 1 < buf.length then newline cursor else cursor
    if buf ≠ [] ∧ 0 < cursor.hexLen then rows numCol fuel buf cursor else some cursor.out

def getHex (buf : Str) (hex : HeapBuffer) (hexLen numCol : Int) : Option HeapBuffer :=
  if buf = [] then some (if 0 < hexLen then hex.store 0 0 else hex)
  else if hexLen < 4 then some hex
  else rows numCol.toNat (buf.length + 1) buf ⟨hex, 0, hexLen⟩

/-- The array `data_hex_str` holds these bytes before. -/
def pktTrace (pkt : Str) (dataHexStr : Nat → UInt8) : Option HeapBuffer :=
  getHex pkt ⟨10000, dataHexStr, []⟩ 10000 16

/-- How many bytes the inner loop prints. -/
def printed (col : Nat) (buf : Str) (hexLen : Int) : Nat :=
  min col (min buf.length ((hexLen + 2) / 3).toNat)

/-- Something was stored up to the offset `last`, a terminator there. -/
structure Terminated (before after : HeapBuffer) (last : Nat) : Prop where
  kept : ∀ i ∈ before.stored, i ∈ after.stored
  upTo : ∀ i ∈ after.stored, i ∈ before.stored ∨ i ≤ last
  stored : last ∈ after.stored
  zero : after.cells last = 0

theorem Terminated.trans {first second third : HeapBuffer} {middle last : Nat}
    (h : Terminated first second middle) (h' : Terminated second third last)
    (later : middle ≤ last) : Terminated first third last where
  kept i old := h'.kept i (h.kept i old)
  upTo i new := by
    rcases h'.upTo i new with old | below
    · rcases h.upTo i old with older | below
      · exact Or.inl older
      · exact Or.inr (by omega)
    · exact Or.inr below
  stored := h'.stored
  zero := h'.zero

theorem Terminated.inside_iff {before after : HeapBuffer} {last : Nat}
    (h : Terminated before after last) (cap : Int) :
    (∀ i ∈ after.stored, (i : Int) < cap) ↔
      (∀ i ∈ before.stored, (i : Int) < cap) ∧ last < cap := by
  constructor
  · exact fun inside => ⟨fun i old => inside i (h.kept i old), inside last h.stored⟩
  · rintro ⟨inside, below⟩ i new
    rcases h.upTo i new with old | upTo
    · exact inside i old
    · omega

theorem snprintf_terminated (out : HeapBuffer) (offset : Nat) {n : Int} (text : Str)
    (some : sizeT n ≠ 0) :
    Terminated out (out.storeBytes offset (snprintf n text))
      (offset + min text.length (sizeT n - 1)) := by
  have length : (text.take (sizeT n - 1)).length = min text.length (sizeT n - 1) := by
    rw [List.length_take, Nat.min_comm]
  have written : snprintf n text = text.take (sizeT n - 1) ++ [0] := if_neg some
  have size : (snprintf n text).length = min text.length (sizeT n - 1) + 1 := by
    rw [written, List.length_append, length]
    rfl
  refine ⟨fun i old => ?_, fun i new => ?_, ?_, ?_⟩
  · exact (HeapBuffer.mem_storeBytes_stored ..).mpr (Or.inr old)
  · rcases (HeapBuffer.mem_storeBytes_stored ..).mp new with inside | old
    · exact Or.inr (by omega)
    · exact Or.inl old
  · exact (HeapBuffer.mem_storeBytes_stored ..).mpr (Or.inl (by omega))
  · rw [HeapBuffer.storeBytes_inside out offset _ _ (by omega)]
    simp only [written, ← length, List.getElem_concat_length]

/-- The inner loop prints three characters for each byte, the last ones as far as
`hex_len` allows. -/
theorem row_eq (col : Nat) : ∀ (buf : Str) (cursor : Cursor), ∃ out,
    row col buf cursor = (buf.drop (printed col buf cursor.hexLen),
      ⟨out, cursor.hex + 3 * printed col buf cursor.hexLen,
        cursor.hexLen - 3 * printed col buf cursor.hexLen⟩) ∧
      (printed col buf cursor.hexLen = 0 → out = cursor.out) ∧
      ∀ j, printed col buf cursor.hexLen = j + 1 → Terminated cursor.out out
        (cursor.hex + 3 * j + min 3 (sizeT (cursor.hexLen - 3 * j) - 1)) := by
  induction col with
  | zero =>
      intro buf cursor
      have none : printed 0 buf cursor.hexLen = 0 := Nat.zero_min _
      refine ⟨cursor.out, ?_, fun _ => rfl, fun j wrong => ?_⟩
      · rw [none, row]
        simp
      · omega
  | succ col ih =>
      intro buf cursor
      cases buf with
      | nil =>
          have none : printed (col + 1) [] cursor.hexLen = 0 := by
            simp [printed]
          refine ⟨cursor.out, ?_, fun _ => rfl, fun j wrong => ?_⟩
          · rw [none, row]
            simp
          · omega
      | cons byte buf =>
          by_cases room : 0 < cursor.hexLen
          · have size : sizeT cursor.hexLen ≠ 0 := by
              unfold sizeT
              omega
            have here := snprintf_terminated cursor.out cursor.hex (hexByte byte) size
            have three : (hexByte byte).length = 3 := rfl
            rw [three] at here
            obtain ⟨out, rest, unchanged, more⟩ := ih buf
              { out := cursor.out.storeBytes cursor.hex (snprintf cursor.hexLen (hexByte byte))
                hex := cursor.hex + 3
                hexLen := cursor.hexLen - 3 }
            have count : printed (col + 1) (byte :: buf) cursor.hexLen =
                printed col buf (cursor.hexLen - 3) + 1 := by
              simp only [printed, List.length_cons]
              omega
            dsimp only at rest unchanged more
            refine ⟨out, ?_, fun wrong => by omega, fun j last => ?_⟩
            · rw [row, if_pos room, rest, count, List.drop_succ_cons]
              congr 2
              · omega
              · omega
            · rw [count, Nat.add_right_cancel_iff] at last
              cases j with
              | zero =>
                  rw [unchanged last]
                  simpa only [Nat.mul_zero, Nat.add_zero, Int.natCast_zero, Int.mul_zero,
                    Int.sub_zero] using here
              | succ j =>
                  have next := more j last
                  have position : cursor.hex + 3 * (j + 1) = cursor.hex + 3 + 3 * j := by omega
                  have left : cursor.hexLen - 3 * ((j + 1 : Nat) : Int) =
                      cursor.hexLen - 3 - 3 * j := by omega
                  rw [position, left]
                  apply here.trans next
                  show cursor.hex + min 3 _ ≤ _
                  omega
          · have none : printed (col + 1) (byte :: buf) cursor.hexLen = 0 := by
              simp only [printed, List.length_cons]
              omega
            refine ⟨cursor.out, ?_, fun _ => rfl, fun j wrong => ?_⟩
            · rw [none, row, if_neg room]
              simp
            · omega

/-- A row that prints something ends at the capacity or after its last byte. -/
theorem row_ends {col : Nat} {buf : Str} {cursor : Cursor} {hexLen : Nat}
    (length : cursor.hexLen = hexLen) (room : 0 < hexLen) (more : buf ≠ []) (cols : 0 < col) :
    ∃ t out, t = min col (min buf.length ((hexLen + 2) / 3)) ∧ 0 < t ∧
      row col buf cursor = (buf.drop t, ⟨out, cursor.hex + 3 * t, cursor.hexLen - 3 * t⟩) ∧
      Terminated cursor.out out (cursor.hex + min (3 * t) (hexLen - 1)) := by
  obtain ⟨out, ends, _, last⟩ := row_eq col buf cursor
  have bytes : 0 < buf.length := List.length_pos_iff.mpr more
  have count : printed col buf cursor.hexLen = min col (min buf.length ((hexLen + 2) / 3)) := by
    rw [printed, length]
    omega
  have positive : 0 < printed col buf cursor.hexLen := by omega
  have terminated := last (printed col buf cursor.hexLen - 1) (by omega)
  have position : cursor.hex + 3 * (printed col buf cursor.hexLen - 1) +
      min 3 (sizeT (cursor.hexLen - 3 * ((printed col buf cursor.hexLen - 1 : Nat) : Int)) - 1) =
      cursor.hex + min (3 * printed col buf cursor.hexLen) (hexLen - 1) := by
    unfold sizeT
    omega
  rw [position] at terminated
  exact ⟨_, out, count, positive, ends, terminated⟩

theorem newline_full {cursor : Cursor} (full : cursor.hexLen = 0) :
    (newline cursor).out = cursor.out := by
  rw [newline, full]
  rfl

theorem newline_terminated (cursor : Cursor) (some : sizeT cursor.hexLen ≠ 0) :
    Terminated cursor.out (newline cursor).out
      (cursor.hex + min 1 (sizeT cursor.hexLen - 1)) :=
  snprintf_terminated cursor.out cursor.hex (str "\n") some

/-- A break after the row that took what was left. It is dropped if nothing is left, and
stored behind the end if the last byte was cut. -/
theorem newline_cut {before : HeapBuffer} (cursor : Cursor) {last : Nat}
    (beyond : cursor.hexLen ≤ 0) (near : -3 < cursor.hexLen)
    (upTo : (last : Int) + 1 = cursor.hex + cursor.hexLen)
    (terminated : Terminated before cursor.out last) :
    ∃ last', Terminated before (newline cursor).out last' ∧ last ≤ last' ∧
      ∀ breaks : Nat, (last' : Int) + breaks < cursor.hex + cursor.hexLen ↔
        breaks = 0 ∧ cursor.hexLen = 0 := by
  by_cases exactly : cursor.hexLen = 0
  · rw [newline_full exactly]
    exact ⟨last, terminated, Nat.le_refl last, fun breaks => by omega⟩
  · have huge : 2 ≤ sizeT cursor.hexLen := by
      unfold sizeT
      omega
    have behind := newline_terminated cursor (by omega)
    refine ⟨_, terminated.trans behind (by omega), by omega, fun breaks => ?_⟩
    omega

/-- When `len` bytes fit in what a capacity leaves, `hexLen` by the count of the loops, which
misses the row breaks so far. -/
def Fits (numCol breaks hexLen len : Nat) : Prop :=
  3 * len + (len - 2) / numCol + breaks < hexLen ∨
    breaks = 0 ∧
      (len ≤ numCol + 1 ∧ 3 * (len - 1) < hexLen ∨
        hexLen ≤ 3 * (len - 1) ∧ (hexLen + 2) / 3 ≤ numCol ∧
          (hexLen % 3 = 0 ∨ len = (hexLen + 2) / 3 + 1))

theorem fits_break {numCol breaks hexLen len : Nat} (cols : 0 < numCol)
    (more : numCol + 2 ≤ len) (room : 3 * numCol < hexLen) :
    Fits numCol (breaks + 1) (hexLen - 3 * numCol) (len - numCol) ↔
      Fits numCol breaks hexLen len := by
  have breakAfter : (len - 2) / numCol = (len - numCol - 2) / numCol + 1 := by
    rw [← Nat.add_div_right _ cols]
    congr 1
    omega
  unfold Fits
  rw [breakAfter]
  omega

theorem fits_row {numCol breaks hexLen : Nat} (cols : 0 < numCol) (room : 3 * numCol < hexLen) :
    Fits numCol breaks (hexLen - 3 * numCol) 1 ↔ Fits numCol breaks hexLen (numCol + 1) := by
  have none : (1 - 2) / numCol = 0 := Nat.zero_div _
  have none' : (numCol + 1 - 2) / numCol = 0 := Nat.div_eq_of_lt (by omega)
  unfold Fits
  rw [none, none']
  omega

theorem fits_last {numCol breaks hexLen len : Nat} (some : 0 < len) (last : len ≤ numCol)
    (room : 3 * (len - 1) < hexLen) :
    min (3 * len) (hexLen - 1) + breaks < hexLen ↔ Fits numCol breaks hexLen len := by
  have none : (len - 2) / numCol = 0 := Nat.div_eq_of_lt (by omega)
  unfold Fits
  rw [none]
  omega

theorem fits_cut (breaks : Nat) {numCol hexLen t len : Nat} (some : 0 < hexLen)
    (cut : t = (hexLen + 2) / 3) (cols : t ≤ numCol) (more : t < len) :
    Fits numCol breaks hexLen len ↔ breaks = 0 ∧ (hexLen = 3 * t ∨ len = t + 1) := by
  have := Nat.zero_le ((len - 2) / numCol)
  unfold Fits
  omega

/-- By induction on the rows that are left. A capacity that is smaller by `breaks` than what
the loops count with is kept exactly when the rest fits. -/
theorem rows_ends (numCol : Nat) (cols : 0 < numCol) (fuel : Nat) :
    ∀ (buf : Str) (cursor : Cursor) (hexLen : Nat), cursor.hexLen = hexLen → 0 < hexLen →
      buf ≠ [] → buf.length ≤ fuel →
      ∃ out last, rows numCol fuel buf cursor = some out ∧ Terminated cursor.out out last ∧
        cursor.hex ≤ last ∧
        ∀ breaks, last + breaks < cursor.hex + hexLen ↔ Fits numCol breaks hexLen buf.length := by
  induction fuel with
  | zero =>
      intro buf cursor hexLen _ _ more enough
      exact absurd (List.length_eq_zero_iff.mp (Nat.le_zero.mp enough)) more
  | succ fuel ih =>
      intro buf cursor hexLen length room more enough
      obtain ⟨t, out, count, positive, ends, terminated⟩ := row_ends length room more cols
      have bytes : 0 < buf.length := List.length_pos_iff.mpr more
      rw [rows, ends]
      dsimp only
      by_cases all : t = buf.length
      · -- the last row
        have done : buf.drop t = [] := List.drop_eq_nil_of_le (by omega)
        have noBreak : ¬ 1 < (buf.drop t).length := by
          rw [done]
          decide
        rw [if_neg noBreak, if_neg fun rest => rest.1 done]
        refine ⟨out, _, rfl, terminated, by omega, fun breaks => ?_⟩
        rw [← fits_last bytes (by omega) (by omega)]
        omega
      · have rest : (buf.drop t).length = buf.length - t := List.length_drop
        have left : buf.drop t ≠ [] := by
          intro nil
          rw [nil] at rest
          have : buf.length - t = 0 := rest.symm
          omega
        by_cases full : hexLen ≤ 3 * t
        · -- the row took what was left of the capacity
          have cut : t = (hexLen + 2) / 3 := by omega
          have closed (breaks : Nat) := fits_cut breaks room cut
            (by omega : t ≤ numCol) (by omega : t < buf.length)
          by_cases broken : 1 < (buf.drop t).length
          · obtain ⟨last, behind, later, within⟩ := newline_cut
              ⟨out, cursor.hex + 3 * t, cursor.hexLen - 3 * t⟩
              (show cursor.hexLen - 3 * (t : Int) ≤ 0 by omega)
              (show -3 < cursor.hexLen - 3 * (t : Int) by omega)
              (show _ = ((cursor.hex + 3 * t : Nat) : Int) + (cursor.hexLen - 3 * t) by omega)
              terminated
            have stop : ¬ (buf.drop t ≠ [] ∧ 0 < cursor.hexLen - 3 * (t : Int)) := by omega
            rw [if_pos broken]
            refine ⟨_, last, if_neg stop, behind, by omega, fun breaks => ?_⟩
            have within := within breaks
            rw [closed]
            dsimp only at within
            omega
          · have stop : ¬ (buf.drop t ≠ [] ∧ 0 < cursor.hexLen - 3 * (t : Int)) := by omega
            rw [if_neg broken]
            refine ⟨out, _, if_neg stop, terminated, by omega, fun breaks => ?_⟩
            rw [closed]
            omega
        · -- a full row, and capacity for more
          have whole : t = numCol := by omega
          subst whole
          have capacity : cursor.hexLen - 3 * (t : Int) = ((hexLen - 3 * t : Nat) : Int) := by
            omega
          have goesOn : buf.drop t ≠ [] ∧ 0 < cursor.hexLen - 3 * (t : Int) :=
            ⟨left, by omega⟩
          by_cases broken : 1 < (buf.drop t).length
          · have newRow := newline_terminated
              ⟨out, cursor.hex + 3 * t, cursor.hexLen - 3 * t⟩ (by
                show sizeT (cursor.hexLen - 3 * t) ≠ 0
                unfold sizeT
                omega)
            obtain ⟨final, last, ended, last_stored, later, fits⟩ := ih (buf.drop t)
              (newline ⟨out, cursor.hex + 3 * t, cursor.hexLen - 3 * t⟩) (hexLen - 3 * t)
              capacity (by omega) left (by omega)
            have later : cursor.hex + 3 * t + 1 ≤ last := later
            rw [if_pos broken]
            refine ⟨final, last, (if_pos goesOn).trans ended, ?_, by omega, fun breaks => ?_⟩
            · apply (terminated.trans newRow (by
                dsimp only
                omega)).trans last_stored
              dsimp only
              omega
            · have fits := fits (breaks + 1)
              rw [rest, fits_break cols (by omega) (by omega)] at fits
              rw [← fits]
              show _ ↔ _ < cursor.hex + 3 * t + 1 + _
              omega
          · obtain ⟨final, last, ended, last_stored, later, fits⟩ := ih (buf.drop t)
              ⟨out, cursor.hex + 3 * t, cursor.hexLen - 3 * t⟩ (hexLen - 3 * t)
              capacity (by omega) left (by omega)
            have later : cursor.hex + 3 * t ≤ last := later
            have one : (buf.drop t).length = 1 := by omega
            rw [if_neg broken]
            refine ⟨final, last, (if_pos goesOn).trans ended, ?_, by omega, fun breaks => ?_⟩
            · exact terminated.trans last_stored (by omega)
            · have fits := fits breaks
              have next : buf.length = t + 1 := by omega
              rw [one, fits_row cols (by omega)] at fits
              rw [next, ← fits]
              show _ ↔ _ < cursor.hex + 3 * t + _
              omega

/-- The call returns, and what it stored is below the capacity and ends there. -/
def Bounded (capacity : Int) (result : Option HeapBuffer) : Prop :=
  ∃ out, result = some out ∧ (∀ i ∈ out.stored, (i : Int) < capacity) ∧
    ∃ i ∈ out.stored, (i : Int) < capacity ∧ out.cells i = 0

theorem bounded_getHex_iff (buf : Str) (hexLen numCol : Int) (cells : Nat → UInt8)
    (capacity : 4 ≤ hexLen) (cols : 1 ≤ numCol) :
    Bounded hexLen (getHex buf ⟨hexLen.toNat, cells, []⟩ hexLen numCol) ↔
      buf = [] ∨ Fits numCol.toNat 0 hexLen.toNat buf.length := by
  unfold getHex
  by_cases empty : buf = []
  · rw [if_pos empty, if_pos (by omega)]
    refine ⟨fun _ => Or.inl empty, fun _ => ⟨_, rfl, fun i new => ?_, 0, ?_, by omega, rfl⟩⟩
    · rw [HeapBuffer.store_stored, List.mem_singleton] at new
      omega
    · exact List.mem_singleton.mpr rfl
  · obtain ⟨out, last, ended, terminated, _, fits⟩ := rows_ends numCol.toNat
      (by omega) (buf.length + 1) buf ⟨⟨hexLen.toNat, cells, []⟩, 0, hexLen⟩ hexLen.toNat
      (Int.toNat_of_nonneg (Int.le_trans (by decide) capacity)).symm (by omega) empty
      (Nat.le_succ _)
    dsimp only at fits
    rw [if_neg empty, if_neg (by omega), ended, ← fits 0]
    constructor
    · intro ⟨_, same, inside, _⟩
      cases same
      have := inside last terminated.stored
      exact Or.inr (by omega)
    · rintro (wrong | within)
      · exact absurd wrong empty
      · have below : (last : Int) < hexLen := by omega
        have inside := (terminated.inside_iff hexLen).mpr
          ⟨fun i old => absurd old List.not_mem_nil, below⟩
        exact ⟨out, rfl, inside, last, terminated.stored, below, terminated.zero⟩

/-- Each full row of 16 takes 49 characters, so 3265 bytes take 9795 for themselves, 203 for
the breaks and one for the terminator. -/
theorem fits_trace_iff (len : Nat) : Fits 16 0 10000 len ↔ len ≤ 3265 := by
  unfold Fits
  omega

theorem bounded_pktTrace_iff (pkt : Str) (cells : Nat → UInt8) :
    Bounded 10000 (pktTrace pkt cells) ↔ pkt.length ≤ 3265 := by
  have fits := bounded_getHex_iff pkt 10000 16 cells (by decide) (by decide)
  rw [show (16 : Int).toNat = 16 from rfl, show (10000 : Int).toNat = 10000 from rfl,
    fits_trace_iff] at fits
  rw [pktTrace, fits]
  constructor
  · rintro (rfl | short)
    · exact Nat.zero_le _
    · exact short
  · exact Or.inr

/-- `getHex` keeps within its capacity exactly for the buffers that fit with the breaks, and
the trace of a packet exactly up to 3265 bytes. -/
theorem getHex_bounded_iff (buf : Str) (hexLen numCol : Int) (cells : Nat → UInt8)
    (capacity : 4 ≤ hexLen) (cols : 1 ≤ numCol) :
    (Bounded hexLen (getHex buf ⟨hexLen.toNat, cells, []⟩ hexLen numCol) ↔
      buf = [] ∨ Fits numCol.toNat 0 hexLen.toNat buf.length) ∧
    (Bounded 10000 (pktTrace buf cells) ↔ buf.length ≤ 3265) :=
  ⟨bounded_getHex_iff buf hexLen numCol cells capacity cols, bounded_pktTrace_iff buf cells⟩

theorem getHex_bounded_iff_row :
    (Bounded 16 (getHex [171, 205] ⟨(16 : Int).toNat, fun _ => 0, []⟩ 16 4) ↔
      ([171, 205] : Str) = [] ∨ Fits (4 : Int).toNat 0 (16 : Int).toNat 2) ∧
    (Bounded 10000 (pktTrace [171, 205] fun _ => 0) ↔ 2 ≤ 3265) :=
  getHex_bounded_iff [171, 205] 16 4 (fun _ => 0) (by decide) (by decide)

/-- A packet of 3266 bytes has 204 breaks: its trace is stored up to offset 10002. -/
theorem trace_past_end :
    ¬ Bounded 10000 (getHex (List.replicate 3266 0) ⟨10000, fun _ => 0, []⟩ 10000 16) ∧
      ¬ Bounded 10000 (pktTrace (List.replicate 3266 0) fun _ => 0) := by
  have long : ¬ Bounded 10000 (pktTrace (List.replicate 3266 0) fun _ => 0) := by
    rw [bounded_pktTrace_iff, List.length_replicate]
    omega
  exact ⟨long, long⟩

end JP4Agent.Utils
