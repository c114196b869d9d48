import JP4Agent.Library.CStrings

set_option autoImplicit false

namespace JP4Agent.Utils

/-- Any other character is reported and counts as 0. -/
def convertCharToInt (inputChar : UInt8) : Nat :=
  if 48 ≤ inputChar ∧ inputChar ≤ 57 then inputChar.toNat - 48
  else if 65 ≤ inputChar ∧ inputChar ≤ 70 then inputChar.toNat - 65 + 10
  else if 97 ≤ inputChar ∧ inputChar ≤ 102 then inputChar.toNat - 97 + 10
  else 0

/-- The loop over pairs of characters, with the offset of the next pair and `num_bytes`; `none`
if it has not ended after so many rounds. -/
def convertPairs (source : HeapBuffer) (targetBuffLen : Int) :
    Nat → Nat → HeapBuffer → Nat → Option (Int × HeapBuffer)
  | 0, _, _, _ => none
  | fuel + 1, offset, targetBuff, numBytes =>
    if source.cells offset ≠ 0 ∧ source.cells (offset + 1) ≠ 0 then
      if targetBuffLen ≤ numBytes then some (-1, targetBuff)
      else
        let byte := UInt8.ofNat (convertCharToInt (source.cells offset) * 16 +
          convertCharToInt (source.cells (offset + 1)))
        convertPairs source targetBuffLen fuel (offset + 2) (targetBuff.store numBytes byte)
          (numBytes + 1)
    else some (numBytes, targetBuff)

/-- A string ends within its allocation, so there are no more rounds than it has bytes. -/
def convertHexStringToBinary (source targetBuff : HeapBuffer) (targetBuffLen : Int) :
    Option (Int × HeapBuffer) :=
  convertPairs source targetBuffLen source.size 0 targetBuff 0

/-- The loop of `getRidOfSpacesFromString`, with the offsets it writes to and reads from. -/
def compact : Nat → Nat → Nat → HeapBuffer → Option HeapBuffer
  | 0, _, _, _ => none
  | fuel + 1, i, j, source =>
    if source.cells j ≠ 0 then
      let source := source.store i (source.cells j)
      compact fuel (if source.cells i ≠ 32 then i + 1 else i) (j + 1) source
    else some (source.store i 0)

def getRidOfSpacesFromString (source : HeapBuffer) : Option HeapBuffer :=
  compact source.size 0 0 source

/-- What is returned, the string without its spaces, and the packet. -/
def convertHexPktStrToPkt (hexPktStr pktBuff : HeapBuffer) (pktBuffLen : Int) :
    Option (Int × HeapBuffer × HeapBuffer) := do
  let hexPktStr ← getRidOfSpacesFromString hexPktStr
  let (pktLen, pktBuff) ← convertHexStringToBinary hexPktStr pktBuff pktBuffLen
  pure (pktLen, hexPktStr, pktBuff)

/-- The character is the digit for `v`, in either case: 48 is `0`, 65 is `A` and 97 is `a`. -/
def IsDigit (v : Nat) (c : UInt8) : Prop :=
  v < 10 ∧ c.toNat = 48 + v ∨ 10 ≤ v ∧ v < 16 ∧ (c.toNat = 65 + (v - 10) ∨ c.toNat = 97 + (v - 10))

instance (v : Nat) (c : UInt8) : Decidable (IsDigit v c) := inferInstanceAs (Decidable (_ ∨ _))

/-- The characters are two digits for each byte. -/
inductive HexPairs : Str → Str → Prop where
  | nil : HexPairs [] []
  | cons {byte high low : UInt8} {bytes digits : Str} (first : IsDigit (byte.toNat / 16) high)
    (second : IsDigit (byte.toNat % 16) low) (rest : HexPairs bytes digits) :
    HexPairs (byte :: bytes) (high :: low :: digits)

/-- The text is these pairs of digits, with spaces anywhere. -/
def Spells (bytes text : Str) : Prop := HexPairs bytes (text.filter (· ≠ 32))

theorem IsDigit.convert {v : Nat} {c : UInt8} (digit : IsDigit v c) : convertCharToInt c = v := by
  have upTo (a b : UInt8) : a ≤ b ↔ a.toNat ≤ b.toNat := UInt8.le_iff_toNat_le
  unfold IsDigit at digit
  simp only [convertCharToInt, upTo, UInt8.reduceToNat]
  rcases digit with decimal | ⟨low, high, upper | lower⟩
  · rw [if_pos (by omega)]
    omega
  · rw [if_neg (by omega), if_pos (by omega)]
    omega
  · rw [if_neg (by omega), if_neg (by omega), if_pos (by omega)]
    omega

/-- A digit ends no string and is no space. -/
theorem IsDigit.visible {v : Nat} {c : UInt8} (digit : IsDigit v c) :
    c ≠ 0 ∧ c ≠ 10 ∧ c ≠ 32 := by
  unfold IsDigit at digit
  refine ⟨?_, ?_, ?_⟩
  · rintro rfl
    change _ ∧ 0 = _ ∨ _ ∧ _ ∧ (0 = _ ∨ 0 = _) at digit
    omega
  · rintro rfl
    change _ ∧ 10 = _ ∨ _ ∧ _ ∧ (10 = _ ∨ 10 = _) at digit
    omega
  · rintro rfl
    change _ ∧ 32 = _ ∨ _ ∧ _ ∧ (32 = _ ∨ 32 = _) at digit
    omega

theorem compact_holds (text : Str) : ∀ (fuel i j : Nat) (source : HeapBuffer), i ≤ j →
    text.length < fuel → source.HoldsString j text →
      ∃ after, compact fuel i j source = some after ∧
        after.HoldsString i (text.filter (· ≠ 32)) ∧ after.size = source.size ∧
        ∀ k < i, after.cells k = source.cells k := by
  induction text with
  | nil =>
      intro fuel i j source order enough holds
      obtain ⟨fuel, rfl⟩ := Nat.exists_eq_succ_of_ne_zero (Nat.ne_of_gt enough)
      have ended : source.cells j = 0 := holds
      refine ⟨source.store i 0, ?_, ?_, rfl, fun k below => ?_⟩
      · rw [compact, if_neg (not_not.mpr ended)]
      · rw [List.filter_nil, HeapBuffer.HoldsString, HeapBuffer.store_cells, if_pos rfl]
      · rw [HeapBuffer.store_cells, if_neg (Nat.ne_of_lt below)]
  | cons c text ih =>
      intro fuel i j source order enough holds
      obtain ⟨fuel, rfl⟩ := Nat.exists_eq_succ_of_ne_zero (Nat.ne_of_gt (Nat.zero_lt_of_lt enough))
      rw [List.length_cons] at enough
      obtain ⟨char, nonzero, rest⟩ := holds
      have here : (source.store i (source.cells j)).cells i = c := by
        rw [HeapBuffer.store_cells, if_pos rfl, char]
      -- what is still to be read is behind the offset written to
      have rest := rest.store_before (Nat.lt_succ_of_le order) (source.cells j)
      rw [compact, if_pos (char ▸ nonzero)]
      dsimp only
      rw [here]
      by_cases space : c = 32
      · rw [if_neg (not_not.mpr space), List.filter_cons_of_neg (by simp [space])]
        obtain ⟨after, ran, string, size, kept⟩ := ih fuel i (j + 1) _ (by omega) (by omega) rest
        refine ⟨after, ran, string, size, fun k below => ?_⟩
        rw [kept k below, HeapBuffer.store_cells, if_neg (Nat.ne_of_lt below)]
      · rw [if_pos space, List.filter_cons_of_pos (by simp [space])]
        obtain ⟨after, ran, string, size, kept⟩ :=
          ih fuel (i + 1) (j + 1) _ (by omega) (by omega) rest
        refine ⟨after, ran, ⟨(kept i (Nat.lt_succ_self i)).trans here, nonzero, string⟩, size,
          fun k below => ?_⟩
        rw [kept k (by omega), HeapBuffer.store_cells, if_neg (Nat.ne_of_lt below)]

/-- The spaces are gone, in place. -/
theorem getRidOfSpacesFromString_holds {source : HeapBuffer} {text : Str}
    (holds : source.HoldsString 0 text) (fits : text.length < source.size) :
    ∃ after, getRidOfSpacesFromString source = some after ∧
      after.HoldsString 0 (text.filter (· ≠ 32)) ∧ after.size = source.size := by
  obtain ⟨after, ran, string, size, _⟩ :=
    compact_holds text source.size 0 0 source (Nat.le_refl 0) fits holds
  exact ⟨after, ran, string, size⟩

theorem pair_byte {byte high low : UInt8} (first : IsDigit (byte.toNat / 16) high)
    (second : IsDigit (byte.toNat % 16) low) :
    UInt8.ofNat (convertCharToInt high * 16 + convertCharToInt low) = byte := by
  rw [first.convert, second.convert, Nat.div_add_mod',
    UInt8.ofNat_toNat]

/-- By induction on the bytes: the loop stores them up to the capacity. -/
theorem convertPairs_stores {source : HeapBuffer} {capacity : Nat} {bytes digits : Str}
    (pairs : HexPairs bytes digits) : ∀ {fuel offset numBytes : Nat} {target : HeapBuffer},
      numBytes ≤ capacity → bytes.length < fuel → source.HoldsString offset digits →
        convertPairs source capacity fuel offset target numBytes =
          some (if numBytes + bytes.length ≤ capacity then ((numBytes + bytes.length : Nat) : Int)
            else -1, target.storeBytes numBytes (bytes.take (capacity - numBytes))) := by
  induction pairs with
  | nil =>
      intro fuel offset numBytes target room enough holds
      obtain ⟨fuel, rfl⟩ := Nat.exists_eq_succ_of_ne_zero (Nat.ne_of_gt enough)
      have ended : source.cells offset = 0 := holds
      rw [convertPairs, if_neg fun more => more.1 ended, List.length_nil, Nat.add_zero, if_pos room,
        List.take_nil]
      rfl
  | @cons byte high low bytes digits first second _ ih =>
      intro fuel offset numBytes target room enough holds
      obtain ⟨fuel, rfl⟩ := Nat.exists_eq_succ_of_ne_zero (Nat.ne_of_gt (Nat.zero_lt_of_lt enough))
      rw [List.length_cons] at enough
      obtain ⟨highChar, highNonzero, lowChar, lowNonzero, rest⟩ := holds
      have more : source.cells offset ≠ 0 ∧ source.cells (offset + 1) ≠ 0 :=
        ⟨highChar ▸ highNonzero, lowChar ▸ lowNonzero⟩
      rw [convertPairs, if_pos more]
      by_cases full : numBytes = capacity
      · have none : capacity - numBytes = 0 := by omega
        rw [if_pos (by omega), none, List.take_zero, List.length_cons, if_neg (by omega)]
        rfl
      · have left : capacity - numBytes = (capacity - (numBytes + 1)) + 1 := by omega
        rw [if_neg (by omega), highChar, lowChar, pair_byte first second, left, List.take_succ_cons,
          ih (by omega) (by omega) rest, List.length_cons]
        rw [show numBytes + 1 + bytes.length = numBytes + (bytes.length + 1) by omega]
        rfl

theorem HexPairs.length_le {bytes digits : Str} (pairs : HexPairs bytes digits) :
    bytes.length ≤ digits.length := by
  induction pairs with
  | nil => exact Nat.le_refl _
  | cons _ _ _ ih =>
      simp only [List.length_cons]
      omega

/-- A string of pairs of digits, within its allocation. -/
theorem convertHexStringToBinary_pairs {source : HeapBuffer} {capacity : Nat} {bytes digits : Str}
    (pairs : HexPairs bytes digits) (holds : source.HoldsString 0 digits)
    (fits : digits.length < source.size) (target : HeapBuffer) :
    convertHexStringToBinary source target capacity =
      some (if bytes.length ≤ capacity then (bytes.length : Int) else -1,
        target.storeBytes 0 (bytes.take capacity)) := by
  have enough := pairs.length_le
  have stores : convertPairs source capacity source.size 0 target 0 = _ :=
    convertPairs_stores pairs (Nat.zero_le capacity) (by omega) holds
  rw [Nat.zero_add, Nat.sub_zero] at stores
  exact stores

theorem compact_size : ∀ {fuel i j : Nat} {source after : HeapBuffer},
    compact fuel i j source = some after → after.size = source.size := by
  intro fuel
  induction fuel with
  | zero =>
      intro i j source after ran
      cases ran
  | succ fuel ih =>
      intro i j source after ran
      rw [compact] at ran
      dsimp only at ran
      split at ran
      · exact (ih ran).trans (source.store_size i _)
      · obtain rfl := Option.some.inj ran
        rfl

theorem convertHexPktStrToPkt_size {hexPktStr pktBuff hexStr pkt : HeapBuffer} {len pktLen : Int}
    (ran : convertHexPktStrToPkt hexPktStr pktBuff len = some (pktLen, hexStr, pkt)) :
    hexStr.size = hexPktStr.size := by
  obtain ⟨compacted, strip, more⟩ := Option.bind_eq_some_iff.mp ran
  obtain ⟨converted, _, same⟩ := Option.bind_eq_some_iff.mp more
  cases same
  exact compact_size strip

theorem HexPairs.length {bytes digits : Str} (pairs : HexPairs bytes digits) :
    digits.length = 2 * bytes.length := by
  induction pairs with
  | nil => rfl
  | cons _ _ _ ih =>
      simp only [List.length_cons]
      omega

theorem HexPairs.visible {bytes digits : Str} (pairs : HexPairs bytes digits) :
    ∀ c ∈ digits, c ≠ 0 := by
  induction pairs with
  | nil => simp
  | cons first second rest ih =>
      exact List.forall_mem_cons.mpr
        ⟨first.visible.1, List.forall_mem_cons.mpr ⟨second.visible.1, ih⟩⟩

theorem Spells.nonzero {bytes text : Str} (spells : Spells bytes text) : ∀ c ∈ text, c ≠ 0 := by
  intro c member
  by_cases space : c = 32
  · rw [space]
    decide
  · exact HexPairs.visible spells c (List.mem_filter.mpr ⟨member, by simpa using space⟩)

theorem convertHexPktStrToPkt_pairs {bytes text : Str} (spells : Spells bytes text)
    {hexPktStr : HeapBuffer} (holds : hexPktStr.HoldsString 0 text)
    (fits : text.length < hexPktStr.size) (pktBuff : HeapBuffer) (capacity : Nat) :
    ∃ hexStr, convertHexPktStrToPkt hexPktStr pktBuff capacity =
        some (if bytes.length ≤ capacity then (bytes.length : Int) else -1, hexStr,
          pktBuff.storeBytes 0 (bytes.take capacity)) ∧
      hexStr.HoldsString 0 (text.filter (· ≠ 32)) := by
  obtain ⟨hexStr, compacted, string, size⟩ := getRidOfSpacesFromString_holds holds fits
  have shorter := List.length_filter_le (fun c : UInt8 => decide (c ≠ 32)) text
  have converted : convertHexStringToBinary hexStr pktBuff capacity = _ :=
    convertHexStringToBinary_pairs spells string (by omega) pktBuff
  refine ⟨hexStr, ?_, string⟩
  rw [convertHexPktStrToPkt, compacted, Option.bind_eq_bind, Option.bind_some, converted]
  rfl

/-- A packet that is spelled with spaces comes out up to the capacity, and the call says whether
this is all of it. -/
theorem convertHexPktStrToPkt_spelling {bytes text : Str} (spells : Spells bytes text)
    {hexPktStr : HeapBuffer} (holds : hexPktStr.HoldsString 0 text)
    (fits : text.length < hexPktStr.size) (pktBuff : HeapBuffer) {pktBuffLen : Int}
    (capacity : 0 ≤ pktBuffLen) :
    ∃ pktLen hexStr pkt,
      convertHexPktStrToPkt hexPktStr pktBuff pktBuffLen = some (pktLen, hexStr, pkt) ∧
      (bytes.length ≤ pktBuffLen → pktLen = bytes.length ∧ pkt.load 0 bytes.length = bytes) ∧
      (pktBuffLen < bytes.length →
        pktLen = -1 ∧ pkt.load 0 pktBuffLen.toNat = bytes.take pktBuffLen.toNat) ∧
      ∀ i, i ∈ pkt.stored ↔ i < bytes.length ∧ (i : Int) < pktBuffLen ∨ i ∈ pktBuff.stored := by
  obtain ⟨len, rfl⟩ := Int.eq_ofNat_of_zero_le capacity
  obtain ⟨hexStr, compacted, string, size⟩ := getRidOfSpacesFromString_holds holds fits
  have shorter := List.length_filter_le (fun c : UInt8 => decide (c ≠ 32)) text
  have converted : convertHexStringToBinary hexStr pktBuff len = _ :=
    convertHexStringToBinary_pairs spells string (by omega) pktBuff
  have loaded : ∀ taken : Str, (pktBuff.storeBytes 0 taken).load 0 taken.length = taken := by
    intro taken
    apply HeapBuffer.load_eq
    exact fun i inside => HeapBuffer.storeBytes_inside pktBuff 0 taken i inside
  refine ⟨if bytes.length ≤ len then bytes.length else -1, hexStr,
    pktBuff.storeBytes 0 (bytes.take len), ?_, ?_, ?_, ?_⟩
  · rw [convertHexPktStrToPkt, compacted, Option.bind_eq_bind, Option.bind_some, converted]
    rfl
  · intro room
    have all : bytes.take len = bytes := List.take_of_length_le (by omega)
    rw [if_pos (by omega), all]
    exact ⟨rfl, loaded bytes⟩
  · intro short
    have length : (bytes.take len).length = len := by
      rw [List.length_take]
      omega
    have first := loaded (bytes.take len)
    rw [length] at first
    rw [if_neg (by omega)]
    exact ⟨rfl, first⟩
  · intro i
    rw [HeapBuffer.mem_storeBytes_stored, List.length_take]
    apply or_congr _ Iff.rfl
    omega

/-- The three bytes of " 0aB c7F ", with a capacity of two. -/
theorem convertHexPktStrToPkt_spelling_short : ∃ pktLen hexStr pkt,
    convertHexPktStrToPkt ((HeapBuffer.alloc 16).storeBytes 0 [32, 48, 97, 66, 32, 99, 55, 70, 32])
        (HeapBuffer.alloc 2) 2 = some (pktLen, hexStr, pkt) ∧
      pktLen = -1 ∧ pkt.load 0 2 = [0x0a, 0xbc] ∧ ∀ i ∈ pkt.stored, i < 2 := by
  have spells : Spells [0x0a, 0xbc, 0x7f] [32, 48, 97, 66, 32, 99, 55, 70, 32] :=
    .cons (by decide) (by decide) (.cons (by decide) (by decide)
      (.cons (by decide) (by decide) .nil))
  have holds : ((HeapBuffer.alloc 16).storeBytes 0 [32, 48, 97, 66, 32, 99, 55, 70, 32]).HoldsString
      0 [32, 48, 97, 66, 32, 99, 55, 70, 32] := HeapBuffer.holdsString_storeBytes (by simp) rfl
  obtain ⟨pktLen, hexStr, pkt, ran, _, cut, stored⟩ := convertHexPktStrToPkt_spelling spells
    holds (by decide) (HeapBuffer.alloc 2) (show (0 : Int) ≤ 2 by decide)
  obtain ⟨refused, first⟩ := cut (by decide)
  refine ⟨pktLen, hexStr, pkt, ran, refused, first, fun i member => ?_⟩
  rcases (stored i).mp member with ⟨_, below⟩ | wrong
  · omega
  · exact absurd wrong List.not_mem_nil

end JP4Agent.Utils
