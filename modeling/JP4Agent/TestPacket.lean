import JP4Agent.CLIService
import JP4Agent.ControllerPackets
import JP4Agent.HexStrings

set_option autoImplicit false

namespace JP4Agent.TestPacket
open CLIService (isSpace)
open Utils

def isHexDigit (c : UInt8) : Bool :=
  (48 ≤ c && c ≤ 57) || (65 ≤ c && c ≤ 70) || (97 ≤ c && c ≤ 102)

/-- The sign of a number, and what is behind it. -/
def sign : Str → Bool × Str
  | 45 :: rest => (true, rest)
  | 43 :: rest => (false, rest)
  | rest => (false, rest)

/-- Behind `0x`, if the number starts with it. -/
def digitsOf : Str → Str
  | 48 :: 120 :: rest => rest
  | 48 :: 88 :: rest => rest
  | rest => rest

/-- `std::strtoull` of a hexadecimal number -/
def strtoull (text : Str) : UInt64 :=
  let (negative, rest) := sign (text.dropWhile isSpace)
  let n := ((digitsOf rest).takeWhile isHexDigit).foldl
    (fun n c => 16 * n + convertCharToInt c) 0
  if n < 18446744073709551616 then if negative then -UInt64.ofNat n else UInt64.ofNat n
  else 18446744073709551615

/-- What `setSrcMac` and `setDstMac` store; `none` if `at` throws. -/
def readMac (mac : Str) : Option (Vector Int32 6) :=
  let macSubStrings := mac.splitOnP (· = 58)
  if enough : 6 ≤ macSubStrings.length then
    some ⟨((macSubStrings.take 6).map fun part => (strtoull part).toUInt32.toInt32).toArray,
      by simpa using enough⟩
  else none

/-- An `int` as a `char` -/
def char (i : Int32) : UInt8 := i.toUInt32.toUInt8

def etherPayloadBufSize : Nat := 5000

end TestPacket

/-- The text of the payload is an array of the object. -/
structure TestPacket where
  srcMac : Vector Int32 6
  dstMac : Vector Int32 6
  etherType : Int32
  etherPayload : HeapBuffer
  payloadSize : etherPayload.size = TestPacket.etherPayloadBufSize

namespace TestPacket
open CLIService (isSpace)
open Controller Hostpath Utils

def setSrcMac (p : TestPacket) (mac : Str) : Option TestPacket :=
  (readMac mac).map fun srcMac => { p with srcMac }

def setDstMac (p : TestPacket) (mac : Str) : Option TestPacket :=
  (readMac mac).map fun dstMac => { p with dstMac }

def setEtherType (p : TestPacket) (etherType : Int32) : TestPacket := { p with etherType }

/-- `strncpy`, and a terminator in the last byte. -/
def setEtherPayloadStr (p : TestPacket) (etherPayloadStr : Str) : TestPacket :=
  let copied := (etherPayloadStr.takeWhile (· ≠ 0)).take etherPayloadBufSize
  let filled := copied ++ List.replicate (etherPayloadBufSize - copied.length) 0
  { p with
    etherPayload := (p.etherPayload.storeBytes 0 filled).store (etherPayloadBufSize - 1) 0
    payloadSize := by rw [HeapBuffer.store_size, HeapBuffer.storeBytes_size, p.payloadSize] }

/-- The first 14 bytes of the frame. -/
def header (p : TestPacket) : Str :=
  p.dstMac.toList.map char ++ p.srcMac.toList.map char ++
    [char (p.etherType >>> 8 &&& 0xff), char (p.etherType &&& 0xff)]

/-- What it returns, the packet with the spaces gone from its text, and the frame; `none` if it
reads on behind the text. -/
def getEtherPacket (p : TestPacket) (pktData : HeapBuffer) (pktDataBuffLen : Int) :
    Option (Int × TestPacket × HeapBuffer) :=
  if pktDataBuffLen < 14 then some (-1, p, pktData)
  else
    let pktData := pktData.storeBytes 0 p.header
    match converted :
        convertHexPktStrToPkt p.etherPayload (pktData.behind 14) (pktDataBuffLen - 14) with
    | none => none
    | some (pktDataLen, etherPayload, payload) =>
      some (14 + pktDataLen,
        { p with
          etherPayload
          payloadSize := (convertHexPktStrToPkt_size converted).trans p.payloadSize },
        pktData.putBehind 14 payload)

/-- Frames read from one packet into these buffers, one after the other. -/
def getEtherPackets : TestPacket → List (HeapBuffer × Int) → Option (List (Int × HeapBuffer))
  | _, [] => some []
  | p, (pktData, pktDataBuffLen) :: rest => do
    let (pktLen, p, pktData) ← p.getEtherPacket pktData pktDataBuffLen
    let later ← p.getEtherPackets rest
    pure ((pktLen, pktData) :: later)

/-- How `buildTestPacketLibrary` writes a packet down. -/
def written (p : TestPacket) (dstMac srcMac : Str) (etherType : Int32) (etherPayloadStr : Str) :
    Option TestPacket := do
  let p ← p.setDstMac dstMac
  let p ← p.setSrcMac srcMac
  pure ((p.setEtherType etherType).setEtherPayloadStr etherPayloadStr)

/-- One or two digits for a byte. -/
def PartSpells (byte : UInt8) (part : Str) : Prop :=
  ∃ low, IsDigit (byte.toNat % 16) low ∧
    ((∃ high, IsDigit (byte.toNat / 16) high ∧ part = [high, low]) ∨
      byte.toNat < 16 ∧ part = [low])

/-- The bytes of an address, with colons between them. -/
inductive MacSpells : Str → Str → Prop where
  | last {byte : UInt8} {part : Str} (spells : PartSpells byte part) : MacSpells [byte] part
  | cons {byte : UInt8} {part bytes mac : Str} (spells : PartSpells byte part)
    (rest : MacSpells bytes mac) : MacSpells (byte :: bytes) (part ++ 58 :: mac)

/-- What becomes of a call that reads this frame. A payload that does not fit counts as -1. -/
def frameRead (frame : Str) : HeapBuffer × Int → Int × HeapBuffer
  | (pktData, pktDataBuffLen) =>
    if pktDataBuffLen < 14 then (-1, pktData)
    else
      (if frame.length ≤ pktDataBuffLen then frame.length else 13,
        pktData.storeBytes 0 (frame.take pktDataBuffLen.toNat))

/-- A digit is none of the other characters that an address may have. -/
theorem digit_plain {v : Nat} {c : UInt8} (digit : IsDigit v c) :
    isHexDigit c = true ∧ isSpace c = false ∧ c ≠ 43 ∧ c ≠ 45 ∧ c ≠ 58 ∧ c ≠ 88 ∧ c ≠ 120 := by
  have all : ∀ n : Fin 256, (48 ≤ n.val ∧ n.val ≤ 57 ∨ 65 ≤ n.val ∧ n.val ≤ 70 ∨
      97 ≤ n.val ∧ n.val ≤ 102) →
        let c := UInt8.ofNat n
        isHexDigit c = true ∧ isSpace c = false ∧ c ≠ 43 ∧ c ≠ 45 ∧ c ≠ 58 ∧ c ≠ 88 ∧ c ≠ 120 := by
    decide +kernel
  have plain := all ⟨c.toNat, c.toNat_lt⟩ (by
    unfold IsDigit at digit
    dsimp only
    omega)
  rwa [UInt8.ofNat_toNat] at plain

theorem sign_digit {c : UInt8} {rest : Str} (minus : c ≠ 45) (plus : c ≠ 43) :
    sign (c :: rest) = (false, c :: rest) := by
  unfold sign
  split <;> simp_all

theorem digitsOf_digits {c : UInt8} {rest : Str}
    (plain : ∀ d ∈ rest.head?, d ≠ 120 ∧ d ≠ 88) : digitsOf (c :: rest) = c :: rest := by
  unfold digitsOf
  split <;> simp_all

theorem strtoull_digits {c : UInt8} {rest : Str} {n : Nat} (space : isSpace c = false)
    (minus : c ≠ 45) (plus : c ≠ 43) (digits : digitsOf (c :: rest) = c :: rest)
    (hex : ∀ d ∈ c :: rest, isHexDigit d = true)
    (value : (c :: rest).foldl (fun n c => 16 * n + convertCharToInt c) 0 = n)
    (bounded : n < 18446744073709551616) : strtoull (c :: rest) = UInt64.ofNat n := by
  have start : (c :: rest).dropWhile isSpace = c :: rest :=
    List.dropWhile_cons_of_neg (by rw [space]; decide)
  have whole : (c :: rest).takeWhile isHexDigit = c :: rest := List.takeWhile_eq_self_iff.mpr hex
  rw [strtoull, start, sign_digit minus plus]
  dsimp only
  rw [digits, whole, value, if_pos bounded, if_neg Bool.false_ne_true]

theorem strtoull_part {byte : UInt8} {part : Str} (spells : PartSpells byte part) :
    strtoull part = UInt64.ofNat byte.toNat := by
  obtain ⟨low, isLow, more⟩ := spells
  obtain ⟨hexLow, spaceLow, plusLow, minusLow, _, capital, small⟩ := digit_plain isLow
  have bounded := byte.toNat_lt
  rcases more with ⟨high, isHigh, rfl⟩ | ⟨single, rfl⟩
  · obtain ⟨hexHigh, spaceHigh, plusHigh, minusHigh, _⟩ := digit_plain isHigh
    apply strtoull_digits spaceHigh minusHigh plusHigh (digitsOf_digits (by simp [small, capital]))
    · simp [hexHigh, hexLow]
    · show 16 * (16 * 0 + convertCharToInt high) + convertCharToInt low = byte.toNat
      rw [isHigh.convert, isLow.convert]
      omega
    · omega
  · apply strtoull_digits spaceLow minusLow plusLow (digitsOf_digits (by simp))
    · simp [hexLow]
    · show 16 * 0 + convertCharToInt low = byte.toNat
      rw [isLow.convert]
      omega
    · omega

theorem PartSpells.colon {byte : UInt8} {part : Str} (spells : PartSpells byte part) :
    ∀ c ∈ part, c ≠ 58 := by
  obtain ⟨low, isLow, more⟩ := spells
  obtain ⟨_, _, _, _, colonLow, _⟩ := digit_plain isLow
  rcases more with ⟨high, isHigh, rfl⟩ | ⟨_, rfl⟩
  · obtain ⟨_, _, _, _, colonHigh, _⟩ := digit_plain isHigh
    simp [colonHigh, colonLow]
  · simp [colonLow]

/-- Between the colons are the bytes. -/
theorem MacSpells.parts {bytes mac : Str} (spells : MacSpells bytes mac) :
    (mac.splitOnP (· = 58)).map strtoull = bytes.map fun byte => UInt64.ofNat byte.toNat := by
  induction spells with
  | last spells =>
      rw [List.splitOnP_eq_singleton (by simpa using spells.colon)]
      simp [strtoull_part spells]
  | cons spells rest ih =>
      rw [List.splitOnP_append_cons _ _ (by decide),
        List.splitOnP_eq_singleton (by simpa using spells.colon), List.map_append, ih]
      simp [strtoull_part spells]

theorem char_byte (byte : UInt8) :
    char (UInt64.ofNat byte.toNat).toUInt32.toInt32 = byte := by
  show (UInt64.ofNat byte.toNat).toUInt32.toUInt8 = byte
  apply UInt8.toNat_inj.mp
  have bounded := byte.toNat_lt
  rw [UInt32.toNat_toUInt8, UInt64.toNat_toUInt32, UInt64.toNat_ofNat']
  omega

theorem readMac_spelling {bytes mac : Str} (spells : MacSpells bytes mac)
    (six : bytes.length = 6) :
    ∃ read, readMac mac = some read ∧ read.toList.map char = bytes := by
  have parts := spells.parts
  have count := congrArg List.length parts
  rw [List.length_map, List.length_map, six] at count
  have all : (mac.splitOnP (· = 58)).take 6 = mac.splitOnP (· = 58) :=
    List.take_of_length_le (by omega)
  rw [readMac, dif_pos (by omega)]
  refine ⟨_, rfl, ?_⟩
  show ((((mac.splitOnP (· = 58)).take 6).map fun part =>
    (strtoull part).toUInt32.toInt32).map char) = bytes
  have chars := congrArg (List.map fun n : UInt64 => char n.toUInt32.toInt32) parts
  rw [List.map_map, List.map_map] at chars
  rw [all, List.map_map]
  refine chars.trans ?_
  conv => rhs; rw [← List.map_id bytes]
  exact List.map_congr_left fun byte _ => char_byte byte

theorem char_etherType (etherType : Int32) :
    [char (etherType >>> 8 &&& 0xff), char (etherType &&& 0xff)] =
      [netHigh etherType.toUInt32.toUInt16, netLow etherType.toUInt32.toUInt16] := by
  have mask : ∀ i < 8, (255#8).getLsbD i = true := by decide
  have high : char (etherType >>> 8 &&& 0xff) = netHigh etherType.toUInt32.toUInt16 := by
    apply UInt8.toBitVec_inj.mp
    apply BitVec.eq_of_getLsbD_eq
    intro i inside
    have within : 8 + i < 16 := by omega
    have below : 8 + i < 32 := by omega
    have counted : i < 32 := by omega
    simp [char, netHigh, mask i inside, BitVec.getElem_sshiftRight, within, below, counted]
  have low : char (etherType &&& 0xff) = netLow etherType.toUInt32.toUInt16 := by
    apply UInt8.toBitVec_inj.mp
    apply BitVec.eq_of_getLsbD_eq
    intro i inside
    simp [char, netLow, mask i inside]
  rw [high, low]

/-- The text of the payload, with or without its spaces, stands for these bytes. -/
def Holds (p : TestPacket) (bytes : Str) : Prop :=
  ∃ text, p.etherPayload.HoldsString 0 text ∧ text.length < etherPayloadBufSize ∧
    Spells bytes text

theorem header_length (p : TestPacket) : p.header.length = 14 := by
  simp [header]

theorem getEtherPacket_converted {p : TestPacket} {pktData hexStr payload : HeapBuffer}
    {len pktDataLen : Int} (room : ¬ len < 14)
    (converted : convertHexPktStrToPkt p.etherPayload
      ((pktData.storeBytes 0 p.header).behind 14) (len - 14) =
        some (pktDataLen, hexStr, payload)) :
    ∃ q : TestPacket, p.getEtherPacket pktData len =
        some (14 + pktDataLen, q, (pktData.storeBytes 0 p.header).putBehind 14 payload) ∧
      q.etherPayload = hexStr ∧ q.header = p.header := by
  rw [getEtherPacket, if_neg room]
  dsimp only
  split
  · rename_i failed
    rw [converted] at failed
    cases failed
  · rename_i ran
    rw [converted] at ran
    cases ran
    exact ⟨_, rfl, rfl, rfl⟩

/-- A call gives the frame as far as it fits, and the packet stands for the same frame. -/
theorem getEtherPacket_holds {p : TestPacket} {bytes : Str} (holds : p.Holds bytes)
    (call : HeapBuffer × Int) :
    ∃ q : TestPacket, p.getEtherPacket call.1 call.2 =
        some ((frameRead (p.header ++ bytes) call).1, q, (frameRead (p.header ++ bytes) call).2) ∧
      q.Holds bytes ∧ q.header = p.header := by
  rcases call with ⟨pktData, len⟩
  by_cases small : len < 14
  · refine ⟨p, ?_, holds, rfl⟩
    rw [getEtherPacket, frameRead, if_pos small, if_pos small]
  obtain ⟨text, string, short, spells⟩ := holds
  obtain ⟨capacity, rfl⟩ : ∃ capacity : Nat, len = capacity + 14 :=
    ⟨(len - 14).toNat, by omega⟩
  obtain ⟨hexStr, converted, stripped⟩ := convertHexPktStrToPkt_pairs spells string
    (by rw [p.payloadSize]; exact short) ((pktData.storeBytes 0 p.header).behind 14) capacity
  have room : (capacity : Int) = capacity + 14 - 14 := by omega
  rw [room] at converted
  obtain ⟨q, ran, payload, header⟩ := getEtherPacket_converted small converted
  refine ⟨q, ?_, ?_, header⟩
  · have length : (p.header ++ bytes).length = bytes.length + 14 := by
      rw [List.length_append, p.header_length, Nat.add_comm]
    have upTo : (p.header ++ bytes).take (capacity + 14) = p.header ++ bytes.take capacity := by
      rw [List.take_append, p.header_length,
        List.take_of_length_le (by rw [p.header_length]; omega)]
      simp
    have stored : (pktData.storeBytes 0 p.header).putBehind 14
        (((pktData.storeBytes 0 p.header).behind 14).storeBytes 0 (bytes.take capacity)) =
          pktData.storeBytes 0 ((p.header ++ bytes).take (capacity + 14)) := by
      rw [HeapBuffer.putBehind_storeBytes, upTo, HeapBuffer.storeBytes_append, p.header_length]
    have returned : 14 + (if bytes.length ≤ capacity then (bytes.length : Int) else -1) =
        if (p.header ++ bytes).length ≤ (capacity + 14 : Int) then
          ((p.header ++ bytes).length : Int) else 13 := by
      rw [length]
      split_ifs <;> omega
    rw [ran, stored, returned, frameRead, if_neg small]
    rfl
  · have shorter := List.length_filter_le (fun c : UInt8 => decide (c ≠ 32)) text
    refine ⟨text.filter (· ≠ 32), by rw [payload]; exact stripped, by omega, ?_⟩
    rw [Spells, List.filter_filter]
    simpa [Spells] using spells

theorem getEtherPackets_holds (calls : List (HeapBuffer × Int)) :
    ∀ {p : TestPacket} {bytes : Str}, p.Holds bytes →
      p.getEtherPackets calls = some (calls.map (frameRead (p.header ++ bytes))) := by
  induction calls with
  | nil => exact fun _ => rfl
  | cons call rest ih =>
      intro p bytes holds
      obtain ⟨q, ran, still, header⟩ := getEtherPacket_holds holds call
      rw [getEtherPackets, ran]
      dsimp only [Option.bind_eq_bind, Option.bind_some]
      rw [ih still, header]
      rfl

theorem setEtherPayloadStr_holds (p : TestPacket) {bytes text : Str} (spells : Spells bytes text)
    (short : text.length < etherPayloadBufSize) : (p.setEtherPayloadStr text).Holds bytes := by
  have nonzero := spells.nonzero
  have copied : (text.takeWhile (· ≠ 0)).take etherPayloadBufSize = text := by
    rw [List.takeWhile_eq_self_iff.mpr (by simpa using nonzero), List.take_of_length_le]
    omega
  refine ⟨text, ?_, short, spells⟩
  rw [setEtherPayloadStr]
  dsimp only
  rw [copied, HeapBuffer.storeBytes_append]
  apply HeapBuffer.holdsString_of_cells nonzero
  · intro i inside
    rw [HeapBuffer.store_cells, if_neg (by omega),
      HeapBuffer.storeBytes_outside _ _ _ _ (Or.inl (by omega)),
      HeapBuffer.storeBytes_inside _ _ _ _ inside]
  · rw [HeapBuffer.store_cells]
    split
    · rfl
    · -- the first byte of the padding
      have inside :
          0 < (List.replicate (etherPayloadBufSize - text.length) (0 : UInt8)).length := by
        rw [List.length_replicate]
        omega
      have padded := HeapBuffer.storeBytes_inside (p.etherPayload.storeBytes 0 text)
        (0 + text.length) _ 0 inside
      rw [Nat.add_zero] at padded
      rw [padded, List.getElem_replicate]

/-- A frame that is written down as text is what every call reads, as far as it fits, whatever
calls there were before. The buffers of the tests hold all of it, and the device gets it. -/
theorem frame_written (p : TestPacket) {dst src bytes dstMac srcMac text : Str}
    (dstSpelled : MacSpells dst dstMac) (dstSix : dst.length = 6)
    (srcSpelled : MacSpells src srcMac) (srcSix : src.length = 6) (etherType : Int32)
    (spells : Spells bytes text) (short : text.length < etherPayloadBufSize) :
    let frame := dst ++ src ++
      [netHigh etherType.toUInt32.toUInt16, netLow etherType.toUInt32.toUInt16] ++ bytes
    ∃ q, p.written dstMac srcMac etherType text = some q ∧
      (∀ calls, q.getEtherPackets calls = some (calls.map (frameRead frame))) ∧
      ∀ (pktData : HeapBuffer) (egressPort : UInt16),
        let read := frameRead frame (pktData, etherPayloadBufSize)
        read.1 = frame.length ∧ ∃ pkt,
          sendPacketOut (controllerInjectL2Pkt (read.2.load 0 frame.length) egressPort) =
            .ok (some pkt) ∧
          pkt.datagram = DeviceHPPacket.transmitDatagram 0 egressPort frame := by
  intro frame
  obtain ⟨dstRead, readDst, dstChars⟩ := readMac_spelling dstSpelled dstSix
  obtain ⟨srcRead, readSrc, srcChars⟩ := readMac_spelling srcSpelled srcSix
  let q : TestPacket :=
    (setEtherType { p with srcMac := srcRead, dstMac := dstRead } etherType).setEtherPayloadStr text
  have header : q.header ++ bytes = frame := by
    show dstRead.toList.map char ++ srcRead.toList.map char ++
      [char (etherType >>> 8 &&& 0xff), char (etherType &&& 0xff)] ++ bytes = _
    rw [dstChars, srcChars, char_etherType]
  have holds : q.Holds bytes := setEtherPayloadStr_holds _ spells short
  refine ⟨q, ?_, ?_, ?_⟩
  · rw [written, setDstMac, readDst]
    show (setSrcMac { p with dstMac := dstRead } srcMac).bind _ = _
    rw [setSrcMac, readSrc]
    rfl
  · intro calls
    rw [getEtherPackets_holds calls holds, header]
  · intro pktData egressPort read
    have pairs := HexPairs.length spells
    have shorter := List.length_filter_le (fun c : UInt8 => decide (c ≠ 32)) text
    have length : frame.length = bytes.length + 14 := by
      simp [frame, dstSix, srcSix]
      omega
    have short : text.length < 5000 := short
    have whole : read = ((frame.length : Int), pktData.storeBytes 0 frame) := by
      show frameRead frame (pktData, 5000) = _
      rw [frameRead, if_neg (by decide), if_pos (by omega), List.take_of_length_le]
      show frame.length ≤ 5000
      omega
    have loaded : (pktData.storeBytes 0 frame).load 0 frame.length = frame :=
      HeapBuffer.load_eq _ _ _ fun i inside => HeapBuffer.storeBytes_inside pktData 0 frame i inside
    rw [whole]
    refine ⟨rfl, _, ?_, DeviceHPPacket.transmitPacket_datagram 0 egressPort frame (by omega)⟩
    show sendPacketOut ((cpuHeader egressPort).bytes ++ _) = _
    rw [loaded, sendPacketOut_cpuHeader egressPort frame (by omega) (by omega)]

/-- One byte behind a header, with addresses in both cases, read first into too small a buffer. -/
theorem frame_written_twice :
    let frame : Str := [0x7a, 0x44, 0xb9, 0x85, 0x3e, 0x10] ++
      [0x32, 0x26, 0x0a, 0x2e, 0xff, 0xf3] ++ [8, 0] ++ [0x45]
    let p : TestPacket := ⟨Vector.replicate 6 0, Vector.replicate 6 0, 0, .alloc 5000, rfl⟩
    ∃ q, p.written (str "7A:44:B9:85:3E:10") (str "32:26:a:2e:ff:F3") 0x0800 (str " 4 5") =
        some q ∧
      q.getEtherPackets [(.alloc 14, 14), (.alloc 15, 15)] =
        some [(13, (HeapBuffer.alloc 14).storeBytes 0 (frame.take 14)),
          (15, (HeapBuffer.alloc 15).storeBytes 0 frame)] := by
  intro frame p
  have two (byte high low : UInt8) (first : IsDigit (byte.toNat / 16) high)
      (second : IsDigit (byte.toNat % 16) low) : PartSpells byte [high, low] :=
    ⟨low, second, Or.inl ⟨high, first, rfl⟩⟩
  have dst : MacSpells [0x7a, 0x44, 0xb9, 0x85, 0x3e, 0x10] (str "7A:44:B9:85:3E:10") :=
    .cons (two 0x7a 55 65 (by decide) (by decide)) <|
    .cons (two 0x44 52 52 (by decide) (by decide)) <|
    .cons (two 0xb9 66 57 (by decide) (by decide)) <|
    .cons (two 0x85 56 53 (by decide) (by decide)) <|
    .cons (two 0x3e 51 69 (by decide) (by decide)) <|
    .last (two 0x10 49 48 (by decide) (by decide))
  have src : MacSpells [0x32, 0x26, 0x0a, 0x2e, 0xff, 0xf3] (str "32:26:a:2e:ff:F3") :=
    .cons (two 0x32 51 50 (by decide) (by decide)) <|
    .cons (two 0x26 50 54 (by decide) (by decide)) <|
    .cons ⟨97, by decide, Or.inr ⟨by decide, rfl⟩⟩ <|
    .cons (two 0x2e 50 101 (by decide) (by decide)) <|
    .cons (two 0xff 102 102 (by decide) (by decide)) <|
    .last (two 0xf3 70 51 (by decide) (by decide))
  have payload : Spells [0x45] (str " 4 5") := .cons (by decide) (by decide) .nil
  obtain ⟨q, made, reads, _⟩ := frame_written p dst rfl src rfl 0x0800 payload (by decide)
  exact ⟨q, made, reads [(.alloc 14, 14), (.alloc 15, 15)]⟩

end JP4Agent.TestPacket
