import JP4Agent.Base64Groups

set_option autoImplicit false

namespace JP4Agent.Base64

theorem ne_pad {c : UInt8} (alphabet : isBase64 c = true) : c ≠ pad := by
  rintro rfl
  exact absurd alphabet (by decide)

theorem numBytes_of_lt {stores : Str} (len : UInt32) (room : stores.length < len.toNat) :
    numBytes stores = stores.length := by
  have word := len.toNat_lt
  exact Nat.mod_eq_of_lt (by omega)

section
variable (len : UInt32)

theorem decodeLoop_char (c : UInt8) (rest : Str) (inLen : Int) (i : Nat) (scratch : Scratch)
    (stores : Str) (counting : inLen ≠ 0) (defined : inLen ≠ -2147483648)
    (alphabet : isBase64 c = true) (short : i < 3) :
    decodeLoop len (c :: rest) inLen i scratch stores =
      decodeLoop len rest (inLen - 1) (i + 1) (scratch.set i c) stores := by
  rw [decodeLoop, if_neg defined, if_pos ⟨counting, ne_pad alphabet, alphabet⟩]
  dsimp only
  rw [if_neg (by omega)]

theorem decodeLoop_fourth (c : UInt8) (rest : Str) (inLen : Int) (scratch : Scratch)
    (stores : Str) (counting : inLen ≠ 0) (defined : inLen ≠ -2147483648)
    (alphabet : isBase64 c = true) :
    ∃ scratch', decodeLoop len (c :: rest) inLen 3 scratch stores =
      let stores := stores ++ [octet0 (find (scratch 0)) (find (scratch 1)),
        octet1 (find (scratch 1)) (find (scratch 2)), octet2 (find (scratch 2)) (find c)]
      if numBytes stores < len.toNat then decodeLoop len rest (inLen - 1) 0 scratch' stores
      else ⟨stores, .error .assertion⟩ := by
  refine ⟨fun j => if j < 4 then find (scratch.set 3 c j) else scratch.set 3 c j, ?_⟩
  rw [decodeLoop, if_neg defined, if_pos ⟨counting, ne_pad alphabet, alphabet⟩]
  rfl

/-- One group of four characters: its three bytes are stored before the assertion. -/
theorem decodeLoop_group (a b c d : UInt8) (rest : Str) (inLen : Int) (scratch : Scratch)
    (stores : Str) (counted : 4 ≤ inLen ∨ (inLen < 0 ∧ 4 ≤ inLen + 2147483648))
    (alphabet : ∀ x ∈ [a, b, c, d], isBase64 x = true) :
    ∃ scratch', decodeLoop len (a :: b :: c :: d :: rest) inLen 0 scratch stores =
      let stores := stores ++ [octet0 (find a) (find b), octet1 (find b) (find c),
        octet2 (find c) (find d)]
      if numBytes stores < len.toNat then decodeLoop len rest (inLen - 4) 0 scratch' stores
      else ⟨stores, .error .assertion⟩ := by
  have ha := alphabet a (by simp)
  have hb := alphabet b (by simp)
  have hc := alphabet c (by simp)
  have hd := alphabet d (by simp)
  obtain ⟨scratch', fourth⟩ := decodeLoop_fourth len d rest (inLen - 1 - 1 - 1)
    (((scratch.set 0 a).set 1 b).set 2 c) stores (by omega) (by omega) hd
  refine ⟨scratch', ?_⟩
  rw [decodeLoop_char len a _ inLen 0 scratch stores (by omega) (by omega) ha (by omega),
    decodeLoop_char len b _ _ 1 _ stores (by omega) (by omega) hb (by omega),
    decodeLoop_char len c _ _ 2 _ stores (by omega) (by omega) hc (by omega), fourth,
    show inLen - 1 - 1 - 1 - 1 = inLen - 4 by omega]
  rfl

theorem finish_eq {stores : Str} (small : stores.length < 2147483648) :
    finish stores = ⟨stores, .ok stores.length⟩ := by
  have word : numBytes stores = stores.length := Nat.mod_eq_of_lt (by omega)
  rw [finish, word, toInt32_of_lt small]

theorem storeTail_ok (stores bytes : Str) (room : stores.length + bytes.length < len.toNat) :
    storeTail len stores bytes = finish (stores ++ bytes) := by
  induction bytes generalizing stores with
  | nil => rw [storeTail, List.append_nil]
  | cons byte bytes ih =>
      have longer : (stores ++ [byte]).length = stores.length + 1 := List.length_append
      simp only [List.length_cons] at room
      rw [storeTail, if_pos (by rw [numBytes_of_lt len (by omega)]; omega), ih _ (by omega),
        List.append_assoc]
      rfl

/-- The loop has reached the end of the characters to decode: the counter is used
up, or the next character is not in the alphabet. -/
def Stopped (inLen : Int) (rest : Str) : Prop :=
  inLen = 0 ∨ ∀ c, rest.head? = some c → isBase64 c = false

/-- The loop ends here: at the end of the characters to decode, or `exhausted`, with the
counter at `INT_MIN`. -/
def LoopEnds (exhausted : Bool) (inLen : Int) (rest : Str) : Prop :=
  if exhausted then inLen = -2147483648 else inLen ≠ -2147483648 ∧ Stopped inLen rest

/-- The decoder without its scratch arrays, on the characters before the loop ends. -/
def decodeGroups (exhausted : Bool) : Str → Str → Decoded
  | a :: b :: c :: d :: more, stores =>
    let stores := stores ++ [octet0 (find a) (find b), octet1 (find b) (find c),
      octet2 (find c) (find d)]
    if numBytes stores < len.toNat then decodeGroups exhausted more stores
    else ⟨stores, .error .assertion⟩
  | chars, stores =>
    if exhausted then ⟨stores, .error .overflow⟩ else storeTail len stores (decodeChars chars)

theorem decodeGroups_short {exhausted : Bool} {chars : Str} (short : chars.length < 4)
    (stores : Str) : decodeGroups len exhausted chars stores =
      if exhausted then ⟨stores, .error .overflow⟩
      else storeTail len stores (decodeChars chars) := by
  rcases chars with _ | ⟨a, _ | ⟨b, _ | ⟨c, _ | ⟨d, more⟩⟩⟩⟩
  case cons.cons.cons.cons =>
    simp only [List.length_cons] at short
    omega
  all_goals rfl

theorem decodeLoop_ends {exhausted : Bool} {inLen : Int} {rest : Str} (i : Nat)
    (scratch : Scratch) (stores : Str) (ends : LoopEnds exhausted inLen rest) :
    decodeLoop len rest inLen i scratch stores =
      if exhausted then ⟨stores, .error .overflow⟩ else decodeTail len i scratch stores := by
  cases exhausted with
  | true =>
      have minimum : inLen = -2147483648 := ends
      rw [if_pos rfl]
      cases rest with
      | nil => rw [decodeLoop, if_pos minimum]
      | cons c rest => rw [decodeLoop, if_pos minimum]
  | false =>
      obtain ⟨defined, stopped⟩ : inLen ≠ -2147483648 ∧ Stopped inLen rest := ends
      rw [if_neg Bool.false_ne_true]
      cases rest with
      | nil => rw [decodeLoop, if_neg defined]
      | cons c rest =>
          rw [decodeLoop, if_neg defined, if_neg]
          rintro ⟨counting, _, alphabet⟩
          rcases stopped with zero | outside
          · exact counting zero
          · rw [outside c rfl] at alphabet
            cases alphabet

/-- What the loop computes does not depend on what the scratch arrays hold. The induction is
over the groups of four. -/
theorem decodeLoop_eq_decodeGroups (exhausted : Bool) (chars rest : Str) :
    ∀ (inLen : Int) (scratch : Scratch) (stores : Str),
      (chars.length ≤ inLen ∨ (inLen < 0 ∧ chars.length ≤ inLen + 2147483648)) →
      (∀ c ∈ chars, isBase64 c = true) → LoopEnds exhausted (inLen - chars.length) rest →
      decodeLoop len (chars ++ rest) inLen 0 scratch stores =
        decodeGroups len exhausted chars stores := by
  induction chars using decodeChars.induct with
  | case1 a b c d more ih =>
      intro inLen scratch stores counted alphabet ends
      simp only [List.length_cons] at counted ends
      have here : ∀ x ∈ [a, b, c, d], isBase64 x = true := by
        intro x member
        exact alphabet x (List.mem_append_left more member)
      obtain ⟨scratch', group⟩ := decodeLoop_group len a b c d (more ++ rest) inLen scratch
        stores (by omega) here
      have counter : inLen - 4 - (more.length : Int) =
          inLen - ((more.length + 1 + 1 + 1 + 1 : Nat) : Int) := by omega
      simp only [List.cons_append]
      rw [group, decodeGroups]
      dsimp only
      rw [ih (inLen - 4) scratch' _ (by omega) (fun x member => alphabet x (by simp [member]))
        (by rw [counter]; exact ends)]
  | case2 a b c =>
      intro inLen scratch stores counted alphabet ends
      simp only [List.length_cons, List.length_nil] at counted ends
      have counter : inLen - 1 - 1 - 1 = inLen - ((0 + 1 + 1 + 1 : Nat) : Int) := by omega
      simp only [List.cons_append, List.nil_append]
      rw [decodeLoop_char len a _ _ _ _ _ (by omega) (by omega) (alphabet a (by simp)) (by omega),
        decodeLoop_char len b _ _ _ _ _ (by omega) (by omega) (alphabet b (by simp)) (by omega),
        decodeLoop_char len c _ _ _ _ _ (by omega) (by omega) (alphabet c (by simp)) (by omega),
        decodeLoop_ends len _ _ stores (by rw [counter]; exact ends)]
      cases exhausted <;> rfl
  | case3 a b =>
      intro inLen scratch stores counted alphabet ends
      simp only [List.length_cons, List.length_nil] at counted ends
      have counter : inLen - 1 - 1 = inLen - ((0 + 1 + 1 : Nat) : Int) := by omega
      simp only [List.cons_append, List.nil_append]
      rw [decodeLoop_char len a _ _ _ _ _ (by omega) (by omega) (alphabet a (by simp)) (by omega),
        decodeLoop_char len b _ _ _ _ _ (by omega) (by omega) (alphabet b (by simp)) (by omega),
        decodeLoop_ends len _ _ stores (by rw [counter]; exact ends)]
      cases exhausted <;> rfl
  | case4 chars long three two =>
      intro inLen scratch stores counted alphabet ends
      rcases chars with _ | ⟨a, _ | ⟨b, _ | ⟨c, _ | ⟨d, more⟩⟩⟩⟩
      case nil =>
          simp only [List.length_nil] at counted ends
          have counter : inLen = inLen - ((0 : Nat) : Int) := by omega
          rw [List.nil_append, decodeLoop_ends len _ _ stores (by rw [counter]; exact ends)]
          cases exhausted <;> rfl
      case cons.nil =>
          simp only [List.length_cons, List.length_nil] at counted ends
          have counter : inLen - 1 = inLen - ((0 + 1 : Nat) : Int) := by omega
          simp only [List.cons_append, List.nil_append]
          rw [decodeLoop_char len a _ _ _ _ _ (by omega) (by omega) (alphabet a (by simp))
              (by omega),
            decodeLoop_ends len _ _ stores (by rw [counter]; exact ends)]
          cases exhausted <;> rfl
      case cons.cons.nil => exact absurd rfl (two a b)
      case cons.cons.cons.nil => exact absurd rfl (three a b c)
      case cons.cons.cons.cons => exact absurd rfl (long a b c d more)

theorem decodeGroups_ok (chars : Str) : ∀ stores : Str,
    stores.length + (decodeChars chars).length < len.toNat →
    decodeGroups len false chars stores = finish (stores ++ decodeChars chars) := by
  induction chars using groups_induction with
  | short chars short =>
      intro stores room
      rw [decodeGroups_short len short, if_neg Bool.false_ne_true]
      exact storeTail_ok len stores _ room
  | group a b c d more ih =>
      intro stores room
      simp only [decodeChars, List.length_cons] at room
      have longer (x y z : UInt8) : (stores ++ [x, y, z]).length = stores.length + 3 :=
        List.length_append
      have fits (x y z : UInt8) : numBytes (stores ++ [x, y, z]) < len.toNat := by
        rw [numBytes_of_lt len (by rw [longer]; omega), longer]
        omega
      rw [decodeGroups, if_pos (fits _ _ _), ih _ (by rw [longer]; omega), decodeChars,
        List.append_assoc]
      rfl

/-- The decoder on a run of base64 characters followed by something that stops it. -/
theorem decodeLoop_eq (chars rest : Str) (inLen : Int) (scratch : Scratch) (stores : Str)
    (counted : (chars.length : Int) ≤ inLen) (alphabet : ∀ c ∈ chars, isBase64 c = true)
    (stopped : Stopped (inLen - chars.length) rest)
    (room : stores.length + (decodeChars chars).length < len.toNat) :
    decodeLoop len (chars ++ rest) inLen 0 scratch stores =
      finish (stores ++ decodeChars chars) := by
  have ends : LoopEnds false (inLen - chars.length) rest := ⟨by omega, stopped⟩
  rw [decodeLoop_eq_decodeGroups len false chars rest inLen scratch stores (Or.inl counted)
    alphabet ends, decodeGroups_ok len chars stores room]

end

/-- The stores go to one offset after another from the start of the buffer. -/
theorem memory_eq (decoded : Decoded) (buf : HeapBuffer)
    (small : decoded.stores.length ≤ 4294967296) :
    decoded.memory buf = buf.storeBytes 0 decoded.stores := by
  have loop (bytes : Str) : ∀ (buf : HeapBuffer) (offset : Nat),
      offset + bytes.length ≤ 4294967296 →
      (bytes.zipIdx offset).foldl (fun b store => b.store (store.2 % 4294967296) store.1) buf =
        buf.storeBytes offset bytes := by
    induction bytes with
    | nil => intro buf offset _; rfl
    | cons byte bytes ih =>
        intro buf offset inside
        rw [List.length_cons] at inside
        rw [List.zipIdx_cons, List.foldl_cons, ih _ _ (by omega), HeapBuffer.storeBytes,
          Nat.mod_eq_of_lt (by omega)]
  exact loop decoded.stores buf 0 (by omega)

theorem memory_finish_load (stores : Str) (buf : HeapBuffer) (small : stores.length ≤ 4294967296) :
    ((finish stores).memory buf).load 0 stores.length = stores := by
  rw [memory_eq (finish stores) buf small]
  apply HeapBuffer.load_eq
  intro i inside
  exact HeapBuffer.storeBytes_inside buf 0 stores i inside

/-- Below `INT_MAX` characters the decoder returns what the characters stand for. -/
theorem base64DecodeFrom_eq (scratch : Scratch) (chars pads : Str) (len : UInt32)
    (alphabet : ∀ c ∈ chars, isBase64 c = true)
    (padding : pads = [] ∨ pads = [pad] ∨ pads = [pad, pad])
    (small : (chars ++ pads).length < 2147483648)
    (room : (decodeChars chars).length < len.toNat) :
    base64DecodeFrom scratch (chars ++ pads) len = finish (decodeChars chars) := by
  have stopped : Stopped (toInt32 (chars ++ pads).length - chars.length) pads := by
    rw [toInt32_of_lt small]
    rcases padding with rfl | rfl | rfl
    · exact Or.inl (by simp)
    all_goals
      refine Or.inr ?_
      rintro c same
      cases same
      exact isBase64_pad
  have counted : (chars.length : Int) ≤ toInt32 (chars ++ pads).length := by
    rw [toInt32_of_lt small, List.length_append]
    omega
  exact decodeLoop_eq len chars pads _ scratch [] counted alphabet stopped
    (by simpa only [List.length_nil, Nat.zero_add] using room)

theorem base64DecodeFrom_encodeBytes (scratch : Scratch) (bytes : Str) (len : UInt32)
    (room : bytes.length < len.toNat) (small : (encodeBytes bytes).length < 2147483648) :
    base64DecodeFrom scratch (encodeBytes bytes) len = finish bytes := by
  obtain ⟨chars, pads, split, alphabet, padding, decoded⟩ := encodeBytes_split bytes
  rw [split] at small ⊢
  rw [base64DecodeFrom_eq scratch chars pads len alphabet padding small
    (by rw [decoded]; exact room), decoded]

section
variable (len : UInt32)

theorem finish_result_le {stores : Str} {r : Int} (returned : (finish stores).result = .ok r) :
    r ≤ stores.length := by
  cases returned
  have below := toInt32_le (numBytes stores)
  have reduced : numBytes stores ≤ stores.length := Nat.mod_le _ _
  omega

theorem storeTail_result_le (bytes stores : Str) (r : Int)
    (returned : (storeTail len stores bytes).result = .ok r) :
    r ≤ stores.length + bytes.length := by
  induction bytes generalizing stores with
  | nil =>
      have stored := finish_result_le returned
      simpa using stored
  | cons byte bytes ih =>
      rw [storeTail] at returned
      split at returned
      · have rest := ih _ returned
        simp only [List.length_append, List.length_cons, List.length_nil] at rest ⊢
        omega
      · cases returned

theorem decodeTail_result_le (i : Nat) (scratch : Scratch) (stores : Str) (r : Int)
    (returned : (decodeTail len i scratch stores).result = .ok r) (short : i ≤ 3) :
    4 * r ≤ 4 * stores.length + 3 * i := by
  rw [decodeTail] at returned
  split at returned
  · have stored := finish_result_le returned
    omega
  · have stored := storeTail_result_le len _ _ _ returned
    rw [List.length_take] at stored
    simp only [List.length_cons, List.length_nil] at stored
    omega

/-- What one round of the loop can do to a call that returns. -/
theorem decodeLoop_cases (c : UInt8) (rest : Str) (inLen : Int) (i : Nat) (scratch : Scratch)
    (stores : Str) (r : Int)
    (returned : (decodeLoop len (c :: rest) inLen i scratch stores).result = .ok r) :
    inLen ≠ -2147483648 ∧
      ((¬ (inLen ≠ 0 ∧ c ≠ pad ∧ isBase64 c = true) ∧
          (decodeTail len i scratch stores).result = .ok r) ∨
        ∃ i' scratch' stores', inLen ≠ 0 ∧ isBase64 c = true ∧
          ((i' = i + 1 ∧ i + 1 ≠ 4 ∧ stores'.length = stores.length) ∨
            (i' = 0 ∧ i + 1 = 4 ∧ stores'.length = stores.length + 3)) ∧
          (decodeLoop len rest (inLen - 1) i' scratch' stores').result = .ok r) := by
  rw [decodeLoop] at returned
  by_cases minimum : inLen = -2147483648
  · rw [if_pos minimum] at returned
    cases returned
  refine ⟨minimum, ?_⟩
  rw [if_neg minimum] at returned
  by_cases continues : inLen ≠ 0 ∧ c ≠ pad ∧ isBase64 c = true
  · rw [if_pos continues] at returned
    by_cases fourth : i + 1 = 4
    · simp only [if_pos fourth] at returned
      generalize stored : stores ++ [_, _, _] = stores' at returned
      split at returned
      · refine Or.inr ⟨_, _, _, continues.1, continues.2.2, Or.inr ⟨rfl, fourth, ?_⟩, returned⟩
        rw [← stored, List.length_append]
        rfl
      · cases returned
    · simp only [if_neg fourth] at returned
      exact Or.inr ⟨_, _, _, continues.1, continues.2.2, Or.inl ⟨rfl, fourth, rfl⟩, returned⟩
  · rw [if_neg continues] at returned
    exact Or.inl ⟨continues, returned⟩

/-- The loop decodes no more characters than its counter allows. -/
theorem decodeLoop_result_le (rest : Str) : ∀ (inLen : Int) (i : Nat) (scratch : Scratch)
    (stores : Str) (r : Int), 0 ≤ inLen → i ≤ 3 →
    (decodeLoop len rest inLen i scratch stores).result = .ok r →
    4 * r ≤ 4 * stores.length + 3 * (inLen + i) := by
  induction rest with
  | nil =>
      intro inLen i scratch stores r counting short returned
      rw [decodeLoop, if_neg (by omega)] at returned
      have tail := decodeTail_result_le len i scratch stores r returned short
      omega
  | cons c rest ih =>
      intro inLen i scratch stores r counting short returned
      rcases decodeLoop_cases len c rest inLen i scratch stores r returned with
        ⟨_, ⟨_, tail⟩ | ⟨i', scratch', stores', nonzero, _, moved, more⟩⟩
      · have most := decodeTail_result_le len i scratch stores r tail short
        omega
      · have most := ih _ _ _ _ _ (by omega) (by omega) more
        omega

/-- A negative counter is no end: it runs to `INT_MIN` unless the characters end first. -/
theorem decodeLoop_overflow (rest : Str) : ∀ (inLen : Int) (i : Nat) (scratch : Scratch)
    (stores : Str), inLen < 0 → -2147483648 ≤ inLen →
    (∀ k : Nat, k < inLen + 2147483648 → ∃ c, rest[k]? = some c ∧ isBase64 c = true) →
    ∀ r, (decodeLoop len rest inLen i scratch stores).result ≠ .ok r := by
  induction rest with
  | nil =>
      intro inLen i scratch stores negative bounded alphabet r returned
      rw [decodeLoop] at returned
      split at returned
      · cases returned
      · obtain ⟨c, here, _⟩ := alphabet 0 (by omega)
        cases here
  | cons c rest ih =>
      intro inLen i scratch stores negative bounded alphabet r returned
      rcases decodeLoop_cases len c rest inLen i scratch stores r returned with
        ⟨minimum, ⟨stops, _⟩ | ⟨i', scratch', stores', _, _, _, more⟩⟩
      · obtain ⟨_, here, char⟩ := alphabet 0 (by omega)
        cases here
        exact stops ⟨by omega, ne_pad char, char⟩
      · refine ih _ _ _ _ (by omega) (by omega) ?_ r more
        intro k before
        simpa only [List.getElem?_cons_succ] using alphabet (k + 1) (by omega)

/-- From `2 ^ 31` characters on, a call that returns has missed at least `2 ^ 32` of them. -/
theorem base64DecodeFrom_long (scratch : Scratch) (bytes : Str) (r : Int)
    (long : 2147483648 ≤ (encodeBytes bytes).length)
    (returned : (base64DecodeFrom scratch (encodeBytes bytes) len).result = .ok r) :
    4 * r + 3 * 4294967296 ≤ 3 * (encodeBytes bytes).length := by
  have wraps := toInt32_wraps long
  by_cases counting : 0 ≤ toInt32 (encodeBytes bytes).length
  · have most := decodeLoop_result_le len _ _ 0 scratch [] r counting (by omega) returned
    simp only [List.length_nil] at most
    omega
  · obtain ⟨chars, pads, split, alphabet, padding, _⟩ := encodeBytes_split bytes
    have padded : pads.length ≤ 2 := by
      rcases padding with rfl | rfl | rfl <;> simp
    have length : (encodeBytes bytes).length = chars.length + pads.length := by
      rw [split, List.length_append]
    have least : -2147483648 ≤ toInt32 (encodeBytes bytes).length := by
      unfold toInt32
      split <;> omega
    refine absurd returned (decodeLoop_overflow len _ _ 0 scratch [] (by omega) least ?_ r)
    intro k before
    have inside : k < chars.length := by omega
    refine ⟨chars[k], ?_, alphabet _ (List.getElem_mem inside)⟩
    rw [split, List.getElem?_append_left inside, List.getElem?_eq_getElem inside]

end

end JP4Agent.Base64
