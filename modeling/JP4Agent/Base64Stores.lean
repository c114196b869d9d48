import JP4Agent.Base64Decode

set_option autoImplicit false

namespace JP4Agent.Base64

/-- The base64 characters that a string starts with. -/
def base64Prefix (encoded : Str) : Str := encoded.takeWhile isBase64

/-- The characters that the loop takes at most before its counter is zero or `INT_MIN`. -/
def counted (inLen : Int) : Nat :=
  if 0 ≤ inLen then inLen.toNat else (inLen + 2147483648).toNat

/-- The characters that the loop takes. -/
def taken (encoded : Str) : Str := (base64Prefix encoded).take (counted (toInt32 encoded.length))

/-- The counter is at `INT_MIN` before the prefix has ended. -/
def Exhausted (encoded : Str) : Prop :=
  toInt32 encoded.length < 0 ∧ counted (toInt32 encoded.length) ≤ (base64Prefix encoded).length

instance (encoded : Str) : Decidable (Exhausted encoded) := inferInstanceAs (Decidable (_ ∧ _))

theorem counted_of_nonneg {inLen : Int} (nonneg : 0 ≤ inLen) : (counted inLen : Int) = inLen := by
  rw [counted, if_pos nonneg]
  omega

theorem counted_of_neg {inLen : Int} (negative : inLen < 0) (least : -2147483648 ≤ inLen) :
    (counted inLen : Int) = inLen + 2147483648 := by
  rw [counted, if_neg (by omega)]
  omega

theorem toInt32_least (n : Nat) : -2147483648 ≤ toInt32 n := by
  unfold toInt32
  split <;> omega

theorem taken_length (encoded : Str) : (taken encoded).length =
    min (counted (toInt32 encoded.length)) (base64Prefix encoded).length := List.length_take

theorem isBase64_taken (encoded : Str) : ∀ c ∈ taken encoded, isBase64 c = true := by
  intro c member
  exact List.mem_takeWhile_imp (List.mem_of_mem_take member)

/-- If the loop takes the whole prefix, what comes next is not in the alphabet. -/
theorem head_drop_taken {encoded : Str}
    (whole : (base64Prefix encoded).length ≤ counted (toInt32 encoded.length)) :
    ∀ c, (encoded.drop (taken encoded).length).head? = some c → isBase64 c = false := by
  intro c next
  have all : taken encoded = base64Prefix encoded := List.take_of_length_le whole
  have rest : encoded.drop (base64Prefix encoded).length = encoded.dropWhile isBase64 := by
    have start : base64Prefix encoded <+: encoded := List.takeWhile_prefix isBase64
    have split := List.prefix_iff_eq_append.mp start
    exact List.append_cancel_left (split.trans List.takeWhile_append_dropWhile.symm)
  have outside := List.head?_dropWhile_not isBase64 encoded
  rw [all, rest] at next
  rw [next] at outside
  simpa using outside

theorem taken_append (encoded : Str) :
    taken encoded ++ encoded.drop (taken encoded).length = encoded := by
  have start : taken encoded <+: encoded :=
    (List.take_prefix _ _).trans (List.takeWhile_prefix isBase64)
  exact List.prefix_iff_eq_append.mp start

/-- A call of the decoder, for every string. -/
theorem base64DecodeFrom_eq_decodeGroups (scratch : Scratch) (encoded : Str) (len : UInt32) :
    base64DecodeFrom scratch encoded len =
      decodeGroups len (decide (Exhausted encoded)) (taken encoded) [] := by
  have least := toInt32_least encoded.length
  have length := taken_length encoded
  have ends : LoopEnds (decide (Exhausted encoded))
      (toInt32 encoded.length - (taken encoded).length)
      (encoded.drop (taken encoded).length) := by
    by_cases exhausted : Exhausted encoded
    · have counter := counted_of_neg exhausted.1 least
      have most := exhausted.2
      rw [decide_eq_true exhausted]
      show toInt32 encoded.length - (taken encoded).length = -2147483648
      omega
    · rw [decide_eq_false exhausted]
      by_cases nonneg : 0 ≤ toInt32 encoded.length
      · have counter := counted_of_nonneg nonneg
        refine ⟨by omega, ?_⟩
        by_cases whole : (base64Prefix encoded).length ≤ counted (toInt32 encoded.length)
        · exact Or.inr (head_drop_taken whole)
        · exact Or.inl (by omega)
      · have counter := counted_of_neg (by omega) least
        have fewer : (base64Prefix encoded).length < counted (toInt32 encoded.length) := by
          by_contra most
          exact exhausted ⟨by omega, by omega⟩
        exact ⟨by omega, Or.inr (head_drop_taken (by omega))⟩
  have allowed : (taken encoded).length ≤ toInt32 encoded.length ∨ (toInt32 encoded.length < 0 ∧
      (taken encoded).length ≤ toInt32 encoded.length + 2147483648) := by
    by_cases nonneg : 0 ≤ toInt32 encoded.length
    · have counter := counted_of_nonneg nonneg
      exact Or.inl (by omega)
    · have counter := counted_of_neg (by omega) least
      exact Or.inr ⟨by omega, by omega⟩
  have run := decodeLoop_eq_decodeGroups len _ (taken encoded)
    (encoded.drop (taken encoded).length) (toInt32 encoded.length) scratch [] allowed
    (isBase64_taken encoded) ends
  rw [taken_append] at run
  exact run

/-- Nothing is stored outside the buffer, and the call returns with fewer bytes than fit or
is stopped by the assertion. -/
def Contained (decoded : Decoded) (len : UInt32) : Prop :=
  (∀ i ∈ (decoded.memory (HeapBuffer.alloc len.toNat)).stored, i < len.toNat) ∧
    ((decoded.stores.length < len.toNat ∧ ∃ r, decoded.result = .ok r) ∨
      decoded.result = .error .assertion)

section
variable (len : UInt32)

/-- A group whose bytes do not fit below `len` is the last. -/
theorem decodeGroups_assertion (exhausted : Bool) (chars : Str) : ∀ stores : Str,
    stores.length % 3 = 0 → stores.length < len.toNat →
    len.toNat ≤ stores.length + 3 * (chars.length / 4) →
    (decodeGroups len exhausted chars stores).result = .error .assertion ∧
      (decodeGroups len exhausted chars stores).stores.length = 3 * ((len.toNat + 2) / 3) := by
  have word := len.toNat_lt
  induction chars using groups_induction with
  | short chars short =>
      intro stores _ room full
      omega
  | group a b c d more ih =>
      intro stores groups room full
      simp only [List.length_cons] at full
      have longer (x y z : UInt8) : (stores ++ [x, y, z]).length = stores.length + 3 :=
        List.length_append
      have number (x y z : UInt8) : numBytes (stores ++ [x, y, z]) = stores.length + 3 := by
        rw [numBytes, longer]
        omega
      rw [decodeGroups, number]
      by_cases fits : stores.length + 3 < len.toNat
      · rw [if_pos fits]
        exact ih _ (by rw [longer]; omega) (by rw [longer]; omega) (by rw [longer]; omega)
      · rw [if_neg fits]
        refine ⟨rfl, ?_⟩
        rw [longer]
        omega

theorem decodeGroups_overflow (chars : Str) : ∀ stores : Str,
    stores.length + 3 * (chars.length / 4) < len.toNat →
    (decodeGroups len true chars stores).result = .error .overflow := by
  induction chars using groups_induction with
  | short chars short =>
      intro stores _
      rw [decodeGroups_short len short, if_pos rfl]
  | group a b c d more ih =>
      intro stores room
      simp only [List.length_cons] at room
      have longer (x y z : UInt8) : (stores ++ [x, y, z]).length = stores.length + 3 :=
        List.length_append
      rw [decodeGroups, if_pos (by rw [numBytes_of_lt len (by rw [longer]; omega), longer]; omega)]
      exact ih _ (by rw [longer]; omega)

/-- The last loop stops behind the byte that fills the buffer. -/
theorem storeTail_full (bytes : Str) : ∀ stores : Str, stores.length < len.toNat →
    len.toNat ≤ stores.length + bytes.length →
    (storeTail len stores bytes).result = .error .assertion ∧
      (storeTail len stores bytes).stores.length = len.toNat := by
  have word := len.toNat_lt
  induction bytes with
  | nil =>
      intro stores room full
      simp only [List.length_nil] at full
      omega
  | cons byte bytes ih =>
      intro stores room full
      simp only [List.length_cons] at full
      have longer : (stores ++ [byte]).length = stores.length + 1 := List.length_append
      have number : numBytes (stores ++ [byte]) = stores.length + 1 := by
        rw [numBytes, longer]
        omega
      rw [storeTail, number]
      by_cases fits : stores.length + 1 < len.toNat
      · rw [if_pos fits]
        exact ih _ (by rw [longer]; omega) (by rw [longer]; omega)
      · rw [if_neg fits]
        refine ⟨rfl, ?_⟩
        rw [longer]
        omega

theorem decodeGroups_full (chars : Str) : ∀ stores : Str,
    stores.length + 3 * (chars.length / 4) < len.toNat →
    len.toNat ≤ stores.length + (decodeChars chars).length →
    (decodeGroups len false chars stores).result = .error .assertion ∧
      (decodeGroups len false chars stores).stores.length = len.toNat := by
  induction chars using groups_induction with
  | short chars short =>
      intro stores room full
      rw [decodeGroups_short len short, if_neg Bool.false_ne_true]
      exact storeTail_full len (decodeChars chars) stores (by omega) full
  | group a b c d more ih =>
      intro stores room full
      simp only [List.length_cons] at room
      simp only [decodeChars, List.length_cons] at full
      have longer (x y z : UInt8) : (stores ++ [x, y, z]).length = stores.length + 3 :=
        List.length_append
      rw [decodeGroups, if_pos (by rw [numBytes_of_lt len (by rw [longer]; omega), longer]; omega)]
      exact ih _ (by rw [longer]; omega) (by rw [longer]; omega)

/-- A call whose counter runs out, or whose bytes do not fit, does not return. -/
theorem decodeGroups_error (positive : 1 ≤ len.toNat) {exhausted : Bool} {chars : Str}
    (long : exhausted = true ∨ len.toNat ≤ (decodeChars chars).length) :
    ∃ fault, (decodeGroups len exhausted chars []).result = .error fault := by
  by_cases whole : len.toNat ≤ 3 * (chars.length / 4)
  · obtain ⟨stopped, _⟩ := decodeGroups_assertion len exhausted chars [] rfl positive
      (by simpa using whole)
    exact ⟨_, stopped⟩
  · cases exhausted with
    | true => exact ⟨_, decodeGroups_overflow len chars [] (by simpa using whole)⟩
    | false =>
        obtain ⟨stopped, _⟩ := decodeGroups_full len chars [] (by simpa using whole)
          (by simpa using long)
        exact ⟨_, stopped⟩

/-- A call returns exactly if the counter does not run out and the bytes fit. -/
theorem base64DecodeFrom_returns_iff (scratch : Scratch) (encoded : Str)
    (positive : 1 ≤ len.toNat) :
    (∃ r, (base64DecodeFrom scratch encoded len).result = .ok r) ↔
      ¬ Exhausted encoded ∧ (decodeChars (taken encoded)).length < len.toNat := by
  rw [base64DecodeFrom_eq_decodeGroups]
  constructor
  · rintro ⟨r, returned⟩
    have stays (long : decide (Exhausted encoded) = true ∨
        len.toNat ≤ (decodeChars (taken encoded)).length) : False := by
      obtain ⟨fault, failed⟩ := decodeGroups_error len positive long
      rw [returned] at failed
      cases failed
    exact ⟨fun exhausted => stays (Or.inl (decide_eq_true exhausted)),
      Nat.lt_of_not_le fun long => stays (Or.inr long)⟩
  · rintro ⟨counting, room⟩
    rw [decide_eq_false counting, decodeGroups_ok len _ [] (by simpa using room)]
    exact ⟨_, rfl⟩

/-- The base64 characters of an encoding are all but its padding. -/
theorem base64Prefix_encodeBytes (bytes : Str) :
    decodeChars (base64Prefix (encodeBytes bytes)) = bytes ∧
      (base64Prefix (encodeBytes bytes)).length ≤ (encodeBytes bytes).length ∧
      (encodeBytes bytes).length ≤ (base64Prefix (encodeBytes bytes)).length + 2 := by
  obtain ⟨chars, pads, split, alphabet, padding, decoded⟩ := encodeBytes_split bytes
  have padded : pads.length ≤ 2 := by
    rcases padding with rfl | rfl | rfl <;> simp
  have start : base64Prefix (encodeBytes bytes) = chars := by
    have behind : pads.takeWhile isBase64 = [] := by
      rcases padding with rfl | rfl | rfl <;> simp [isBase64_pad]
    rw [base64Prefix, split, List.takeWhile_append_of_pos alphabet, behind, List.append_nil]
  have total : (encodeBytes bytes).length = chars.length + pads.length := by
    rw [split, List.length_append]
  rw [start]
  exact ⟨decoded, by omega, by omega⟩

/-- The decoder does not return from bytes that do not fit, up to the 2 GiB that an `int`
counts. -/
theorem base64DecodeFrom_encodeBytes_long (scratch : Scratch) (bytes : Str)
    (positive : 1 ≤ len.toNat) (long : len.toNat ≤ bytes.length)
    (small : bytes.length < 2147483648) :
    ∃ fault, (base64DecodeFrom scratch (encodeBytes bytes) len).result = .error fault := by
  obtain ⟨decoded, least, most⟩ := base64Prefix_encodeBytes bytes
  have length := encodeBytes_length bytes
  rw [base64DecodeFrom_eq_decodeGroups]
  apply decodeGroups_error len positive
  by_cases few : (encodeBytes bytes).length < 2147483648
  · -- the counter covers all of the characters
    have counter : counted (toInt32 (encodeBytes bytes).length) = (encodeBytes bytes).length := by
      rw [toInt32_of_lt few, counted, if_pos (by omega)]
      omega
    right
    rw [taken, counter, List.take_of_length_le least, decoded]
    exact long
  · left
    have negative :
        toInt32 (encodeBytes bytes).length = (encodeBytes bytes).length - 4294967296 := by
      unfold toInt32
      omega
    have counter : (counted (toInt32 (encodeBytes bytes).length) : Int) =
        toInt32 (encodeBytes bytes).length + 2147483648 := counted_of_neg (by omega) (by omega)
    have exhausted : Exhausted (encodeBytes bytes) := ⟨by omega, by omega⟩
    exact decide_eq_true exhausted

theorem contained_of_stores {decoded : Decoded} (few : decoded.stores.length ≤ len.toNat)
    (ended : (decoded.stores.length < len.toNat ∧ ∃ r, decoded.result = .ok r) ∨
      decoded.result = .error .assertion) : Contained decoded len := by
  have word := len.toNat_lt
  refine ⟨fun i stored => ?_, ended⟩
  rw [memory_eq decoded _ (by omega), HeapBuffer.mem_storeBytes_stored] at stored
  rcases stored with inside | old
  · omega
  · simp at old

/-- A store behind the last byte of the buffer. -/
theorem not_contained_of_stores {decoded : Decoded} (many : len.toNat < decoded.stores.length)
    (small : decoded.stores.length ≤ 4294967296) : ¬ Contained decoded len := by
  rintro ⟨inside, _⟩
  have stored : len.toNat ∈ (decoded.memory (HeapBuffer.alloc len.toNat)).stored := by
    rw [memory_eq decoded _ small, HeapBuffer.mem_storeBytes_stored]
    exact Or.inl (by omega)
  have below := inside _ stored
  omega

/-- The decoder stays inside its buffer exactly if three divides the capacity or the whole
groups are too few to reach its end, and if the counter does not come to `INT_MIN`
before. -/
theorem decode_contained_iff (encoded : Str) (nonempty : 1 ≤ len) :
    (∀ scratch, Contained (base64DecodeFrom scratch encoded len) len) ↔
      (len % 3 = 0 ∨ (taken encoded).length / 4 ≤ len.toNat / 3) ∧
        (Exhausted encoded → len.toNat ≤ 3 * ((taken encoded).length / 4)) := by
  have word := len.toNat_lt
  have positive : 1 ≤ len.toNat := nonempty
  have divides : len % 3 = 0 ↔ len.toNat % 3 = 0 := by
    rw [← UInt32.toNat_inj, UInt32.toNat_mod]
    rfl
  simp only [base64DecodeFrom_eq_decodeGroups, forall_const, divides]
  by_cases full : len.toNat ≤ 3 * ((taken encoded).length / 4)
  · obtain ⟨stopped, length⟩ := decodeGroups_assertion len (decide (Exhausted encoded))
      (taken encoded) [] rfl positive (by simpa using full)
    by_cases inside : len.toNat % 3 = 0
    · exact ⟨fun _ => ⟨Or.inl inside, fun _ => full⟩,
        fun _ => contained_of_stores len (by omega) (Or.inr stopped)⟩
    · constructor
      · exact fun contained => absurd contained (not_contained_of_stores len (by omega) (by omega))
      · rintro ⟨divided | few, _⟩
        · exact absurd divided inside
        · omega
  · have few : (taken encoded).length / 4 ≤ len.toNat / 3 := by omega
    by_cases exhausted : Exhausted encoded
    · have overflow := decodeGroups_overflow len (taken encoded) [] (by simpa using full)
      rw [decide_eq_true exhausted]
      constructor
      · rintro ⟨_, ⟨_, r, returned⟩ | stopped⟩
        · rw [overflow] at returned
          cases returned
        · rw [overflow] at stopped
          cases stopped
      · rintro ⟨_, reaches⟩
        exact absurd (reaches exhausted) full
    · rw [decide_eq_false exhausted]
      refine ⟨fun _ => ⟨Or.inr few, fun wrong => absurd wrong exhausted⟩, fun _ => ?_⟩
      by_cases room : (decodeChars (taken encoded)).length < len.toNat
      · have returned := decodeGroups_ok len (taken encoded) [] (by simpa using room)
        rw [List.nil_append] at returned
        rw [returned]
        exact contained_of_stores len (Nat.le_of_lt room) (Or.inl ⟨room, _, rfl⟩)
      · obtain ⟨stopped, length⟩ := decodeGroups_full len (taken encoded) [] (by simpa using full)
          (by simpa using room)
        exact contained_of_stores len (Nat.le_of_eq length) (Or.inr stopped)

end

theorem decode_contained_iff_cap :
    (∀ scratch, Contained (base64DecodeFrom scratch (str "CgYKBGNhcDA=") 5000) 5000) ↔
      ((5000 : UInt32) % 3 = 0 ∨
          (taken (str "CgYKBGNhcDA=")).length / 4 ≤ (5000 : UInt32).toNat / 3) ∧
        (Exhausted (str "CgYKBGNhcDA=") →
          (5000 : UInt32).toNat ≤ 3 * ((taken (str "CgYKBGNhcDA=")).length / 4)) :=
  decode_contained_iff 5000 (str "CgYKBGNhcDA=") (by decide)

/-- 6668 characters make 1667 groups, the last of which is stored at 4998, 4999 and 5000. -/
theorem decode_past_end :
    5000 ∈ ((base64Decode (List.replicate 6668 65) 5000).memory (HeapBuffer.alloc 5000)).stored ∧
      ¬ Contained (base64Decode (List.replicate 6668 65) 5000) 5000 := by
  have size : (5000 : UInt32).toNat = 5000 := rfl
  have all : (base64Prefix (List.replicate 6668 65)).length = 6668 := by
    have whole : base64Prefix (List.replicate 6668 65) = List.replicate 6668 65 := by
      apply List.takeWhile_eq_self_iff.mpr
      intro c member
      rw [List.eq_of_mem_replicate member]
      rfl
    rw [whole, List.length_replicate]
  have length : (taken (List.replicate 6668 65)).length = 6668 := by
    rw [taken_length, all, List.length_replicate, toInt32_of_lt (by omega),
      counted, if_pos (by omega)]
    omega
  obtain ⟨_, stores⟩ := decodeGroups_assertion 5000
    (decide (Exhausted (List.replicate 6668 65))) (taken (List.replicate 6668 65)) [] rfl
    (by decide) (by rw [length, size]; decide)
  rw [← base64DecodeFrom_eq_decodeGroups fun _ => 0] at stores
  have many : (base64Decode (List.replicate 6668 65) 5000).stores.length = 5001 := stores
  constructor
  · rw [memory_eq _ _ (by omega), HeapBuffer.mem_storeBytes_stored]
    exact Or.inl (by omega)
  · exact not_contained_of_stores 5000 (by omega) (by omega)

end JP4Agent.Base64
