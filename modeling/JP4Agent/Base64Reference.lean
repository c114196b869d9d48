import JP4Agent.Base64Stores

set_option autoImplicit false

namespace JP4Agent.Base64

/-- The value of a character, as six bits with the highest first. -/
def sixBits (c : UInt8) : List Bool :=
  [5, 4, 3, 2, 1, 0].map fun i => (base64Chars.idxOf c).testBit i

/-- The number with these bits, the highest first. -/
def ofBits (bits : List Bool) : Nat := bits.foldl (fun n bit => 2 * n + bit.toNat) 0

/-- The whole bytes at the start of the bits. -/
def octets : List Bool → Str
  | b7 :: b6 :: b5 :: b4 :: b3 :: b2 :: b1 :: b0 :: rest =>
    UInt8.ofNat (ofBits [b7, b6, b5, b4, b3, b2, b1, b0]) :: octets rest
  | _ => []

/-- The bytes that the base64 characters at the start of a string stand for. -/
def reference (encoded : Str) : Str := octets ((base64Prefix encoded).flatMap sixBits)

theorem idxOf_eq (c : UInt8) (alphabet : isBase64 c = true) :
    base64Chars.idxOf c = (find c).toNat := by
  have six := find_lt c alphabet
  have listed : c ∈ base64Chars := by
    by_contra missing
    rw [find, if_neg missing] at six
    exact absurd six (by decide)
  have inside : base64Chars.idxOf c < 64 := List.idxOf_lt_length_of_mem listed
  rw [find, if_pos listed, UInt8.toNat_ofNat']
  omega

theorem ofBits_concat (bits : List Bool) (bit : Bool) :
    ofBits (bits ++ [bit]) = 2 * ofBits bits + bit.toNat := List.foldl_concat ..

theorem ofBits_append (bits more : List Bool) :
    ofBits (bits ++ more) = 2 ^ more.length * ofBits bits + ofBits more := by
  induction more using List.reverseRecOn with
  | nil => simp [ofBits]
  | append_singleton more bit ih =>
      rw [← List.append_assoc, ofBits_concat, ofBits_concat, ih, List.length_append,
        List.length_singleton, Nat.pow_succ]
      ring

section
variable {v : Nat}

/-- All six bits of a value. -/
theorem ofBits_six (six : v < 64) : ofBits [v.testBit 5, v.testBit 4, v.testBit 3, v.testBit 2,
    v.testBit 1, v.testBit 0] = v := by
  simp only [ofBits, List.foldl_cons, List.foldl_nil, Nat.toNat_testBit]
  omega

theorem ofBits_highFour (six : v < 64) :
    ofBits [v.testBit 5, v.testBit 4, v.testBit 3, v.testBit 2] = v / 4 := by
  simp only [ofBits, List.foldl_cons, List.foldl_nil, Nat.toNat_testBit]
  omega

theorem ofBits_highTwo (six : v < 64) : ofBits [v.testBit 5, v.testBit 4] = v / 16 := by
  simp only [ofBits, List.foldl_cons, List.foldl_nil, Nat.toNat_testBit]
  omega

theorem ofBits_lowFour :
    ofBits [v.testBit 3, v.testBit 2, v.testBit 1, v.testBit 0] = v % 16 := by
  simp only [ofBits, List.foldl_cons, List.foldl_nil, Nat.toNat_testBit]
  omega

theorem ofBits_lowTwo : ofBits [v.testBit 1, v.testBit 0] = v % 4 := by
  simp only [ofBits, List.foldl_cons, List.foldl_nil, Nat.toNat_testBit]
  omega

end

section
variable (w x y z : UInt8)

/-- The bits of two characters' values, cut into the first octet of a group. -/
theorem ofBits_octet0 (hw : w < 64) (hx : x < 64) :
    UInt8.ofNat (ofBits [w.toNat.testBit 5, w.toNat.testBit 4, w.toNat.testBit 3,
      w.toNat.testBit 2, w.toNat.testBit 1, w.toNat.testBit 0, x.toNat.testBit 5,
      x.toNat.testBit 4]) = octet0 w x := by
  have bw : w.toNat < 64 := hw
  have bx : x.toNat < 64 := hx
  have number := ofBits_append [w.toNat.testBit 5, w.toNat.testBit 4, w.toNat.testBit 3,
    w.toNat.testBit 2, w.toNat.testBit 1, w.toNat.testBit 0] [x.toNat.testBit 5, x.toNat.testBit 4]
  simp only [List.cons_append, List.nil_append, ofBits_six bw, ofBits_highTwo bx] at number
  apply UInt8.toNat_inj.mp
  rw [octet0_toNat, UInt8.toNat_ofNat', number]
  show (4 * w.toNat + x.toNat / 16) % 256 = _
  omega

theorem ofBits_octet1 (hx : x < 64) (hy : y < 64) :
    UInt8.ofNat (ofBits [x.toNat.testBit 3, x.toNat.testBit 2, x.toNat.testBit 1,
      x.toNat.testBit 0, y.toNat.testBit 5, y.toNat.testBit 4, y.toNat.testBit 3,
      y.toNat.testBit 2]) = octet1 x y := by
  have bx : x.toNat < 64 := hx
  have bounds : y.toNat < 64 := hy
  have number := ofBits_append [x.toNat.testBit 3, x.toNat.testBit 2, x.toNat.testBit 1,
    x.toNat.testBit 0] [y.toNat.testBit 5, y.toNat.testBit 4, y.toNat.testBit 3, y.toNat.testBit 2]
  simp only [List.cons_append, List.nil_append, ofBits_lowFour, ofBits_highFour bounds] at number
  apply UInt8.toNat_inj.mp
  rw [octet1_toNat, UInt8.toNat_ofNat', number]
  show (16 * (x.toNat % 16) + y.toNat / 4) % 256 = _
  omega

theorem ofBits_octet2 (hy : y < 64) (hz : z < 64) :
    UInt8.ofNat (ofBits [y.toNat.testBit 1, y.toNat.testBit 0, z.toNat.testBit 5,
      z.toNat.testBit 4, z.toNat.testBit 3, z.toNat.testBit 2, z.toNat.testBit 1,
      z.toNat.testBit 0]) = octet2 y z := by
  have bounds : y.toNat < 64 := hy
  have bz : z.toNat < 64 := hz
  have number := ofBits_append [y.toNat.testBit 1, y.toNat.testBit 0] [z.toNat.testBit 5,
    z.toNat.testBit 4, z.toNat.testBit 3, z.toNat.testBit 2, z.toNat.testBit 1, z.toNat.testBit 0]
  simp only [List.cons_append, List.nil_append, ofBits_lowTwo, ofBits_six bz] at number
  apply UInt8.toNat_inj.mp
  rw [octet2_toNat, UInt8.toNat_ofNat', number]
  show (64 * (y.toNat % 4) + z.toNat) % 256 = _
  omega

end

/-- The reference on base64 characters is what the decoder computes from them. -/
theorem octets_sixBits (chars : Str) : (∀ c ∈ chars, isBase64 c = true) →
    octets (chars.flatMap sixBits) = decodeChars chars := by
  induction chars using groups_induction with
  | short chars short =>
      intro alphabet
      have value (c : UInt8) (member : c ∈ chars) : base64Chars.idxOf c = (find c).toNat ∧
          find c < 64 := ⟨idxOf_eq c (alphabet c member), find_lt c (alphabet c member)⟩
      rcases chars with _ | ⟨a, _ | ⟨b, _ | ⟨c, _ | ⟨d, more⟩⟩⟩⟩
      case nil => rfl
      case cons.nil => rfl
      case cons.cons.nil =>
          obtain ⟨va, ha⟩ := value a (by simp)
          obtain ⟨vb, hb⟩ := value b (by simp)
          have first := ofBits_octet0 (find a) (find b) ha hb
          simp only [List.flatMap_cons, List.flatMap_nil, sixBits, va, vb, List.map_cons,
            List.map_nil, List.cons_append, List.nil_append, octets, decodeChars]
          rw [first]
      case cons.cons.cons.nil =>
          obtain ⟨va, ha⟩ := value a (by simp)
          obtain ⟨vb, hb⟩ := value b (by simp)
          obtain ⟨vc, hc⟩ := value c (by simp)
          have first := ofBits_octet0 (find a) (find b) ha hb
          have second := ofBits_octet1 (find b) (find c) hb hc
          simp only [List.flatMap_cons, List.flatMap_nil, sixBits, va, vb, vc, List.map_cons,
            List.map_nil, List.cons_append, List.nil_append, octets, decodeChars]
          rw [first, second]
      case cons.cons.cons.cons =>
          simp only [List.length_cons] at short
          omega
  | group a b c d more ih =>
      intro alphabet
      have value (x : UInt8) (member : x ∈ a :: b :: c :: d :: more) :
          base64Chars.idxOf x = (find x).toNat ∧ find x < 64 :=
        ⟨idxOf_eq x (alphabet x member), find_lt x (alphabet x member)⟩
      obtain ⟨va, ha⟩ := value a (by simp)
      obtain ⟨vb, hb⟩ := value b (by simp)
      obtain ⟨vc, hc⟩ := value c (by simp)
      obtain ⟨vd, hd⟩ := value d (by simp)
      have first := ofBits_octet0 (find a) (find b) ha hb
      have second := ofBits_octet1 (find b) (find c) hb hc
      have third := ofBits_octet2 (find c) (find d) hc hd
      have rest := ih fun x member => alphabet x (by simp [member])
      simp only [List.flatMap_cons, sixBits, va, vb, vc, vd, List.map_cons, List.map_nil,
        List.cons_append, List.nil_append, octets, decodeChars]
      rw [first, second, third, ← rest]

theorem octets_append (bits more : List Bool) : octets bits <+: octets (bits ++ more) := by
  induction bits using octets.induct with
  | case1 b7 b6 b5 b4 b3 b2 b1 b0 rest ih => exact List.cons_prefix_cons.mpr ⟨rfl, ih⟩
  | case2 bits short =>
      rw [octets.eq_def]
      split
      · exact (short _ _ _ _ _ _ _ _ _ rfl).elim
      · exact List.nil_prefix

/-- Fewer characters give the first of the bytes. -/
theorem decodeChars_take (chars : Str) (alphabet : ∀ c ∈ chars, isBase64 c = true) (n : Nat) :
    decodeChars (chars.take n) <+: decodeChars chars := by
  rw [← octets_sixBits chars alphabet,
    ← octets_sixBits _ fun c member => alphabet c (List.mem_of_mem_take member)]
  conv_rhs => rw [← List.take_append_drop n chars, List.flatMap_append]
  exact octets_append _ _

/-- The decoder returns three bytes for four characters of the prefix, and they are those of
the reference. -/
def DecodesPrefix (encoded : Str) (len : UInt32) : Prop :=
  ∀ (scratch : Scratch) (buf : HeapBuffer),
    (base64DecodeFrom scratch encoded len).result =
        .ok (3 * (base64Prefix encoded).length / 4 : Nat) ∧
      ((base64DecodeFrom scratch encoded len).memory buf).load 0
        (3 * (base64Prefix encoded).length / 4) = reference encoded

theorem isBase64_of_mem (encoded : Str) : ∀ c ∈ base64Prefix encoded, isBase64 c = true :=
  fun _ member => List.mem_takeWhile_imp member

theorem reference_eq (encoded : Str) : reference encoded = decodeChars (base64Prefix encoded) :=
  octets_sixBits _ (isBase64_of_mem encoded)

/-- A call that does not exhaust its counter decodes what the loop takes. -/
theorem base64DecodeFrom_finish (scratch : Scratch) (encoded : Str) (len : UInt32)
    (room : 3 * (base64Prefix encoded).length / 4 < len.toNat) (ends : ¬ Exhausted encoded) :
    base64DecodeFrom scratch encoded len = finish (decodeChars (taken encoded)) := by
  have fewer : (taken encoded).length ≤ (base64Prefix encoded).length := by
    rw [taken_length]
    omega
  have fits : ([] : Str).length + (decodeChars (taken encoded)).length < len.toNat := by
    rw [decodeChars_length, List.length_nil]
    omega
  rw [base64DecodeFrom_eq_decodeGroups, decide_eq_false ends, decodeGroups_ok len _ [] fits,
    List.nil_append]

/-- With room for its bytes a string is decoded like its prefix exactly if the counter lets
the loop take the characters of all these bytes. -/
theorem decodesPrefix_iff (encoded : Str) (len : UInt32)
    (room : 3 * (base64Prefix encoded).length / 4 < len.toNat) :
    DecodesPrefix encoded len ↔
      if 0 ≤ toInt32 encoded.length then
        3 * (base64Prefix encoded).length / 4 ≤ 3 * toInt32 encoded.length / 4
      else (base64Prefix encoded).length < toInt32 encoded.length + 2147483648 := by
  have word := len.toNat_lt
  have least := toInt32_least encoded.length
  have length := taken_length encoded
  by_cases exhausted : Exhausted encoded
  · obtain ⟨negative, most⟩ := exhausted
    have counter := counted_of_neg negative least
    rw [if_neg (by omega)]
    constructor
    · intro decodes
      obtain ⟨returned, _⟩ := decodes (fun _ => 0) (HeapBuffer.alloc 0)
      have fits : ([] : Str).length + 3 * ((taken encoded).length / 4) < len.toNat := by
        rw [List.length_nil]
        omega
      rw [base64DecodeFrom_eq_decodeGroups, decide_eq_true ⟨negative, most⟩,
        decodeGroups_overflow len (taken encoded) [] fits] at returned
      cases returned
    · intro fewer
      omega
  · have bytes : (decodeChars (taken encoded)).length = 3 * (taken encoded).length / 4 :=
      decodeChars_length _
    have bounded : counted (toInt32 encoded.length) < 2147483648 := by
      have below : toInt32 encoded.length < 2147483648 := by
        unfold toInt32
        split <;> omega
      unfold counted
      split <;> omega
    have run (scratch : Scratch) := base64DecodeFrom_finish scratch encoded len room exhausted
    have returns : (finish (decodeChars (taken encoded))).result =
        .ok ((decodeChars (taken encoded)).length : Int) := by
      rw [finish_eq (by omega)]
    have decodes_iff : DecodesPrefix encoded len ↔
        3 * (taken encoded).length / 4 = 3 * (base64Prefix encoded).length / 4 := by
      constructor
      · intro decodes
        obtain ⟨returned, _⟩ := decodes (fun _ => 0) (HeapBuffer.alloc 0)
        rw [run, returns] at returned
        have same := Except.ok.inj returned
        omega
      · intro same scratch buf
        have whole : decodeChars (taken encoded) = reference encoded := by
          rw [reference_eq]
          apply (decodeChars_take _ (isBase64_of_mem encoded) _).eq_of_length
          rw [decodeChars_length (base64Prefix encoded), ← same]
          exact bytes
        have loaded := memory_finish_load (decodeChars (taken encoded)) buf (by omega)
        rw [run, returns, ← same, ← bytes, loaded, whole]
        exact ⟨rfl, rfl⟩
    rw [decodes_iff]
    by_cases nonneg : 0 ≤ toInt32 encoded.length
    · have counter := counted_of_nonneg nonneg
      rw [if_pos nonneg]
      by_cases whole : (base64Prefix encoded).length ≤ counted (toInt32 encoded.length)
      · have all : (taken encoded).length = (base64Prefix encoded).length := by omega
        rw [all]
        omega
      · have cut : ((taken encoded).length : Int) = toInt32 encoded.length := by omega
        have fewer : 3 * (taken encoded).length / 4 ≤ 3 * (base64Prefix encoded).length / 4 :=
          Nat.div_le_div_right (by omega)
        rw [← cut]
        norm_cast
        exact ⟨fun same => same.ge, fun most => Nat.le_antisymm fewer most⟩
    · have counter := counted_of_neg (by omega) least
      have fewer : (base64Prefix encoded).length < counted (toInt32 encoded.length) := by
        by_contra most
        exact exhausted ⟨by omega, by omega⟩
      rw [if_neg nonneg]
      omega

/-- Two characters, a pad and a line break. -/
theorem decodesPrefix_iff_pad :
    DecodesPrefix (str "SlA=\n") 5000 ↔
      if 0 ≤ toInt32 (str "SlA=\n").length then
        3 * (base64Prefix (str "SlA=\n")).length / 4 ≤ 3 * toInt32 (str "SlA=\n").length / 4
      else (base64Prefix (str "SlA=\n")).length < toInt32 (str "SlA=\n").length + 2147483648 :=
  decodesPrefix_iff (str "SlA=\n") 5000 (by decide)

/-- The length of a string of `2 ^ 32` characters is zero as an `int`, and no byte is
decoded. -/
theorem long_prefix_lost :
    3 * (base64Prefix (List.replicate 4294967296 65)).length / 4 < (3221225473 : UInt32).toNat ∧
      ¬ DecodesPrefix (List.replicate 4294967296 65) 3221225473 := by
  have whole : base64Prefix (List.replicate 4294967296 65) = List.replicate 4294967296 65 := by
    apply List.takeWhile_eq_self_iff.mpr
    intro c member
    rw [List.eq_of_mem_replicate member]
    rfl
  have room : 3 * (base64Prefix (List.replicate 4294967296 65)).length / 4 <
      (3221225473 : UInt32).toNat := by
    rw [whole, List.length_replicate]
    decide
  have zero : toInt32 4294967296 = 0 := by decide
  have running : ¬ Exhausted (List.replicate 4294967296 65) := by
    rintro ⟨negative, _⟩
    rw [List.length_replicate, zero] at negative
    omega
  have nothing : taken (List.replicate 4294967296 65) = [] := by
    apply List.length_eq_zero_iff.mp
    rw [taken_length, List.length_replicate, zero]
    exact Nat.zero_min _
  refine ⟨room, fun decodes => ?_⟩
  obtain ⟨returned, _⟩ := decodes (fun _ => 0) (HeapBuffer.alloc 0)
  rw [base64DecodeFrom_finish _ _ _ room running, nothing, whole, List.length_replicate] at returned
  have same : (0 : Int) = 3221225472 := Except.ok.inj returned
  omega

end JP4Agent.Base64
