import JP4Agent.Base64

set_option autoImplicit false

/- The codec group by group. The two state machines compute the plain recursions
`encodeBytes` and `decodeChars` below, whatever their scratch arrays hold. -/
namespace JP4Agent.Base64

/-- The alphabet has a character for each six-bit value, and finds it again. -/
theorem alphabet_charAt :
    ∀ v : UInt8, v < 64 → find (charAt v) = v ∧ isBase64 (charAt v) = true := by
  decide +kernel

theorem alphabet_find : ∀ c : UInt8, isBase64 c = true → charAt (find c) = c ∧ find c < 64 := by
  decide +kernel

theorem find_charAt (v : UInt8) (six : v < 64) : find (charAt v) = v := (alphabet_charAt v six).1

theorem isBase64_charAt (v : UInt8) (six : v < 64) : isBase64 (charAt v) = true :=
  (alphabet_charAt v six).2

theorem charAt_find (c : UInt8) (alphabet : isBase64 c = true) : charAt (find c) = c :=
  (alphabet_find c alphabet).1

theorem find_lt (c : UInt8) (alphabet : isBase64 c = true) : find c < 64 :=
  (alphabet_find c alphabet).2

theorem isBase64_pad : isBase64 pad = false := by decide

section
variable (a b c : UInt8)

theorem sextet0_toNat : (sextet0 a).toNat = a.toNat / 4 := by
  have ha := a.toNat_lt
  have bits : (sextet0 a).toNat = a.toNat / 4 % 64 := mask_shiftRight a 0xfc 2 6 rfl
  omega

theorem sextet1_toNat : (sextet1 a b).toNat = a.toNat % 4 * 16 + b.toNat / 16 := by
  have high : ((a &&& 0x03) <<< 4).toNat = a.toNat % 4 * 16 :=
    mask_shiftLeft a 0x03 4 2 rfl (by decide)
  have low : ((b &&& 0xf0) >>> 4).toNat = b.toNat / 16 % 16 := mask_shiftRight b 0xf0 4 4 rfl
  have hb := b.toNat_lt
  rw [sextet1, UInt8.toNat_add, high, low]
  omega

theorem sextet2_toNat : (sextet2 b c).toNat = b.toNat % 16 * 4 + c.toNat / 64 := by
  have high : ((b &&& 0x0f) <<< 2).toNat = b.toNat % 16 * 4 :=
    mask_shiftLeft b 0x0f 2 4 rfl (by decide)
  have low : ((c &&& 0xc0) >>> 6).toNat = c.toNat / 64 % 4 := mask_shiftRight c 0xc0 6 2 rfl
  have hc := c.toNat_lt
  rw [sextet2, UInt8.toNat_add, high, low]
  omega

theorem sextet3_toNat : (sextet3 c).toNat = c.toNat % 64 := mask_toNat c 0x3f 6 rfl

theorem sextet0_lt : sextet0 a < 64 := by
  have ha := a.toNat_lt
  rw [UInt8.lt_iff_toNat_lt, sextet0_toNat]
  change _ < 64
  omega

theorem sextet1_lt : sextet1 a b < 64 := by
  have hb := b.toNat_lt
  rw [UInt8.lt_iff_toNat_lt, sextet1_toNat]
  change _ < 64
  omega

theorem sextet2_lt : sextet2 b c < 64 := by
  have hc := c.toNat_lt
  rw [UInt8.lt_iff_toNat_lt, sextet2_toNat]
  change _ < 64
  omega

theorem sextet3_lt : sextet3 c < 64 := by
  rw [UInt8.lt_iff_toNat_lt, sextet3_toNat]
  change _ < 64
  omega

end

section
variable (w x y z : UInt8)

theorem octet0_toNat : (octet0 w x).toNat = (w.toNat * 4 + x.toNat / 16 % 4) % 256 := by
  have high : (w <<< 2).toNat = w.toNat * 4 % 256 := shiftLeft_toNat w 2
  have low : ((x &&& 0x30) >>> 4).toNat = x.toNat / 16 % 4 := mask_shiftRight x 0x30 4 2 rfl
  rw [octet0, UInt8.toNat_add, high, low]
  omega

theorem octet1_toNat : (octet1 x y).toNat = x.toNat % 16 * 16 + y.toNat / 4 % 16 := by
  have high : ((x &&& 0xf) <<< 4).toNat = x.toNat % 16 * 16 :=
    mask_shiftLeft x 0x0f 4 4 rfl (by decide)
  have low : ((y &&& 0x3c) >>> 2).toNat = y.toNat / 4 % 16 := mask_shiftRight y 0x3c 2 4 rfl
  rw [octet1, UInt8.toNat_add, high, low]
  omega

theorem octet2_toNat : (octet2 y z).toNat = (y.toNat % 4 * 64 + z.toNat) % 256 := by
  have high : ((y &&& 0x3) <<< 6).toNat = y.toNat % 4 * 64 :=
    mask_shiftLeft y 0x03 6 2 rfl (by decide)
  rw [octet2, UInt8.toNat_add, high]

end

/-- Three bytes through four sextets and back. -/
theorem octets_sextets (a b c : UInt8) :
    octet0 (sextet0 a) (sextet1 a b) = a ∧
      octet1 (sextet1 a b) (sextet2 b c) = b ∧
      octet2 (sextet2 b c) (sextet3 c) = c := by
  have ha := a.toNat_lt
  have hb := b.toNat_lt
  have hc := c.toNat_lt
  refine ⟨?_, ?_, ?_⟩ <;> apply UInt8.toNat_inj.mp
  · rw [octet0_toNat, sextet0_toNat, sextet1_toNat]
    omega
  · rw [octet1_toNat, sextet1_toNat, sextet2_toNat]
    omega
  · rw [octet2_toNat, sextet2_toNat, sextet3_toNat]
    omega

/-- Four six-bit values through three bytes and back. -/
theorem sextets_octets (w x y z : UInt8) (hw : w < 64) (hx : x < 64) (hy : y < 64)
    (hz : z < 64) :
    sextet0 (octet0 w x) = w ∧
      sextet1 (octet0 w x) (octet1 x y) = x ∧
      sextet2 (octet1 x y) (octet2 y z) = y ∧
      sextet3 (octet2 y z) = z := by
  have lw : w.toNat < 64 := UInt8.lt_iff_toNat_lt.mp hw
  have lx : x.toNat < 64 := UInt8.lt_iff_toNat_lt.mp hx
  have ly : y.toNat < 64 := UInt8.lt_iff_toNat_lt.mp hy
  have lz : z.toNat < 64 := UInt8.lt_iff_toNat_lt.mp hz
  refine ⟨?_, ?_, ?_, ?_⟩ <;> apply UInt8.toNat_inj.mp
  · rw [sextet0_toNat, octet0_toNat]
    omega
  · rw [sextet1_toNat, octet0_toNat, octet1_toNat]
    omega
  · rw [sextet2_toNat, octet1_toNat, octet2_toNat]
    omega
  · rw [sextet3_toNat, octet2_toNat]
    omega

/-- What the encoder computes. -/
def encodeBytes : Str → Str
  | a :: b :: c :: rest =>
    charAt (sextet0 a) :: charAt (sextet1 a b) :: charAt (sextet2 b c) :: charAt (sextet3 c) ::
      encodeBytes rest
  | [a, b] => [charAt (sextet0 a), charAt (sextet1 a b), charAt (sextet2 b 0), pad]
  | [a] => [charAt (sextet0 a), charAt (sextet1 a 0), pad, pad]
  | [] => []

/-- What the decoder computes from base64 characters. -/
def decodeChars : Str → Str
  | a :: b :: c :: d :: rest =>
    octet0 (find a) (find b) :: octet1 (find b) (find c) :: octet2 (find c) (find d) ::
      decodeChars rest
  | [a, b, c] => [octet0 (find a) (find b), octet1 (find b) (find c)]
  | [a, b] => [octet0 (find a) (find b)]
  | _ => []

theorem encodeLoop_eq (bytes : Str) : ∀ (scratch : Scratch) (ret : Str),
    encodeTail (bytes.foldl encodeStep ⟨0, scratch, ret⟩) = ret ++ encodeBytes bytes := by
  induction bytes using encodeBytes.induct with
  | case1 a b c rest ih =>
      intro scratch ret
      have group : encodeStep (encodeStep (encodeStep ⟨0, scratch, ret⟩ a) b) c =
          ⟨0, ((scratch.set 0 a).set 1 b).set 2 c, ret ++ [charAt (sextet0 a),
            charAt (sextet1 a b), charAt (sextet2 b c), charAt (sextet3 c)]⟩ := by
        simp [encodeStep, Scratch.set]
      rw [List.foldl_cons, List.foldl_cons, List.foldl_cons, group, ih, encodeBytes,
        List.append_assoc]
      rfl
  | case2 a b => intro scratch ret; simp [encodeStep, encodeTail, Scratch.set, encodeBytes]
  | case3 a => intro scratch ret; simp [encodeStep, encodeTail, Scratch.set, encodeBytes]
  | case4 => intro scratch ret; simp [encodeTail, encodeBytes]

/-- The encoder never reads a scratch byte it has not written. -/
theorem base64EncodeFrom_eq (scratch : Scratch) (bytes : Str) :
    base64EncodeFrom scratch bytes = encodeBytes bytes := encodeLoop_eq bytes scratch []

theorem base64Encode_eq (bytes : Str) : base64Encode bytes = encodeBytes bytes :=
  base64EncodeFrom_eq _ bytes

theorem encodeBytes_length (bytes : Str) :
    (encodeBytes bytes).length = 4 * ((bytes.length + 2) / 3) := by
  induction bytes using encodeBytes.induct with
  | case1 a b c rest ih => simp only [encodeBytes, List.length_cons, ih]; omega
  | case2 a b => simp [encodeBytes]
  | case3 a => simp [encodeBytes]
  | case4 => simp [encodeBytes]

/-- Induction over the groups of four characters. -/
@[elab_as_elim] theorem groups_induction {motive : Str → Prop}
    (short : ∀ chars, chars.length < 4 → motive chars)
    (group : ∀ a b c d more, motive more → motive (a :: b :: c :: d :: more)) (chars : Str) :
    motive chars := by
  induction chars using decodeChars.induct with
  | case1 a b c d more ih => exact group a b c d more ih
  | case2 a b c => exact short [a, b, c] (by simp)
  | case3 a b => exact short [a, b] (by simp)
  | case4 chars long three two =>
      apply short
      rcases chars with _ | ⟨a, _ | ⟨b, _ | ⟨c, _ | ⟨d, more⟩⟩⟩⟩
      case cons.cons.cons.cons => exact absurd rfl (long a b c d more)
      all_goals simp

theorem decodeChars_length (chars : Str) : (decodeChars chars).length = 3 * chars.length / 4 := by
  induction chars using groups_induction with
  | short chars short =>
      rcases chars with _ | ⟨a, _ | ⟨b, _ | ⟨c, _ | ⟨d, more⟩⟩⟩⟩
      case cons.cons.cons.cons =>
        simp only [List.length_cons] at short
        omega
      all_goals simp [decodeChars]
  | group a b c d rest ih =>
      simp only [decodeChars, List.length_cons, ih]
      omega

/-- The encoding is base64 characters that decode to the bytes, then at most two pads. -/
theorem encodeBytes_split (bytes : Str) :
    ∃ chars pads, encodeBytes bytes = chars ++ pads ∧ (∀ c ∈ chars, isBase64 c = true) ∧
      (pads = [] ∨ pads = [pad] ∨ pads = [pad, pad]) ∧ decodeChars chars = bytes := by
  induction bytes using encodeBytes.induct with
  | case1 a b c rest ih =>
      obtain ⟨chars, pads, split, alphabet, padding, decoded⟩ := ih
      refine ⟨charAt (sextet0 a) :: charAt (sextet1 a b) :: charAt (sextet2 b c) ::
        charAt (sextet3 c) :: chars, pads, ?_, ?_, padding, ?_⟩
      · rw [encodeBytes, split]
        rfl
      · simp only [List.mem_cons]
        rintro d (rfl | rfl | rfl | rfl | member)
        · exact isBase64_charAt _ (sextet0_lt a)
        · exact isBase64_charAt _ (sextet1_lt a b)
        · exact isBase64_charAt _ (sextet2_lt b c)
        · exact isBase64_charAt _ (sextet3_lt c)
        · exact alphabet d member
      · have group := octets_sextets a b c
        rw [decodeChars, decoded, find_charAt _ (sextet0_lt a), find_charAt _ (sextet1_lt a b),
          find_charAt _ (sextet2_lt b c), find_charAt _ (sextet3_lt c), group.1, group.2.1,
          group.2.2]
  | case2 a b =>
      refine ⟨[charAt (sextet0 a), charAt (sextet1 a b), charAt (sextet2 b 0)], [pad], rfl, ?_,
        Or.inr (Or.inl rfl), ?_⟩
      · simp only [List.mem_cons, List.not_mem_nil, or_false]
        rintro d (rfl | rfl | rfl)
        · exact isBase64_charAt _ (sextet0_lt a)
        · exact isBase64_charAt _ (sextet1_lt a b)
        · exact isBase64_charAt _ (sextet2_lt b 0)
      · have group := octets_sextets a b 0
        rw [decodeChars, find_charAt _ (sextet0_lt a), find_charAt _ (sextet1_lt a b),
          find_charAt _ (sextet2_lt b 0), group.1, group.2.1]
  | case3 a =>
      refine ⟨[charAt (sextet0 a), charAt (sextet1 a 0)], [pad, pad], rfl, ?_,
        Or.inr (Or.inr rfl), ?_⟩
      · simp only [List.mem_cons, List.not_mem_nil, or_false]
        rintro d (rfl | rfl)
        · exact isBase64_charAt _ (sextet0_lt a)
        · exact isBase64_charAt _ (sextet1_lt a 0)
      · have group := octets_sextets a 0 0
        rw [decodeChars, find_charAt _ (sextet0_lt a), find_charAt _ (sextet1_lt a 0), group.1]
  | case4 => exact ⟨[], [], rfl, by simp, Or.inl rfl, rfl⟩

end JP4Agent.Base64
