import JP4Agent.Library.Bytes
import JP4Agent.Library.Numerals
import JP4Agent.Library.TwoWords

set_option autoImplicit false

namespace JP4Agent

structure Uint128 where
  high : UInt64
  low : UInt64
  deriving DecidableEq, Repr

namespace Uint128

/-- The constructor from an integral type converts the integer to `low_`. -/
def ofInt (i : Int) : Uint128 := ⟨0, UInt64.ofInt i⟩

def addAssign (self other : Uint128) : Uint128 :=
  let high := self.high + other.high
  let newLow := self.low + other.low
  ⟨if newLow < self.low then high + 1 else high, newLow⟩

def subAssign (self other : Uint128) : Uint128 :=
  let high := self.high - other.high
  let newLow := self.low - other.low
  ⟨if self.low < newLow then high - 1 else high, newLow⟩

def eq (a b : Uint128) : Bool := a.high == b.high && a.low == b.low
def ne (a b : Uint128) : Bool := !eq a b
def lt (a b : Uint128) : Bool := a.high < b.high || (a.high == b.high && a.low < b.low)
def le (a b : Uint128) : Bool := a.high < b.high || (a.high == b.high && a.low ≤ b.low)
def gt (a b : Uint128) : Bool := !le a b
def ge (a b : Uint128) : Bool := !lt a b

/-- The operators that change their left operand. -/
inductive Op where
  | addAssign (other : Uint128)
  | subAssign (other : Uint128)
  | preIncrement
  | postIncrement
  | preDecrement
  | postDecrement

/-- The object after the operator, and what the expression is worth. -/
def Op.run (self : Uint128) : Op → Uint128 × Uint128
  | .addAssign other => (self.addAssign other, self.addAssign other)
  | .subAssign other => (self.subAssign other, self.subAssign other)
  | .preIncrement => (self.addAssign (ofInt 1), self.addAssign (ofInt 1))
  | .postIncrement => (self.addAssign (ofInt 1), self)
  | .preDecrement => (self.subAssign (ofInt 1), self.subAssign (ofInt 1))
  | .postDecrement => (self.subAssign (ofInt 1), self)

/-- `std::hex`, with the flags that a stream starts with. -/
def hexDigit (digit : Nat) : UInt8 := if digit < 10 then 48 + digit.toUInt8 else 87 + digit.toUInt8

/-- What `operator<<` prints. -/
def text (n : Uint128) : Str :=
  str "0x" ++
    (if n.high = 0 then (Numerals.numeral 16 n.low.toNat).map hexDigit
    else (Numerals.numeral 16 n.high.toNat).map hexDigit ++
      (Numerals.padded 16 16 n.low.toNat).map hexDigit)

/-- The number that the two words stand for. -/
def toNat (n : Uint128) : Nat := TwoWords.join (2 ^ 64) n.high.toNat n.low.toNat

theorem toNat_lt (n : Uint128) : n.toNat < 2 ^ 128 :=
  TwoWords.join_lt n.high.toNat_lt n.low.toNat_lt

theorem toNat_inj {a b : Uint128} : a.toNat = b.toNat ↔ a = b := by
  rw [toNat, toNat, TwoWords.join_inj _ _ a.low.toNat_lt b.low.toNat_lt, UInt64.toNat_inj,
    UInt64.toNat_inj]
  cases a
  cases b
  simp

theorem addAssign_toNat (a b : Uint128) :
    (a.addAssign b).toNat = (a.toNat + b.toNat) % 2 ^ 128 := by
  have words := TwoWords.join_add a.high.toNat b.high.toNat a.low.toNat_lt b.low.toNat_lt
  have high : (a.addAssign b).high.toNat = (a.high.toNat + b.high.toNat +
      if (a.low.toNat + b.low.toNat) % 2 ^ 64 < a.low.toNat then 1 else 0) % 2 ^ 64 := by
    unfold addAssign
    simp only [UInt64.lt_iff_toNat_lt, UInt64.toNat_add]
    split
    · simp [UInt64.toNat_add, Nat.mod_add_mod]
    · simp [UInt64.toNat_add]
  have low : (a.addAssign b).low.toNat = (a.low.toNat + b.low.toNat) % 2 ^ 64 :=
    UInt64.toNat_add ..
  rw [toNat, high, low, words]
  rfl

theorem subAssign_toNat (a b : Uint128) :
    (a.subAssign b).toNat = (2 ^ 128 - b.toNat + a.toNat) % 2 ^ 128 := by
  have words := TwoWords.join_sub a.high.toNat_lt b.high.toNat_lt a.low.toNat_lt b.low.toNat_lt
  have low : (a.subAssign b).low.toNat = (2 ^ 64 - b.low.toNat + a.low.toNat) % 2 ^ 64 :=
    UInt64.toNat_sub ..
  have high : (a.subAssign b).high.toNat = (2 ^ 64 -
      (if a.low.toNat < (2 ^ 64 - b.low.toNat + a.low.toNat) % 2 ^ 64 then 1 else 0) +
        (2 ^ 64 - b.high.toNat + a.high.toNat) % 2 ^ 64) % 2 ^ 64 := by
    unfold subAssign
    simp only [UInt64.lt_iff_toNat_lt, UInt64.toNat_sub]
    split
    · simp [UInt64.toNat_sub]
    · have below := Nat.mod_lt (2 ^ 64 - b.high.toNat + a.high.toNat) (Nat.two_pow_pos 64)
      rw [UInt64.toNat_sub]
      omega
  rw [toNat, high, low, words]
  rfl

/-- The comparisons compare these numbers. -/
theorem compare_toNat (a b : Uint128) :
    (a.eq b ↔ a.toNat = b.toNat) ∧ (a.ne b ↔ a.toNat ≠ b.toNat) ∧
      (a.lt b ↔ a.toNat < b.toNat) ∧ (a.le b ↔ a.toNat ≤ b.toNat) ∧
      (a.gt b ↔ a.toNat > b.toNat) ∧ (a.ge b ↔ a.toNat ≥ b.toNat) := by
  have less := TwoWords.join_lt_iff a.high.toNat b.high.toNat a.low.toNat_lt b.low.toNat_lt
  have same := TwoWords.join_inj a.high.toNat b.high.toNat a.low.toNat_lt b.low.toNat_lt
  simp only [eq, ne, lt, le, gt, ge, toNat, Bool.and_eq_true, Bool.or_eq_true, Bool.not_eq_true',
    Bool.eq_false_iff, ne_eq, beq_iff_eq, decide_eq_true_eq, ← UInt64.toNat_inj,
    UInt64.lt_iff_toNat_lt, UInt64.le_iff_toNat_le]
  omega

/-- What an operator adds. -/
def Op.delta : Op → Int
  | .addAssign other => other.toNat
  | .subAssign other => -other.toNat
  | .preIncrement => 1
  | .postIncrement => 1
  | .preDecrement => -1
  | .postDecrement => -1

theorem Op.run_toNat (self : Uint128) (op : Op) :
    ((op.run self).1.toNat : Int) = (self.toNat + op.delta) % 2 ^ 128 := by
  have plus (other : Uint128) :
      ((self.addAssign other).toNat : Int) = (self.toNat + other.toNat) % 2 ^ 128 := by
    rw [addAssign_toNat]
    norm_cast
  have minus (other : Uint128) :
      ((self.subAssign other).toNat : Int) = (self.toNat + -other.toNat) % 2 ^ 128 := by
    have below := other.toNat_lt
    rw [subAssign_toNat]
    omega
  cases op with
  | addAssign other => exact plus other
  | subAssign other => exact minus other
  | preIncrement => exact plus (ofInt 1)
  | postIncrement => exact plus (ofInt 1)
  | preDecrement => exact minus (ofInt 1)
  | postDecrement => exact minus (ofInt 1)

/-- The object after these operators, one after another. -/
def runAll (self : Uint128) (ops : List Op) : Uint128 := ops.foldl (fun n op => (op.run n).1) self

theorem runAll_toNat (ops : List Op) : ∀ self : Uint128,
    ((self.runAll ops).toNat : Int) = (self.toNat + (ops.map Op.delta).sum) % 2 ^ 128 := by
  induction ops with
  | nil =>
      intro self
      have below := self.toNat_lt
      show (self.toNat : Int) = (self.toNat + 0) % 2 ^ 128
      omega
  | cons op rest ih =>
      intro self
      have first := op.run_toNat self
      rw [List.map_cons, List.sum_cons]
      show (((op.run self).1.runAll rest).toNat : Int) = _
      rw [ih, first]
      omega

/-- Two numbers that went through any operators compare as the integers with all that was
added to them, modulo `2 ^ 128`. -/
theorem runAll_compare (a b : Uint128) (ops ops' : List Op) :
    let x := (a.toNat + (ops.map Op.delta).sum) % 2 ^ 128
    let y := (b.toNat + (ops'.map Op.delta).sum) % 2 ^ 128
    ((a.runAll ops).eq (b.runAll ops') ↔ x = y) ∧ ((a.runAll ops).ne (b.runAll ops') ↔ x ≠ y) ∧
      ((a.runAll ops).lt (b.runAll ops') ↔ x < y) ∧ ((a.runAll ops).le (b.runAll ops') ↔ x ≤ y) ∧
      ((a.runAll ops).gt (b.runAll ops') ↔ x > y) ∧
      ((a.runAll ops).ge (b.runAll ops') ↔ x ≥ y) := by
  intro x y
  have left : ((a.runAll ops).toNat : Int) = x := runAll_toNat ops a
  have right : ((b.runAll ops').toNat : Int) = y := runAll_toNat ops' b
  obtain ⟨eq, ne, lt, le, gt, ge⟩ := compare_toNat (a.runAll ops) (b.runAll ops')
  rw [eq, ne, lt, le, gt, ge]
  omega

theorem hexDigit_inj {digit digit' : Nat} (h : digit < 16) (h' : digit' < 16)
    (same : hexDigit digit = hexDigit digit') : digit = digit' := by
  have all : ∀ i : Fin 16, ∀ j : Fin 16, hexDigit i = hexDigit j → i = j := by decide
  exact Fin.mk.inj (all ⟨digit, h⟩ ⟨digit', h'⟩ same)

theorem hexDigits_inj {digits : List Nat} : ∀ {digits' : List Nat},
    (∀ digit ∈ digits, digit < 16) → (∀ digit ∈ digits', digit < 16) →
      digits.map hexDigit = digits'.map hexDigit → digits = digits' := by
  induction digits with
  | nil => exact fun _ _ same => (List.map_eq_nil_iff.mp same.symm).symm
  | cons digit rest ih =>
      intro digits' all all' same
      cases digits' with
      | nil => cases same
      | cons digit' rest' =>
          rw [List.forall_mem_cons] at all all'
          rw [List.map_cons, List.map_cons, List.cons.injEq] at same
          rw [hexDigit_inj all.1 all'.1 same.1, ih all.2 all'.2 same.2]

/-- The low word is padded to its sixteen digits, so the words make one numeral. -/
theorem text_eq_numeral (n : Uint128) :
    n.text = str "0x" ++ (Numerals.numeral 16 n.toNat).map hexDigit := by
  rw [text]
  by_cases zero : n.high = 0
  · have value : n.toNat = n.low.toNat := by simp [toNat, TwoWords.join, zero]
    rw [if_pos zero, value]
  · have positive : 0 < n.high.toNat := by
      rw [Nat.pos_iff_ne_zero]
      exact fun wrong => zero (UInt64.toNat_inj.mp wrong)
    have digits := Numerals.numeral_append (by decide) positive (by decide)
      (show n.low.toNat < 16 ^ 16 from n.low.toNat_lt)
    have value : n.toNat = n.high.toNat * 16 ^ 16 + n.low.toNat := rfl
    rw [if_neg zero, value, digits, List.map_append]

/-- The text is the number's numeral, of at most 32 digits, and tells it from all others. -/
theorem text_faithful (n : Uint128) :
    n.text = str "0x" ++ (Numerals.numeral 16 n.toNat).map hexDigit ∧ n.text.length ≤ 34 ∧
      ∀ m : Uint128, m.text = n.text → m = n := by
  refine ⟨text_eq_numeral n, ?_, fun m same => ?_⟩
  · have digits := Numerals.numeral_length_le (by decide) (by decide : 0 < 32)
      (show n.toNat < 16 ^ 32 from n.toNat_lt)
    rw [text_eq_numeral, List.length_append, List.length_map]
    have start : (str "0x").length = 2 := by decide
    omega
  · rw [text_eq_numeral, text_eq_numeral] at same
    have numerals := hexDigits_inj (fun _ => Numerals.digit_lt (by decide))
      (fun _ => Numerals.digit_lt (by decide)) (List.append_cancel_left same)
    exact toNat_inj.mp (Numerals.numeral_injective numerals)

end Uint128
end JP4Agent
