import JP4Agent.CLIService

set_option autoImplicit false

namespace JP4Agent.CLIService

/-- The text has no blank and no tab. -/
def IsWord (text : Str) : Prop := ∀ c ∈ text, (c = 9 || c = 32) = false

instance (text : Str) : Decidable (IsWord text) := inferInstanceAs (Decidable (∀ c ∈ text, _))

theorem split_word {text : Str} (word : IsWord text) : split text = [text] :=
  List.splitOnP_eq_singleton word

theorem split_append (text rest : Str) : split (text ++ 32 :: rest) = split text ++ split rest :=
  List.splitOnP_append_cons text rest (by decide)

/-- A text with blanks or tabs is split. -/
theorem split_length {text : Str} (blanks : ¬ IsWord text) : 2 ≤ (split text).length := by
  unfold IsWord at blanks
  push Not at blanks
  obtain ⟨c, member, blank⟩ := blanks
  obtain ⟨before, after, rfl⟩ := List.append_of_mem member
  have parts : split (before ++ c :: after) = split before ++ split after :=
    List.splitOnP_append_cons before after (by simpa [or_iff_not_imp_left] using blank)
  have first := List.length_pos_of_ne_nil (List.splitOnP_ne_nil (fun c => c = 9 || c = 32) before)
  have second := List.length_pos_of_ne_nil (List.splitOnP_ne_nil (fun c => c = 9 || c = 32) after)
  show 2 ≤ (split (before ++ c :: after)).length
  rw [parts, List.length_append]
  exact Nat.add_le_add first second

section
variable {cmdstr : Str} {args : List Str}

theorem command_addTableEntry {tblname pfx plen : Str}
    (tokens : split cmdstr = [str "add-table-entry", tblname, pfx, plen]) :
    command cmdstr = (stoi plen).map fun plen => .addTableEntry tblname pfx plen := by
  rw [command, tokens]
  exact if_pos rfl

theorem command_addTableEntry_count (tokens : split cmdstr = str "add-table-entry" :: args)
    (count : ∀ tblname pfx plen, args ≠ [tblname, pfx, plen]) : command cmdstr = some (.invalid
      (str "Invalid cmd. Please specify table name, prefix and prefix length.")) := by
  rw [command, tokens]
  dsimp only
  rw [if_pos rfl]
  split
  · exact absurd rfl (count _ _ _)
  · rfl

theorem command_addTable {tblname keyField protocol defNxtObj tblsz : Str}
    (tokens : split cmdstr =
      [str "add-table", tblname, keyField, protocol, defNxtObj, tblsz]) :
    command cmdstr = (stoi protocol).bind fun protocol => (stoul tblsz).map fun tblsz =>
      .addTable tblname keyField protocol defNxtObj tblsz := by
  rw [command, tokens]
  dsimp only
  rw [if_neg (by decide), if_pos rfl]

theorem command_addTable_count (tokens : split cmdstr = str "add-table" :: args)
    (count : ∀ tblname keyField protocol defNxtObj tblsz,
      args ≠ [tblname, keyField, protocol, defNxtObj, tblsz]) :
    command cmdstr = some (.invalid (str "Invalid add-table cmd.")) := by
  rw [command, tokens]
  dsimp only
  rw [if_neg (by decide), if_pos rfl]
  split
  · exact absurd rfl (count _ _ _ _ _)
  · rfl

theorem command_showAfiObjects (tokens : split cmdstr = str "show-afi-objects" :: args) :
    command cmdstr = some .showAfiObjects := by
  rw [command, tokens]
  dsimp only
  rw [if_neg (by decide), if_neg (by decide), if_pos rfl]

theorem command_unknown {cmd : Str} (tokens : split cmdstr = cmd :: args)
    (unknown : cmd ∉ [str "add-table-entry", str "add-table", str "show-afi-objects"]) :
    command cmdstr = some (.invalid (str "Invalid cmd: " ++ cmd)) := by
  simp only [List.mem_cons, List.not_mem_nil, or_false, not_or] at unknown
  rw [command, tokens]
  dsimp only
  rw [if_neg unknown.1, if_neg unknown.2.1, if_neg unknown.2.2]

end

/-- The value of a text that is all digits. -/
def digitsValue (digits : Str) : Option Nat :=
  if digits ≠ [] ∧ digits.all isDigit then
    some (digits.foldl (fun n c => 10 * n + (c.toNat - 48)) 0)
  else none

/-- The value of a decimal numeral: digits with a sign or without, and nothing else. -/
def numeral (text : Str) : Option Int :=
  match text with
  | 45 :: digits => (digitsValue digits).map fun n : Nat => -(n : Int)
  | 43 :: digits => (digitsValue digits).map fun n : Nat => (n : Int)
  | digits => (digitsValue digits).map fun n : Nat => (n : Int)

theorem digitsValue_some {digits : Str} {n : Nat} (value : digitsValue digits = some n) :
    digits ≠ [] ∧ digits.takeWhile isDigit = digits ∧
      digits.foldl (fun n c => 10 * n + (c.toNat - 48)) 0 = n := by
  obtain ⟨⟨nonempty, all⟩, same⟩ := Option.ite_none_right_eq_some.mp value
  refine ⟨nonempty, ?_, Option.some.inj same⟩
  rw [List.takeWhile_eq_self_iff]
  exact List.all_eq_true.mp all

/-- No digit is a white space. -/
theorem not_isSpace {c : UInt8} (digit : isDigit c = true) : isSpace c = false := by
  simp only [isDigit, Bool.and_eq_true, decide_eq_true_eq, UInt8.le_iff_toNat_le] at digit
  have low : 48 ≤ c.toNat := digit.1
  rw [isSpace, Bool.or_eq_false_iff, Bool.and_eq_false_iff, decide_eq_false_iff_not,
    decide_eq_false_iff_not, decide_eq_false_iff_not, UInt8.le_iff_toNat_le, UInt8.le_iff_toNat_le,
    ← UInt8.toNat_inj]
  show ¬ c.toNat = 32 ∧ (¬ 9 ≤ c.toNat ∨ ¬ c.toNat ≤ 13)
  omega

/-- `strtol` and `strtoul` read the whole of a numeral. -/
theorem readNumber_numeral {text : Str} {value : Int} (valid : numeral text = some value) :
    ∃ negative n, readNumber text = some (negative, n) ∧
      value = if negative then -(n : Int) else n := by
  unfold numeral at valid
  split at valid
  · rename_i digits
    obtain ⟨n, all, rfl⟩ := Option.map_eq_some_iff.mp valid
    obtain ⟨nonempty, whole, same⟩ := digitsValue_some all
    refine ⟨true, n, ?_, rfl⟩
    have start : (45 :: digits).dropWhile isSpace = 45 :: digits := rfl
    rw [readNumber, start]
    split
    rename_i signed
    obtain ⟨rfl, rfl⟩ := Prod.mk.inj (show (true, digits) = (_, _) from signed)
    rw [whole]
    split
    · exact absurd rfl nonempty
    · rw [same]
  · rename_i digits
    obtain ⟨n, all, rfl⟩ := Option.map_eq_some_iff.mp valid
    obtain ⟨nonempty, whole, same⟩ := digitsValue_some all
    refine ⟨false, n, ?_, rfl⟩
    have start : (43 :: digits).dropWhile isSpace = 43 :: digits := rfl
    rw [readNumber, start]
    split
    rename_i signed
    obtain ⟨rfl, rfl⟩ := Prod.mk.inj (show (false, digits) = (_, _) from signed)
    rw [whole]
    split
    · exact absurd rfl nonempty
    · rw [same]
  · rename_i minus plus
    obtain ⟨n, all, rfl⟩ := Option.map_eq_some_iff.mp valid
    obtain ⟨nonempty, whole, same⟩ := digitsValue_some all
    refine ⟨false, n, ?_, rfl⟩
    have start : text.dropWhile isSpace = text := by
      cases text with
      | nil => exact absurd rfl nonempty
      | cons c digits =>
          have digit : isDigit c = true := by
            by_contra wrong
            rw [List.takeWhile_cons_of_neg wrong] at whole
            cases whole
          rw [List.dropWhile_cons_of_neg (by simp [not_isSpace digit])]
    rw [readNumber, start]
    split
    rename_i signed
    split at signed
    · exact (minus _ rfl).elim
    · exact (plus _ rfl).elim
    · obtain ⟨rfl, rfl⟩ := Prod.mk.inj signed
      rw [whole]
      split
      · exact absurd rfl nonempty
      · rw [same]

/-- A numeral for an `int`. -/
def IntNumeral (text : Str) (value : Int) : Prop :=
  numeral text = some value ∧ -2147483648 ≤ value ∧ value ≤ 2147483647

/-- A numeral for an `unsigned int`. -/
def UintNumeral (text : Str) (value : Int) : Prop :=
  numeral text = some value ∧ 0 ≤ value ∧ value ≤ 4294967295

theorem stoi_numeral {text : Str} {value : Int} (valid : IntNumeral text value) :
    stoi text = some (Int32.ofInt value) := by
  obtain ⟨negative, n, read, same⟩ := readNumber_numeral valid.1
  rw [stoi, read]
  show (if -2147483648 ≤ (if negative then -(n : Int) else n) ∧
    (if negative then -(n : Int) else n) ≤ 2147483647 then _ else _) = _
  rw [← same, if_pos valid.2]

theorem stoul_numeral {text : Str} {value : Int} (valid : UintNumeral text value) :
    stoul text = some (UInt32.ofNat value.toNat) := by
  obtain ⟨negative, n, read, same⟩ := readNumber_numeral valid.1
  obtain ⟨nonneg, most⟩ := valid.2
  rw [stoul, read]
  dsimp only
  cases negative with
  | false =>
      have number : value = n := same
      rw [if_pos (by omega), number]
      rfl
  | true =>
      -- the numeral is a negative zero
      have number : value = -(n : Int) := same
      obtain rfl : n = 0 := by omega
      rw [number]
      rfl

theorem decimal_eq (n : Nat) :
    decimal n = (Nat.toDigits 10 n).map fun c => c.toNat.toUInt8 := by
  rw [decimal, str, Nat.toString_eq_repr, Nat.toList_repr]

/-- The byte of a digit. -/
theorem digit_toUInt8 {c : Char} (digit : c.isDigit = true) :
    isDigit c.toNat.toUInt8 = true ∧ (c.toNat.toUInt8).toNat = c.toNat := by
  have range : 48 ≤ c.toNat ∧ c.toNat ≤ 57 := Char.isDigit_iff_toNat.mp digit
  have byte : (c.toNat.toUInt8).toNat = c.toNat := by
    rw [Nat.toUInt8, UInt8.toNat_ofNat']
    omega
  refine ⟨?_, byte⟩
  rw [isDigit, Bool.and_eq_true, decide_eq_true_iff, decide_eq_true_iff, UInt8.le_iff_toNat_le,
    UInt8.le_iff_toNat_le, byte]
  exact range

theorem isDigit_decimal (n : Nat) : ∀ c ∈ decimal n, isDigit c = true := by
  rw [decimal_eq, List.forall_mem_map]
  intro c member
  exact (digit_toUInt8 (Nat.isDigit_of_mem_toDigits (by decide) (by decide) member)).1

theorem digitsValue_decimal (n : Nat) : digitsValue (decimal n) = some n := by
  have nonempty : decimal n ≠ [] := by
    rw [decimal_eq]
    simp
  have value : (decimal n).foldl (fun n c => 10 * n + (c.toNat - 48)) 0 = n := by
    have digits : ∀ c ∈ Nat.toDigits 10 n, c.isDigit = true :=
      fun c member => Nat.isDigit_of_mem_toDigits (by decide) (by decide) member
    rw [decimal_eq, List.foldl_map]
    refine (List.foldl_ext _ _ 0 fun total c member => ?_).trans Nat.ofDigitChars_ten_toDigits
    rw [(digit_toUInt8 (digits c member)).2]
    rfl
  rw [digitsValue, if_pos ⟨nonempty, List.all_eq_true.mpr (isDigit_decimal n)⟩, value]

/-- What is printed of a number is a numeral. -/
theorem numeral_decimal (n : Nat) : numeral (decimal n) = some (n : Int) := by
  unfold numeral
  split
  · rename_i minus
    have digit := isDigit_decimal n 45 (by simp [minus])
    cases digit
  · rename_i plus
    have digit := isDigit_decimal n 43 (by simp [plus])
    cases digit
  · rw [digitsValue_decimal]
    rfl

end JP4Agent.CLIService
