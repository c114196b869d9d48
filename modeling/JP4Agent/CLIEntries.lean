import JP4Agent.AfiReturns
import JP4Agent.CLICommands

set_option autoImplicit false

namespace JP4Agent.CLIService
open Agent Afi AfiDevice P4 P4RuntimeServiceImpl

/-- The address `a.b.c.d` -/
def dotted (a b c d : UInt8) : Str :=
  decimal a.toNat ++ 46 :: (decimal b.toNat ++ 46 :: (decimal c.toNat ++ 46 :: decimal d.toNat))

/-- The command `add-table-entry tblname pfx plen` -/
def addTableEntryCmd (tblname pfx : Str) (plen : Nat) : Str :=
  str "add-table-entry" ++ 32 :: (tblname ++ 32 :: (pfx ++ 32 :: decimal plen))

/-- An entry for an LPM field. -/
def lpmEntry (tableId fieldId : UInt32) (prefixBytes : Str) (prefixLen : Int32)
    (action : TableAction) : TableEntry where
  tableId := tableId
  fieldMatches := [⟨fieldId, .lpm prefixBytes prefixLen⟩]
  action := action
  isDefaultAction := false
  hasMeterConfig := false
  hasCounterData := false

/-- The call leaves a tree entry with this parent and prefix that was not there before. -/
def LeavesEntry {α : Type} (call : AfiM α) (s : Agent) (parentName prefixBytes : Str)
    (prefixLength : UInt64) : Prop :=
  ∃ r t name obj entry, call s = .ok r t ∧ t.lookup name = some obj ∧ s.lookup name ≠ some obj ∧
    obj.value = ⟨.treeEntry, entry⟩ ∧ entry.parentName = some parentName ∧
    entry.prefixBytes = some prefixBytes ∧ entry.prefixLength = some prefixLength

/-- Digits and dots. -/
def IsDotted (text : Str) : Prop := ∀ c ∈ text, c = 46 ∨ isDigit c = true

theorem isDotted_decimal (n : Nat) : IsDotted (decimal n) :=
  fun c member => Or.inr (isDigit_decimal n c member)

theorem IsDotted.dot {text rest : Str} (first : IsDotted text) (second : IsDotted rest) :
    IsDotted (text ++ 46 :: rest) := by
  intro c member
  rcases List.mem_append.mp member with before | after
  · exact first c before
  · rcases List.mem_cons.mp after with same | more
    · exact Or.inl same
    · exact second c more

theorem isDotted_dotted (a b c d : UInt8) : IsDotted (dotted a b c d) :=
  (isDotted_decimal _).dot
    ((isDotted_decimal _).dot ((isDotted_decimal _).dot (isDotted_decimal _)))

theorem IsDotted.range {text : Str} (dotted : IsDotted text) :
    ∀ c ∈ text, 46 ≤ c.toNat ∧ c.toNat ≤ 57 := by
  intro c member
  rcases dotted c member with rfl | digit
  · decide
  · simp only [isDigit, Bool.and_eq_true, decide_eq_true_eq, UInt8.le_iff_toNat_le] at digit
    have low : 48 ≤ c.toNat := digit.1
    have high : c.toNat ≤ 57 := digit.2
    omega

theorem IsDotted.isWord {text : Str} (dotted : IsDotted text) : IsWord text := by
  intro c member
  have range := dotted.range c member
  rw [Bool.or_eq_false_iff, decide_eq_false_iff_not, decide_eq_false_iff_not, ← UInt8.toNat_inj,
    ← UInt8.toNat_inj]
  show ¬ c.toNat = 9 ∧ ¬ c.toNat = 32
  omega

theorem IsDotted.utf8 {text : Str} (dotted : IsDotted text) : ValidUtf8 text := by
  apply validUtf8_ascii
  intro c member
  have range := dotted.range c member
  show c.toNat < 128
  omega

theorem decimal_length (v : UInt8) :
    1 ≤ (decimal v.toNat).length ∧ (decimal v.toNat).length ≤ 3 := by
  have byte := v.toNat_lt
  rw [decimal_eq, List.length_map]
  exact ⟨Nat.length_toDigits_pos,
    (Nat.length_toDigits_le_iff (by omega) (by omega)).mpr (by omega)⟩

theorem dotted_length (a b c d : UInt8) :
    7 ≤ (dotted a b c d).length ∧ (dotted a b c d).length ≤ 15 := by
  have first := decimal_length a
  have second := decimal_length b
  have third := decimal_length c
  have fourth := decimal_length d
  simp only [dotted, List.length_append, List.length_cons]
  omega

theorem split_addTableEntryCmd (tblname : Str) {pfx : Str} (word : IsWord pfx) (plen : Nat) :
    split (addTableEntryCmd tblname pfx plen) =
      str "add-table-entry" :: (split tblname ++ [pfx, decimal plen]) := by
  have name : split (str "add-table-entry") = [str "add-table-entry"] := by decide
  rw [addTableEntryCmd, split_append, split_append, split_append, name, split_word word,
    split_word (isDotted_decimal plen).isWord]
  rfl

theorem stoi_decimal {n : Nat} (small : n < 2147483648) :
    stoi (decimal n) = some (Int32.ofNat n) :=
  stoi_numeral ⟨numeral_decimal n, by omega, by omega⟩

/-- With blanks or tabs in its table name the command has too many arguments. -/
theorem command_addTableEntryCmd_blanks {tblname : Str} (blanks : ¬ IsWord tblname) {pfx : Str}
    (word : IsWord pfx) (plen : Nat) :
    command (addTableEntryCmd tblname pfx plen) = some (.invalid
      (str "Invalid cmd. Please specify table name, prefix and prefix length.")) := by
  apply command_addTableEntry_count (split_addTableEntryCmd tblname word plen)
  intro first second third three
  have pieces := split_length blanks
  have count := congrArg List.length three
  simp only [List.length_append, List.length_cons, List.length_nil] at count
  omega

section
variable (pb : Protobuf) {target : Target} (shipped : Shipped target)
  (roundTrips : pb.RoundTrips)
  (size : ∀ message : AfiTreeEntry, (pb.serialize .treeEntry message).length ≤
    (stringFields .treeEntry message).flatten.length + 512)
include shipped roundTrips size

theorem sendCmd_addTableEntryCmd (s : Agent) {tblname pfx : Str} (word : IsWord tblname)
    (address : IsDotted pfx) (few : pfx.length ≤ 15) {plen : Nat} (small : plen < 2147483648) :
    ∃ t, sendCmd pb target (addTableEntryCmd tblname pfx plen) s =
        .ok (some (str "Added entry to table " ++ tblname)) t ∧
      Handled target s ⟨s.nextAddr, afiTreeEntryJsonObject pb pfx (Int32.ofNat plen), .treeEntry,
        Aft.entryMessage pfx (Int32.ofNat plen)⟩ false t := by
  have short := Aft.entryMessage_short (Int32.ofNat plen) size (show pfx.length ≤ 4096 by omega)
  have parsed := roundTrips .treeEntry (Aft.entryMessage pfx (Int32.ofNat plen))
    ((entryMessage_utf8 pfx _).mpr address.utf8) (show (pb.serialize _ _).length < _ by omega)
  have made := construct_encodeMessage (c := .treeEntry) pb short
  rw [parsed] at made
  obtain ⟨t, added, stored⟩ := addEntry_made shipped made (s := s)
  refine ⟨t, ?_, stored⟩
  have tokens : split (addTableEntryCmd tblname pfx plen) =
      [str "add-table-entry", tblname, pfx, decimal plen] := by
    rw [split_addTableEntryCmd tblname address.isWord, split_word word]
    rfl
  rw [sendCmd, command_addTableEntry tokens, stoi_decimal small]
  exact bind_of_ok added _

theorem sendCmd_not_leavesEntry (s : Agent) (tblname parentName : Str) (a b c d : UInt8)
    {p : Nat} (small : p < 2147483648) (prefixLength : UInt64) :
    ¬ LeavesEntry (sendCmd pb target (addTableEntryCmd tblname (dotted a b c d) p)) s parentName
      [a, b, c, d] prefixLength := by
  rintro ⟨r, t, name, obj, entry, ran, found, new, value, _, key, _⟩
  by_cases word : IsWord tblname
  · have length := dotted_length a b c d
    obtain ⟨t', ran', stored⟩ := sendCmd_addTableEntryCmd pb shipped roundTrips size s word
      (isDotted_dotted a b c d) length.2 small
    obtain ⟨_, rfl⟩ := EStateM.Result.ok.inj (ran'.symm.trans ran)
    rw [stored.lookup] at found
    split at found
    · obtain rfl := Option.some.inj found
      obtain rfl := eq_of_heq (Sigma.mk.inj value).2
      have bytes : dotted a b c d = [a, b, c, d] := Option.some.inj key
      rw [bytes] at length
      exact absurd length.1 (by simp)
    · exact new found
  · rw [sendCmd, command_addTableEntryCmd_blanks word (isDotted_dotted a b c d).isWord] at ran
    obtain ⟨_, rfl⟩ := EStateM.Result.ok.inj ran
    exact new found

end

/-- The command and the insert leave the same entry, with the table for its parent and the
bytes of the address for its key. -/
def PathsAgree (pb : Protobuf) (target : Target) (mem : Memory) (s : Agent) (tblname : Str)
    (tableId fieldId : UInt32) (action : TableAction) (a b c d : UInt8) (p : Nat) : Prop :=
  LeavesEntry (sendCmd pb target (addTableEntryCmd tblname (dotted a b c d) p)) s tblname
      [a, b, c, d] (UInt64.ofNat p) ∧
    LeavesEntry (tableInsert pb target mem
      (lpmEntry tableId fieldId [a, b, c, d] (Int32.ofNat p) action)) s tblname
        [a, b, c, d] (UInt64.ofNat p)

/-- The two never agree, for no store, table and prefix. -/
theorem not_pathsAgree (pb : Protobuf) {target : Target} (shipped : Shipped target)
    (roundTrips : pb.RoundTrips)
    (size : ∀ message : AfiTreeEntry, (pb.serialize .treeEntry message).length ≤
      (stringFields .treeEntry message).flatten.length + 512)
    (mem : Memory) (s : Agent) (tblname : Str) (tableId fieldId : UInt32) (action : TableAction)
    (a b c d : UInt8) (p : Nat) (prefixLen : p ≤ 32) :
    ¬ PathsAgree pb target mem s tblname tableId fieldId action a b c d p :=
  fun agree => sendCmd_not_leavesEntry pb shipped roundTrips size s tblname tblname a b c d
    (by omega) _ agree.1

/-- The table of the simple router whose entries go to `addEntry`. -/
def lpmTable : P4InfoTable := ⟨33581985, str "ipv4_lpm", [⟨1, str "ipv4.dstAddr", 32⟩]⟩

/-- The agent has the table and, from the CLI, its tree. -/
def lpmTableOps : List AgentOp :=
  [.p4InfoResource (.table lpmTable),
    .addAfiTree (str "ipv4_lpm") (str "ipv4_dst") 2 (str "discard1") 1024]

theorem lpmTableOps_run : ∃ s,
    run (Process.step AfiWire.protobuf Aft.target) {} lpmTableOps = some { agent := s } ∧
      s.p4Info.table? lpmTable.id = some lpmTable ∧
      ∃ tree, s.lookup lpmTable.name = some tree ∧ tree.cls = .tree := by
  let info : P4Info := (P4Info.insert2IdMap {} (.table lpmTable)).insert2NameMap (.table lpmTable)
  have hasTable : info.table? lpmTable.id = some lpmTable := by
    rw [P4Info.table?, P4Info.p4InfoResource_insert2NameMap, P4Info.p4InfoResource_insert2IdMap]
    rfl
  obtain ⟨tree, made⟩ := tree_creation
  obtain ⟨s, added, stored⟩ := handleAfiJsonObject_made made { p4Info := info }
  have first := Process.step_p4InfoResource AfiWire.protobuf Aft.target {} (.table lpmTable)
  have second : Process.step AfiWire.protobuf Aft.target { agent := { p4Info := info } }
      (.addAfiTree (str "ipv4_lpm") (str "ipv4_dst") 2 (str "discard1") 1024) =
        some { agent := s } := Process.step_ok _ _ (map_eq_ok.mpr ⟨true, added, rfl⟩)
  have ran : run (Process.step AfiWire.protobuf Aft.target) {} lpmTableOps =
      some { agent := s } := by
    rw [lpmTableOps, run, first, Option.bind_some, run]
    show Option.bind (Process.step AfiWire.protobuf Aft.target { agent := { p4Info := info } } _)
      _ = _
    rw [second]
    rfl
  exact ⟨s, ran, by rw [stored.p4Info]; exact hasTable, _, stored.found, rfl⟩

/-- The command stores the eight characters of the address, the insert its four bytes. -/
theorem paths_differ : ∃ s t u,
    run (Process.step AfiWire.protobuf Aft.target) {} lpmTableOps = some { agent := s } ∧
      s.p4Info.table? lpmTable.id = some lpmTable ∧
      (∃ tree, s.lookup lpmTable.name = some tree ∧ tree.cls = .tree) ∧
      sendCmd AfiWire.protobuf Aft.target (str "add-table-entry ipv4_lpm 10.0.0.1 24") s =
        .ok (some (str "Added entry to table ipv4_lpm")) t ∧
      t.contents (str "entry1") = some ⟨.treeEntry, Aft.entryMessage (str "10.0.0.1") 24⟩ ∧
      (∃ r, tableInsert AfiWire.protobuf Aft.target {}
        (lpmEntry lpmTable.id 1 [10, 0, 0, 1] 24 .notSet) s = .ok r u) ∧
      u.contents (str "entry1") = some ⟨.treeEntry, Aft.entryMessage [10, 0, 0, 1] 24⟩ ∧
      ¬ PathsAgree AfiWire.protobuf Aft.target {} s lpmTable.name lpmTable.id 1 .notSet
        10 0 0 1 24 := by
  have shipped : Shipped Aft.target := Or.inl rfl
  have word : IsWord lpmTable.name := by decide +kernel
  have small : 24 < 2147483648 := by omega
  obtain ⟨s, ran, hasTable, hasTree⟩ := lpmTableOps_run
  obtain ⟨t, sent, stored⟩ := sendCmd_addTableEntryCmd AfiWire.protobuf shipped
    AfiWire.protobuf_roundTrips Aft.wire_size s word (isDotted_dotted 10 0 0 1)
    (dotted_length 10 0 0 1).2 small
  obtain ⟨r, u, v, inserted, handled, unchanged⟩ := Aft.tableInsert_handles {}
    (lpmEntry lpmTable.id 1 [10, 0, 0, 1] 24 .notSet) private_creation rfl rfl rfl (s := s)
  have command : addTableEntryCmd lpmTable.name (dotted 10 0 0 1) 24 =
      str "add-table-entry ipv4_lpm 10.0.0.1 24" := by decide
  have disagree := sendCmd_not_leavesEntry AfiWire.protobuf shipped AfiWire.protobuf_roundTrips
    Aft.wire_size s lpmTable.name lpmTable.name 10 0 0 1 small 24
  refine ⟨s, t, v, ran, hasTable, hasTree, ?_, ?_, ⟨r, inserted⟩, ?_, fun agree => disagree agree.1⟩
  · rw [← command, sent]
    rfl
  · rw [stored.contents]
    rfl
  · rw [unchanged.contents, handled.contents]
    rfl

theorem not_pathsAgree_lpm : ¬ PathsAgree AfiWire.protobuf Aft.target {} {} lpmTable.name
    lpmTable.id 1 .notSet 10 0 0 1 24 :=
  not_pathsAgree AfiWire.protobuf (Or.inl rfl) AfiWire.protobuf_roundTrips Aft.wire_size {} {}
    lpmTable.name lpmTable.id 1 .notSet 10 0 0 1 24 (by decide)

end JP4Agent.CLIService
