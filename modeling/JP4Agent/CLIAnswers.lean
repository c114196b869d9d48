import JP4Agent.AfiAddEntry
import JP4Agent.CLICommands

set_option autoImplicit false

namespace JP4Agent.CLIService
open Agent Afi AfiDevice

/-- The sizes of messages that come back from the buffer of a constructor: below 5000 bytes, or
so many that the length of their text wraps to a short one. -/
def Fits (size : Nat) : Prop :=
  size < 5000 ∨ (2147483648 ≤ size ∧ 4 * ((size + 2) / 3) % 4294967296 ≤ 6664)

theorem encodeBytes_returns_iff (scratch : Base64.Scratch) (bytes : Str) :
    (∃ r, (Base64.base64DecodeFrom scratch (Base64.encodeBytes bytes) 5000).result = .ok r) ↔
      Fits bytes.length := by
  have length := Base64.encodeBytes_length bytes
  obtain ⟨decoded, least, most⟩ := Base64.base64Prefix_encodeBytes bytes
  have size := Base64.decodeChars_length (Base64.base64Prefix (Base64.encodeBytes bytes))
  rw [decoded] at size
  have taken := Base64.taken_length (Base64.encodeBytes bytes)
  have capacity : (5000 : UInt32).toNat = 5000 := rfl
  rw [Base64.base64DecodeFrom_returns_iff 5000 scratch _ (by decide), Base64.decodeChars_length,
    capacity, taken, Base64.Exhausted, Base64.counted, Fits, ← length, toInt32]
  generalize (Base64.encodeBytes bytes).length = total at *
  generalize (Base64.base64Prefix (Base64.encodeBytes bytes)).length = chars at *
  clear taken
  by_cases wraps : total < 4294967296
  · have number : total % 4294967296 = total := Nat.mod_eq_of_lt wraps
    rw [number]
    split
    · rw [if_pos (by omega)]
      omega
    · rw [if_neg (by omega)]
      omega
  · have below := Nat.mod_lt total (show 0 < 4294967296 by omega)
    have groups : total % 4294967296 % 4 = 0 := by omega
    generalize total % 4294967296 = counter at *
    split
    · rw [if_pos (by omega)]
      omega
    · rw [if_neg (by omega)]
      omega

theorem construct_returns_iff (pb : Protobuf) (c : AfiClass) (message : c.Message) :
    (∃ made, construct pb c (encodeMessage pb c message) = .ok made) ↔
      Fits (pb.serialize c message).length := by
  rw [← encodeBytes_returns_iff fun _ => 0, construct_eq, decodedBytes, encodeMessage,
    Base64.base64Encode_eq, Base64.base64Decode]
  cases (Base64.base64DecodeFrom (fun _ => 0) (Base64.encodeBytes (pb.serialize c message))
    5000).result with
  | error fault => simp [Except.map]
  | ok r => simp [Except.map]

def tableMessage (tblname keyField : Str) (protocol : Int32) (defNxtObj : Str) (tblsz : UInt32) :
    AfiTree where
  name := some tblname
  keyField := some keyField
  proto := some (UInt64.ofInt protocol.toInt)
  defaultNextNode := some defNxtObj
  size := some tblsz.toUInt64

section
variable (pb : Protobuf) {target : Target} {c : AfiClass} {message : c.Message} {type : Str}
  (id : Nat) (name : Str) (creator : target.creators type = some c) (s : Agent)
include creator

theorem handleAfiJsonObject_fits (fits : Fits (pb.serialize c message).length) :
    ∃ made t, construct pb c (encodeMessage pb c message) = .ok made ∧
      handleAfiJsonObject pb target (some (childJsonRes pb type id name c message)) false s =
        .ok true t ∧
      Handled target s ⟨s.nextAddr, childJsonRes pb type id name c message, c, made⟩ false t := by
  obtain ⟨made, constructed⟩ := (construct_returns_iff pb c message).mpr fits
  have created := creation_childJsonRes_eq pb target id name c message creator
  rw [constructed] at created
  obtain ⟨t, ran, handled⟩ := handleAfiJsonObject_made created s
  exact ⟨made, t, constructed, ran, handled⟩

theorem handleAfiJsonObject_unfit (unfit : ¬ Fits (pb.serialize c message).length) :
    ∃ e, handleAfiJsonObject pb target (some (childJsonRes pb type id name c message)) false s =
      .error e s := by
  cases constructed : construct pb c (encodeMessage pb c message) with
  | ok made => exact absurd ((construct_returns_iff pb c message).mp ⟨made, constructed⟩) unfit
  | error fault =>
      have created := creation_childJsonRes_eq pb target id name c message creator
      rw [constructed] at created
      exact ⟨_, handleAfiJsonObject_failed created s⟩

end

theorem prefix_exclusive {first second : Str} (apart : ¬ first <+: second)
    (least : first.length ≤ second.length) {reply : Str} (starts : second <+: reply) :
    ¬ first <+: reply :=
  fun wrong => apart (List.prefix_of_prefix_length_le wrong starts least)

theorem showObjects_reply (objs : List (Option AfiObject)) (s : Agent) :
    Ends (showObjects objs) s (fun r _ => r = [] ∨ str "Object " <+: r) (fun _ _ => True) := by
  cases objs with
  | nil => exact ends_pure (Or.inl rfl)
  | cons obj rest =>
      cases obj with
      | none => exact ends_throw trivial
      | some obj =>
          apply ends_map
          apply (showObjects_ends rest s).mono
          · intro r t _
            right
            have first : str "Object " <+: str "Object name: " := by decide
            simp only [objDetails, List.append_assoc]
            exact first.trans (List.prefix_append _ _)
          · exact fun _ _ _ => trivial

theorem showObjects_null {objs : List (Option AfiObject)} (null : none ∈ objs) (s : Agent) :
    ∃ e, showObjects objs s = .error e s := by
  induction objs with
  | nil => simp at null
  | cons obj rest ih =>
      cases obj with
      | none => exact ⟨.nullDeref, rfl⟩
      | some obj =>
          obtain ⟨e, failed⟩ := ih (by simpa using null)
          exact ⟨e, bind_of_error failed _⟩

theorem showAfiObjects_returns_iff (s : Agent) :
    (∃ r t, showAfiObjects s = .ok r t) ↔ PtrMap.NoNulls s.objectsMap := by
  constructor
  · rintro ⟨r, t, returned⟩ name null
    have member : none ∈ getAfiObjects s :=
      List.mem_map.mpr ⟨(name, none), Std.ExtTreeMap.mem_toList_iff_getElem?_eq_some.mpr null, rfl⟩
    obtain ⟨e, failed⟩ := showObjects_null member s
    have shown : showAfiObjects s = .error e s := failed
    rw [shown] at returned
    cases returned
  · intro noNulls
    have ends := showAfiObjects_ends s
    cases ran : showAfiObjects s with
    | ok r t => exact ⟨r, t, rfl⟩
    | error e t => exact absurd noNulls (ends.of_error ran).2.2

/-- A known name with the number of arguments it takes, and numerals for its numbers. -/
def ValidCommand (cmdstr : Str) : Prop :=
  match split cmdstr with
  | [cmd] => cmd = str "show-afi-objects"
  | [cmd, _, _, plen] => cmd = str "add-table-entry" ∧ ∃ value, IntNumeral plen value
  | [cmd, _, _, protocol, _, tblsz] =>
    cmd = str "add-table" ∧ (∃ value, IntNumeral protocol value) ∧ ∃ value, UintNumeral tblsz value
  | _ => False

/-- The line is a command that adds something, and the call that adds it returns true. -/
def Adds (pb : Protobuf) (target : Target) (s : Agent) (cmdstr : Str) : Prop :=
  match command cmdstr with
  | some (.addTableEntry _ pfx plen) => ∃ t, addEntry pb target pfx plen s = .ok true t
  | some (.addTable tblname keyField protocol defNxtObj tblsz) =>
    ∃ t, addAfiTree pb target tblname keyField protocol defNxtObj tblsz s = .ok true t
  | _ => False

/-- The line gets a reply from an agent that lives, and as it should: `Invalid` and nothing
stored for a line that is no valid command, `Added` only for what was added. -/
def Answered (pb : Protobuf) (target : Target) (around : Surroundings) (s : Agent)
    (cmdstr : Str) : Prop :=
  ∃ reply t, sendCmd pb target cmdstr s = .ok (some reply) t ∧ around.BindsSurvived target s t ∧
    (¬ ValidCommand cmdstr → str "Invalid" <+: reply ∧ t.objectsMap = s.objectsMap) ∧
    (str "Added" <+: reply → Adds pb target s cmdstr)

/-- The surroundings stand the `_bind` of the entry that the library makes of the message. -/
def StandEntry (pb : Protobuf) (target : Target) (around : Surroundings) (s : Agent)
    (pfx : Str) (pLen : Int32) : Prop :=
  ∀ entry, construct pb .treeEntry
      (encodeMessage pb .treeEntry (Aft.entryMessage pfx pLen)) = .ok entry →
    Surroundings.FindsTree s (str "entry1") entry →
      around.Stand target (entry.prefixBytes.getD []) (entry.prefixLength.getD 0)

/-- What a line has to be to be answered: of the three commands, the numbers of those that add
something have to be numerals of their types, the message has to fit and its entry to be
bearable, and the one that shows the objects has to have no arguments and no null pointer among
them. -/
def Answerable (pb : Protobuf) (target : Target) (around : Surroundings) (s : Agent)
    (cmdstr : Str) : Prop :=
  match split cmdstr with
  | [] => True
  | cmd :: args =>
    if cmd = str "add-table-entry" then
      ∀ tblname pfx plen, args = [tblname, pfx, plen] → ∃ value, IntNumeral plen value ∧
        Fits (pb.serialize .treeEntry (Aft.entryMessage pfx (Int32.ofInt value))).length ∧
        StandEntry pb target around s pfx (Int32.ofInt value)
    else if cmd = str "add-table" then
      ∀ tblname keyField protocol defNxtObj tblsz,
        args = [tblname, keyField, protocol, defNxtObj, tblsz] → ∃ value size,
          IntNumeral protocol value ∧ UintNumeral tblsz size ∧
          Fits (pb.serialize .tree (tableMessage tblname keyField (Int32.ofInt value) defNxtObj
            (UInt32.ofNat size.toNat))).length
    else if cmd = str "show-afi-objects" then args = [] ∧ PtrMap.NoNulls s.objectsMap
    else True

/-- The entry is the one of the message if the library gives it back. -/
theorem standEntry_iff {pb : Protobuf} {target : Target} (around : Surroundings) (s : Agent)
    {pfx : Str} {pLen : Int32}
    (parsed : pb.parse .treeEntry (pb.serialize .treeEntry (Aft.entryMessage pfx pLen)) =
      Aft.entryMessage pfx pLen)
    (short : (pb.serialize .treeEntry (Aft.entryMessage pfx pLen)).length < 5000) :
    StandEntry pb target around s pfx pLen ↔
      (HasIpv4Lpm s → around.Stand target pfx (UInt64.ofInt pLen.toInt)) := by
  have made := construct_encodeMessage (c := .treeEntry) pb short
  rw [parsed] at made
  unfold StandEntry
  simp only [made, Except.ok.injEq, forall_eq', findsTree_entryMessage]
  exact Iff.rfl

section
variable (pb : Protobuf) {target : Target} (shipped : Shipped target) (around : Surroundings)
  (s : Agent) {cmdstr : Str}

/-- An `Invalid` reply is always right. -/
theorem answered_invalid {reply : Str} (invalid : command cmdstr = some (.invalid reply))
    (starts : str "Invalid" <+: reply) : Answered pb target around s cmdstr := by
  refine ⟨reply, s, ?_, around.bindsSurvived_refl target s, fun _ => ⟨starts, rfl⟩,
    fun added => ?_⟩
  · rw [sendCmd, invalid]
    rfl
  · exact absurd added (prefix_exclusive (by decide) (by decide) starts)

/-- An `Added` reply to a line that is no valid command is wrong. -/
theorem valid_of_added {reply name : Str} (added : reply = str "Added " ++ name)
    (right : ¬ ValidCommand cmdstr → str "Invalid" <+: reply) : ValidCommand cmdstr := by
  by_contra wrong
  have starts : str "Added " <+: reply := by
    rw [added]
    exact List.prefix_append _ _
  have invalid := List.prefix_of_prefix_length_le starts (right wrong) (by decide)
  exact absurd invalid (by decide)

include shipped

theorem answered_addTableEntry {tblname pfx plen : Str}
    (tokens : split cmdstr = [str "add-table-entry", tblname, pfx, plen]) :
    Answered pb target around s cmdstr ↔ ∃ value, IntNumeral plen value ∧
      Fits (pb.serialize .treeEntry (Aft.entryMessage pfx (Int32.ofInt value))).length ∧
      StandEntry pb target around s pfx (Int32.ofInt value) := by
  have isCommand := command_addTableEntry tokens
  have creator := shipped.creators.2
  have valid : ValidCommand cmdstr ↔ ∃ value, IntNumeral plen value := by
    rw [ValidCommand, tokens]
    exact ⟨fun valid => valid.2, fun numeral => ⟨rfl, numeral⟩⟩
  -- the entry that is made is the one that is bound
  have stands {value : Int} {made : AfiTreeEntry} {t : Agent}
      (constructed : construct pb .treeEntry (encodeMessage pb .treeEntry
        (Aft.entryMessage pfx (Int32.ofInt value))) = .ok made)
      (handled : Handled target s ⟨s.nextAddr, afiTreeEntryJsonObject pb pfx (Int32.ofInt value),
        .treeEntry, made⟩ false t) :
      around.BindsSurvived target s t ↔ StandEntry pb target around s pfx (Int32.ofInt value) := by
    rw [around.bindsSurvived_iff handled rfl]
    unfold StandEntry
    simp only [constructed, Except.ok.injEq, forall_eq']
    exact Iff.rfl
  constructor
  · rintro ⟨reply, t, sent, survived, invalid, _⟩
    rw [sendCmd, isCommand] at sent
    cases read : stoi plen with
    | none =>
        rw [read] at sent
        cases sent
    | some pLen =>
        rw [read] at sent
        obtain ⟨r, u, added, replied⟩ := bind_eq_ok.mp sent
        obtain ⟨same, rfl⟩ := EStateM.Result.ok.inj replied
        obtain ⟨value, numeral⟩ := valid.mp
          (valid_of_added (Option.some.inj same).symm fun wrong => (invalid wrong).1)
        obtain rfl := Option.some.inj ((stoi_numeral numeral).symm.trans read)
        by_cases fits : Fits (pb.serialize .treeEntry
            (Aft.entryMessage pfx (Int32.ofInt value))).length
        · obtain ⟨made, t, constructed, ran, handled⟩ :=
            handleAfiJsonObject_fits pb 1233456 (str "entry1") creator s fits
          have ran : addEntry pb target pfx (Int32.ofInt value) s = .ok true t := ran
          obtain ⟨_, rfl⟩ := EStateM.Result.ok.inj (ran.symm.trans added)
          exact ⟨value, numeral, fits, (stands constructed handled).mp survived⟩
        · obtain ⟨e, failed⟩ := handleAfiJsonObject_unfit pb 1233456 (str "entry1") creator s fits
          have stopped : addEntry pb target pfx (Int32.ofInt value) s = .error e s := failed
          rw [stopped] at added
          cases added
  · rintro ⟨value, numeral, fits, stand⟩
    obtain ⟨made, t, constructed, added, handled⟩ :=
      handleAfiJsonObject_fits pb 1233456 (str "entry1") creator s fits
    have ran : addEntry pb target pfx (Int32.ofInt value) s = .ok true t := added
    rw [stoi_numeral numeral] at isCommand
    refine ⟨str "Added entry to table " ++ tblname, t, ?_, (stands constructed handled).mpr stand,
      fun wrong => absurd (valid.mpr ⟨value, numeral⟩) wrong, fun _ => ?_⟩
    · rw [sendCmd, isCommand]
      exact bind_of_ok ran _
    · rw [Adds, isCommand]
      exact ⟨t, ran⟩

theorem answered_addTable {tblname keyField protocol defNxtObj tblsz : Str} (tokens :
    split cmdstr = [str "add-table", tblname, keyField, protocol, defNxtObj, tblsz]) :
    Answered pb target around s cmdstr ↔ ∃ value size, IntNumeral protocol value ∧
      UintNumeral tblsz size ∧ Fits (pb.serialize .tree (tableMessage tblname keyField
        (Int32.ofInt value) defNxtObj (UInt32.ofNat size.toNat))).length := by
  have isCommand := command_addTable tokens
  have creator := shipped.creators.1
  have valid : ValidCommand cmdstr ↔
      (∃ value, IntNumeral protocol value) ∧ ∃ size, UintNumeral tblsz size := by
    rw [ValidCommand, tokens]
    exact ⟨fun valid => valid.2, fun numerals => ⟨rfl, numerals⟩⟩
  constructor
  · rintro ⟨reply, t, sent, _, invalid, _⟩
    rw [sendCmd, isCommand] at sent
    cases readProtocol : stoi protocol with
    | none =>
        rw [readProtocol] at sent
        cases sent
    | some proto =>
        cases readSize : stoul tblsz with
        | none =>
            rw [readProtocol, readSize] at sent
            cases sent
        | some treeSize =>
            rw [readProtocol, readSize] at sent
            obtain ⟨r, u, added, replied⟩ := bind_eq_ok.mp sent
            obtain ⟨⟨value, numeral⟩, size, sizeNumeral⟩ := valid.mp
              (valid_of_added (Option.some.inj (EStateM.Result.ok.inj replied).1).symm
                fun wrong => (invalid wrong).1)
            obtain rfl := Option.some.inj ((stoi_numeral numeral).symm.trans readProtocol)
            obtain rfl := Option.some.inj ((stoul_numeral sizeNumeral).symm.trans readSize)
            refine ⟨value, size, numeral, sizeNumeral, ?_⟩
            by_contra unfit
            obtain ⟨e, failed⟩ := handleAfiJsonObject_unfit pb 1000001 tblname creator s unfit
            have stopped : addAfiTree pb target tblname keyField (Int32.ofInt value) defNxtObj
                (UInt32.ofNat size.toNat) s = .error e s := failed
            rw [stopped] at added
            cases added
  · rintro ⟨value, size, numeral, sizeNumeral, fits⟩
    obtain ⟨made, t, _, added, handled⟩ :=
      handleAfiJsonObject_fits pb 1000001 tblname creator s fits
    have ran : addAfiTree pb target tblname keyField (Int32.ofInt value) defNxtObj
        (UInt32.ofNat size.toNat) s = .ok true t := added
    rw [stoi_numeral numeral, stoul_numeral sizeNumeral] at isCommand
    refine ⟨str "Added table with name: " ++ tblname, t, ?_,
      around.bindsSurvived_of_ne handled nofun,
      fun wrong => absurd (valid.mpr ⟨⟨value, numeral⟩, size, sizeNumeral⟩) wrong, fun _ => ?_⟩
    · rw [sendCmd, isCommand]
      exact bind_of_ok ran _
    · rw [Adds, isCommand]
      exact ⟨t, ran⟩

omit shipped

theorem valid_showAfiObjects {args : List Str}
    (tokens : split cmdstr = str "show-afi-objects" :: args) :
    ValidCommand cmdstr ↔ args = [] := by
  rw [ValidCommand, tokens]
  constructor
  · intro valid
    split at valid
    · rename_i same
      exact (List.cons.inj same).2
    · rename_i same
      rw [← (List.cons.inj same).1] at valid
      exact absurd valid.1 (by decide)
    · rename_i same
      rw [← (List.cons.inj same).1] at valid
      exact absurd valid.1 (by decide)
    · exact valid.elim
  · rintro rfl
    rfl

theorem answered_showAfiObjects {args : List Str}
    (tokens : split cmdstr = str "show-afi-objects" :: args) :
    Answered pb target around s cmdstr ↔ args = [] ∧ PtrMap.NoNulls s.objectsMap := by
  have isCommand := command_showAfiObjects tokens
  have sends : sendCmd pb target cmdstr s = (some <$> showAfiObjects) s := by
    rw [sendCmd, isCommand]
  have shows {shown : Str} {t : Agent} (ran : showAfiObjects s = .ok shown t) :
      shown = [] ∨ str "Object " <+: shown := (showObjects_reply (getAfiObjects s) s).of_ok ran
  constructor
  · rintro ⟨reply, t, sent, _, invalid, _⟩
    rw [sends] at sent
    obtain ⟨shown, ran, same⟩ := map_eq_ok.mp sent
    obtain rfl := Option.some.inj same
    refine ⟨?_, (showAfiObjects_returns_iff s).mp ⟨_, _, ran⟩⟩
    by_contra extra
    have starts := (invalid ((valid_showAfiObjects tokens).not.mpr extra)).1
    rcases shows ran with rfl | object
    · exact absurd starts (by decide)
    · exact prefix_exclusive (by decide) (by decide) object starts
  · rintro ⟨rfl, noNulls⟩
    obtain ⟨shown, t, ran⟩ := (showAfiObjects_returns_iff s).mpr noNulls
    obtain rfl : s = t := ((showAfiObjects_ends s).of_ok ran).symm
    refine ⟨shown, s, ?_, around.bindsSurvived_refl target s,
      fun wrong => absurd ((valid_showAfiObjects tokens).mpr rfl) wrong, fun added => ?_⟩
    · rw [sends]
      exact map_eq_ok.mpr ⟨shown, ran, rfl⟩
    · rcases shows ran with rfl | object
      · exact absurd added (by decide)
      · exact absurd added (prefix_exclusive (by decide) (by decide) object)

end

/-- A line is answered as it should be exactly if it is answerable, whatever bytes it has. -/
theorem sendCmd_answered_iff (pb : Protobuf) {target : Target} (shipped : Shipped target)
    (around : Surroundings) (s : Agent) (cmdstr : Str) :
    Answered pb target around s cmdstr ↔ Answerable pb target around s cmdstr := by
  have nonempty : split cmdstr ≠ [] := List.splitOnP_ne_nil _ _
  obtain ⟨cmd, args, tokens⟩ := List.exists_cons_of_ne_nil nonempty
  rw [Answerable, tokens]
  show _ ↔ if cmd = _ then _ else _
  split
  · rename_i named
    subst named
    by_cases three : ∃ tblname pfx plen, args = [tblname, pfx, plen]
    · obtain ⟨tblname, pfx, plen, rfl⟩ := three
      rw [answered_addTableEntry pb shipped around s tokens]
      refine ⟨?_, fun all => all _ _ _ rfl⟩
      rintro found _ _ _ ⟨⟩
      exact found
    · have count : ∀ tblname pfx plen, args ≠ [tblname, pfx, plen] :=
        fun _ _ _ same => three ⟨_, _, _, same⟩
      exact iff_of_true
        (answered_invalid pb around s (command_addTableEntry_count tokens count) (by decide))
        fun _ _ _ same => absurd same (count _ _ _)
  · split
    · rename_i named
      subst named
      by_cases five : ∃ tblname keyField protocol defNxtObj tblsz,
          args = [tblname, keyField, protocol, defNxtObj, tblsz]
      · obtain ⟨tblname, keyField, protocol, defNxtObj, tblsz, rfl⟩ := five
        rw [answered_addTable pb shipped around s tokens]
        refine ⟨?_, fun all => all _ _ _ _ _ rfl⟩
        rintro found _ _ _ _ _ ⟨⟩
        exact found
      · have count : ∀ tblname keyField protocol defNxtObj tblsz,
            args ≠ [tblname, keyField, protocol, defNxtObj, tblsz] :=
          fun _ _ _ _ _ same => five ⟨_, _, _, _, _, same⟩
        have invalid := command_addTable_count tokens count
        exact iff_of_true (answered_invalid pb around s invalid (by decide))
          fun _ _ _ _ _ same => absurd same (count _ _ _ _ _)
    · split
      · rename_i named
        subst named
        exact answered_showAfiObjects pb around s tokens
      · rename_i notEntry notTable notShow
        have unknown : cmd ∉ [str "add-table-entry", str "add-table", str "show-afi-objects"] := by
          simp only [List.mem_cons, List.not_mem_nil, or_false, not_or]
          exact ⟨notEntry, notTable, notShow⟩
        have starts : str "Invalid" <+: str "Invalid cmd: " := by decide
        exact iff_of_true (answered_invalid pb around s (command_unknown tokens unknown)
          (starts.trans (List.prefix_append _ _))) trivial

theorem sendCmd_answered_iff_lpm : Answered AfiWire.protobuf Aft.target .strict {}
    (str "add-table-entry ipv4_lpm 10.0.0.1 24") := by
  have tokens : split (str "add-table-entry ipv4_lpm 10.0.0.1 24") =
      [str "add-table-entry", str "ipv4_lpm", str "10.0.0.1", str "24"] := by decide
  apply (sendCmd_answered_iff AfiWire.protobuf (Or.inl rfl) .strict {} _).mpr
  rw [Answerable, tokens]
  show if str "add-table-entry" = str "add-table-entry" then _ else _
  rw [if_pos rfl]
  rintro _ _ _ ⟨⟩
  refine ⟨24, ⟨by decide, by omega, by omega⟩, Or.inl (by decide +kernel), ?_⟩
  rintro entry _ ⟨_, tree, found, _⟩
  simp [Agent.lookup, PtrMap.deref] at found

/-- A prefix length that is no number ends the request, one with a letter behind it is taken
for a number, a table size of 4294967296 is taken for 0, a name that was looked up before stops
the command that shows the objects, and the prefix lengths -1 and 2147483647 stop the AFT
device where there is a tree. -/
theorem sendCmd_unanswered :
    (sendCmd AfiWire.protobuf Aft.target (str "add-table-entry ipv4_lpm 10.0.0.1 x") {} =
        .ok none {} ∧
      ¬ Answered AfiWire.protobuf Aft.target .strict {}
        (str "add-table-entry ipv4_lpm 10.0.0.1 x")) ∧
    ((∃ t, sendCmd AfiWire.protobuf Aft.target (str "add-table-entry ipv4_lpm 10.0.0.1 24x") {} =
        .ok (some (str "Added entry to table ipv4_lpm")) t) ∧
      ¬ Answered AfiWire.protobuf Aft.target .strict {}
        (str "add-table-entry ipv4_lpm 10.0.0.1 24x")) ∧
    (command (str "add-table t k 2 d 4294967296") =
        some (.addTable (str "t") (str "k") 2 (str "d") 0) ∧
      ¬ Answered AfiWire.protobuf Aft.target .strict {} (str "add-table t k 2 d 4294967296")) ∧
    (∃ r s, getAfiObject (str "ipv4_lpm") {} = .ok r s ∧
      ¬ Answered AfiWire.protobuf Aft.target .strict s (str "show-afi-objects")) ∧
    (∀ around, ¬ Answered AfiWire.protobuf Aft.target around ipv4LpmAgent
      (str "add-table-entry ipv4_lpm 10.0.0.1 -1")) ∧
    ∀ around : Surroundings, around.readable < 2147483638 →
      ¬ Answered AfiWire.protobuf Aft.target around ipv4LpmAgent
        (str "add-table-entry ipv4_lpm 10.0.0.1 2147483647") := by
  have shipped : Shipped Aft.target := Or.inl rfl
  have letters : split (str "add-table-entry ipv4_lpm 10.0.0.1 x") =
      [str "add-table-entry", str "ipv4_lpm", str "10.0.0.1", str "x"] := by decide
  have behind : split (str "add-table-entry ipv4_lpm 10.0.0.1 24x") =
      [str "add-table-entry", str "ipv4_lpm", str "10.0.0.1", str "24x"] := by decide
  have large : split (str "add-table t k 2 d 4294967296") =
      [str "add-table", str "t", str "k", str "2", str "d", str "4294967296"] := by decide
  have shows : split (str "show-afi-objects") = [str "show-afi-objects"] := by decide
  have endless : split (str "add-table-entry ipv4_lpm 10.0.0.1 -1") =
      [str "add-table-entry", str "ipv4_lpm", str "10.0.0.1", str "-1"] := by decide
  have long : split (str "add-table-entry ipv4_lpm 10.0.0.1 2147483647") =
      [str "add-table-entry", str "ipv4_lpm", str "10.0.0.1", str "2147483647"] := by decide
  have utf8 : ValidUtf8 (str "10.0.0.1") := ⟨"10.0.0.1".toList, by decide⟩
  have reads (around : Surroundings) {pLen : Int32}
      (short : (AfiWire.protobuf.serialize .treeEntry
        (Aft.entryMessage (str "10.0.0.1") pLen)).length < 5000)
      (stand : StandEntry AfiWire.protobuf Aft.target around ipv4LpmAgent (str "10.0.0.1") pLen) :
      (UInt64.ofInt pLen.toInt).toNat < 4294967296 ∧
        (UInt64.ofInt pLen.toInt).toNat ≤ 8 + 1 + around.readable := by
    have parsed := AfiWire.protobuf_roundTrips .treeEntry (Aft.entryMessage (str "10.0.0.1") pLen)
      ((entryMessage_utf8 _ _).mpr utf8) (Nat.lt_trans short (by decide))
    exact ((standEntry_iff around ipv4LpmAgent parsed short).mp stand hasIpv4Lpm).1 rfl
  refine ⟨⟨?_, ?_⟩, ⟨?_, ?_⟩, ⟨?_, ?_⟩, ⟨none, _, rfl, ?_⟩, fun around => ?_,
    fun around few => ?_⟩
  · have unread : stoi (str "x") = none := by decide
    rw [sendCmd, command_addTableEntry letters, unread]
    rfl
  · rw [answered_addTableEntry _ shipped _ _ letters]
    rintro ⟨value, ⟨valid, _⟩, _⟩
    have invalid : numeral (str "x") = none := by decide
    rw [invalid] at valid
    cases valid
  · have read : stoi (str "24x") = some 24 := by decide
    have fits : Fits (AfiWire.protobuf.serialize .treeEntry
        (Aft.entryMessage (str "10.0.0.1") 24)).length := Or.inl (by decide +kernel)
    obtain ⟨_, t, _, added, _⟩ := handleAfiJsonObject_fits AfiWire.protobuf 1233456 (str "entry1")
      shipped.creators.2 {} fits
    have ran : addEntry AfiWire.protobuf Aft.target (str "10.0.0.1") 24 {} = .ok true t := added
    refine ⟨t, ?_⟩
    rw [sendCmd, command_addTableEntry behind, read]
    exact bind_of_ok ran _
  · rw [answered_addTableEntry _ shipped _ _ behind]
    rintro ⟨value, ⟨valid, _⟩, _⟩
    have invalid : numeral (str "24x") = none := by decide
    rw [invalid] at valid
    cases valid
  · have read : stoi (str "2") = some 2 := by decide
    have narrowed : stoul (str "4294967296") = some 0 := by decide
    rw [command_addTable large, read, narrowed]
    rfl
  · rw [answered_addTable _ shipped _ _ large]
    rintro ⟨value, size, _, ⟨valid, _, most⟩, _⟩
    have number : numeral (str "4294967296") = some 4294967296 := by decide
    rw [number] at valid
    obtain rfl := Option.some.inj valid
    omega
  · rw [answered_showAfiObjects _ _ _ shows]
    rintro ⟨_, noNulls⟩
    apply noNulls (str "ipv4_lpm")
    show (PtrMap.touch ∅ (str "ipv4_lpm"))[str "ipv4_lpm"]? = some none
    rw [PtrMap.touch, Std.ExtTreeMap.getElem?_insertIfNew]
    simp
  · rw [answered_addTableEntry _ shipped _ _ endless]
    rintro ⟨value, ⟨valid, _⟩, _, stand⟩
    have number : numeral (str "-1") = some (-1) := by decide
    obtain rfl := Option.some.inj (valid.symm.trans number)
    have ends := (reads around (by decide +kernel) stand).1
    exact absurd ends (by decide)
  · rw [answered_addTableEntry _ shipped _ _ long]
    rintro ⟨value, ⟨valid, _⟩, _, stand⟩
    have number : numeral (str "2147483647") = some 2147483647 := by decide
    obtain rfl := Option.some.inj (valid.symm.trans number)
    have within : 2147483647 ≤ 8 + 1 + around.readable :=
      (reads around (by decide +kernel) stand).2
    omega

end JP4Agent.CLIService
