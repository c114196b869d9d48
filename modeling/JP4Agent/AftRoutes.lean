import JP4Agent.AfiInsertResults
import JP4Agent.AftBindOrder

set_option autoImplicit false

namespace JP4Agent.Aft
open Agent Afi AfiDevice P4 P4RuntimeServiceImpl PtrMap

/-- The prefixes of the calls of `addRoute`: bytes, number of bytes and prefix length. -/
def routes {Token : Type} (calls : List (ClientCall Token)) : List (Str × Int32 × Int32) :=
  calls.filterMap fun
    | .addRoute _ prefixBytes numPrefixBytes prefixLen _ =>
      some (prefixBytes, numPrefixBytes, prefixLen)
    | _ => none

/-- The message that `addEntry` encodes. -/
def entryMessage (keystr : Str) (pLen : Int32) : AfiTreeEntry where
  name := some (str "entry1")
  parentName := some (str "ipv4_lpm")
  targetAfiObject := some (str "etherencap1")
  prefixBytes := some keystr
  prefixLength := some (UInt64.ofInt pLen.toInt)

section
variable {pb : Protobuf} {s : Agent} {tree : AfiObject} {keystr : Str} {pLen : Int32}

theorem entry_created {target : Target}
    (creator : target.creators (str "afi-tree-entry") = some .treeEntry)
    (roundTrips : ∀ message : AfiTreeEntry, (pb.serialize .treeEntry message).length < 2147483648 →
      pb.parse .treeEntry (pb.serialize .treeEntry message) = message)
    (short : (pb.serialize .treeEntry (entryMessage keystr pLen)).length < 5000) :
    creation pb target (afiTreeEntryJsonObject pb keystr pLen) =
      .ok (some ⟨.treeEntry, entryMessage keystr pLen⟩) := by
  have made := creation_childJsonRes pb short target 1233456 (str "entry1") creator
  rw [roundTrips _ (by omega)] at made
  exact made

theorem entry_creation
    (roundTrips : ∀ message : AfiTreeEntry, (pb.serialize .treeEntry message).length < 2147483648 →
      pb.parse .treeEntry (pb.serialize .treeEntry message) = message)
    (short : (pb.serialize .treeEntry (entryMessage keystr pLen)).length < 5000) :
    creation pb target (afiTreeEntryJsonObject pb keystr pLen) =
      .ok (some ⟨.treeEntry, entryMessage keystr pLen⟩) :=
  entry_created (by decide) roundTrips short

/-- The tree of an entry is found for it, also after the entry is stored. -/
theorem install_handled {t : Agent}
    (handled : Handled target s ⟨s.nextAddr, afiTreeEntryJsonObject pb keystr pLen, .treeEntry,
      entryMessage keystr pLen⟩ false t)
    (found : s.lookup (str "ipv4_lpm") = some tree) (isTree : tree.cls = .tree) :
    t.installed = ⟨⟨s.nextAddr, afiTreeEntryJsonObject pb keystr pLen, .treeEntry,
      entryMessage keystr pLen⟩, [tree]⟩ :: s.installed := by
  have apart : str "entry1" ≠ str "ipv4_lpm" := by decide
  obtain ⟨message, value⟩ : ∃ message : AfiTree, tree.value = ⟨.tree, message⟩ := by
    rcases tree with ⟨addr, res, cls, message⟩
    cases isTree
    exact ⟨message, rfl⟩
  have kept : t.lookup (str "ipv4_lpm") = some tree :=
    ((handled.lookup _).trans (if_neg apart)).trans found
  rw [handled.installed, if_neg Bool.false_ne_true,
    install_entry kept value ⟨entryMessage keystr pLen, rfl, rfl⟩]
  rfl

/-- The AFT device accepts no entry of a table, for it cannot create the children. -/
theorem not_afiAccepts {tId aId : UInt32} {fieldIds paramIds : List UInt32} :
    ¬ AfiAccepts target s tId aId fieldIds paramIds := by
  rintro ⟨_, _, afiPObj, _, _, _, _, _, makes, creators⟩
  obtain ⟨isBrcm, _⟩ := cap_of_creators (Or.inl rfl) makes creators
  have creators := congrArg (fun target : Target => target.creators (str "afi-cap")) isBrcm
  cases creators

/-- The insert stores and binds the entry and changes nothing else, if the table of the entry
then has no object that takes it. -/
theorem tableInsert_adds {target : Target} (shipped : Shipped target) (mem : Memory)
    (entry : TableEntry) {fieldId : UInt32}
    (made : creation pb target (afiTreeEntryJsonObject pb keystr pLen) =
      .ok (some ⟨.treeEntry, entryMessage keystr pLen⟩))
    (refused : ∀ t, Handled target s ⟨s.nextAddr, afiTreeEntryJsonObject pb keystr pLen,
      .treeEntry, entryMessage keystr pLen⟩ false t →
        ∀ aId fieldIds paramIds, ¬ AfiAccepts target t entry.tableId aId fieldIds paramIds)
    (table : entry.tableId = addEntryTable) (notDefault : entry.isDefaultAction = false)
    (fields : entry.fieldMatches = [⟨fieldId, .lpm keystr pLen⟩]) :
    ∃ r t u, tableInsert pb target mem entry s = .ok r u ∧ Handled target s
      ⟨s.nextAddr, afiTreeEntryJsonObject pb keystr pLen, .treeEntry, entryMessage keystr pLen⟩
        false t ∧ Unchanged t u := by
  obtain ⟨t, added, handled⟩ := handleAfiJsonObject_made made s
  have ends : Ends (tableInsert pb target mem entry) s (fun _ u => Unchanged t u)
      (fun _ _ => False) := by
    unfold tableInsert
    rw [if_neg (by rw [notDefault]; exact Bool.false_ne_true), fields]
    apply ends_bind
    rw [convertMatch]
    dsimp only
    rw [if_pos table]
    apply ends_bind
    rw [Ends, addEntry, added]
    apply ends_bind
    apply ends_pure
    apply ends_pure
    apply ends_bind
    obtain ⟨u, refuses, unchanged⟩ := afiAddObjEntry_refuses pb shipped (refused t handled _ _ _)
    rw [Ends, refuses]
    exact unchanged
  obtain ⟨r, u, returned, unchanged⟩ := ends.returns
  exact ⟨r, t, u, returned, handled, unchanged⟩

theorem tableInsert_handles (mem : Memory) (entry : TableEntry) {fieldId : UInt32}
    (made : creation pb target (afiTreeEntryJsonObject pb keystr pLen) =
      .ok (some ⟨.treeEntry, entryMessage keystr pLen⟩))
    (table : entry.tableId = addEntryTable) (notDefault : entry.isDefaultAction = false)
    (fields : entry.fieldMatches = [⟨fieldId, .lpm keystr pLen⟩]) :
    ∃ r t u, tableInsert pb target mem entry s = .ok r u ∧ Handled target s
      ⟨s.nextAddr, afiTreeEntryJsonObject pb keystr pLen, .treeEntry, entryMessage keystr pLen⟩
        false t ∧ Unchanged t u :=
  tableInsert_adds (Or.inl rfl) mem entry made (fun _ _ _ _ _ => not_afiAccepts) table notDefault
    fields

theorem tableInsert_installs (mem : Memory) (entry : TableEntry) {fieldId : UInt32}
    (made : creation pb target (afiTreeEntryJsonObject pb keystr pLen) =
      .ok (some ⟨.treeEntry, entryMessage keystr pLen⟩))
    (found : s.lookup (str "ipv4_lpm") = some tree) (isTree : tree.cls = .tree)
    (table : entry.tableId = addEntryTable) (notDefault : entry.isDefaultAction = false)
    (fields : entry.fieldMatches = [⟨fieldId, .lpm keystr pLen⟩]) :
    ∃ r t, tableInsert pb target mem entry s = .ok r t ∧
      t.installed = ⟨⟨s.nextAddr, afiTreeEntryJsonObject pb keystr pLen, .treeEntry,
        entryMessage keystr pLen⟩, [tree]⟩ :: s.installed := by
  obtain ⟨r, t, u, returned, handled, unchanged⟩ :=
    tableInsert_handles mem entry made table notDefault fields
  exact ⟨r, u, returned, unchanged.installed.trans (install_handled handled found isTree)⟩

end

/-- The wrappers around a short key take few bytes. -/
theorem entryMessage_short {pb : Protobuf} {keystr : Str} (pLen : Int32)
    (size : ∀ message : AfiTreeEntry, (pb.serialize .treeEntry message).length ≤
      (stringFields .treeEntry message).flatten.length + 512) (few : keystr.length ≤ 4096) :
    (pb.serialize .treeEntry (entryMessage keystr pLen)).length < 5000 := by
  have strings : (stringFields .treeEntry (entryMessage keystr pLen)).flatten.length =
      25 + keystr.length := by
    rw [stringFields]
    simp only [entryMessage, Option.toList_some, List.flatten_append, List.length_append,
      List.flatten_singleton]
    have name : (str "entry1").length = 6 := by decide
    have parentName : (str "ipv4_lpm").length = 8 := by decide
    have targetAfiObject : (str "etherencap1").length = 11 := by decide
    omega
  have bound := size (entryMessage keystr pLen)
  omega

section
variable {Token : Type} (client : AftClient Token) (pb : Protobuf) (mem : Memory)

/-- An LPM insert adds one route, with the bytes of the key and the prefix length 32. It is
the route of the request exactly if this is its prefix length. -/
theorem lpm_route_iff (s : Agent) (tree : AfiObject) (entry : TableEntry) (fieldId : UInt32)
    (keystr : Str) (pLen : Int32) (bytes : keystr.length = 4)
    (roundTrips : ∀ message : AfiTreeEntry, (pb.serialize .treeEntry message).length < 2147483648 →
      pb.parse .treeEntry (pb.serialize .treeEntry message) = message)
    (size : ∀ message : AfiTreeEntry, (pb.serialize .treeEntry message).length ≤
      (stringFields .treeEntry message).flatten.length + 512)
    (found : s.lookup (str "ipv4_lpm") = some tree) (isTree : tree.cls = .tree)
    (table : entry.tableId = addEntryTable) (notDefault : entry.isDefaultAction = false)
    (fields : entry.fieldMatches = [⟨fieldId, .lpm keystr pLen⟩]) :
    (∃ r t, tableInsert pb target mem entry s = .ok r t ∧
      routes (installAll client t.installed).calls =
        (keystr, 4, pLen) :: routes (installAll client s.installed).calls) ↔ pLen = 32 := by
  have short := entryMessage_short pLen size (show keystr.length ≤ 4096 by omega)
  obtain ⟨r, t, returned, installed⟩ := tableInsert_installs mem entry
    (entry_creation roundTrips short) found isTree table notDefault fields
  have added : routes (installAll client t.installed).calls =
      (keystr, 4, 32) :: routes (installAll client s.installed).calls := by
    have number : (4 : Int32) = Int32.ofNat keystr.length := by
      rw [bytes]
      rfl
    rw [installed, number]
    rfl
  constructor
  · rintro ⟨r', t', returned', same⟩
    obtain ⟨_, rfl⟩ := EStateM.Result.ok.inj (returned.symm.trans returned')
    rw [added] at same
    exact (Prod.mk.inj (Prod.mk.inj (List.cons.inj same).1).2).2.symm
  · rintro rfl
    exact ⟨r, t, returned, added⟩

end
section
open AfiWire Proto3

theorem stringField_length_le (number : Nat) (value : Option Str) :
    (encodeFields (stringField number value)).length ≤ value.toList.flatten.length + 40 := by
  cases value with
  | none => exact Nat.zero_le _
  | some s =>
      have wrapper :
          (encodeFields (if s = [] then [] else [.bytes 1 s])).length ≤ 20 + s.length := by
        by_cases empty : s = []
        · rw [if_pos empty]
          exact Nat.zero_le _
        · have field := encode_bytes_length_le 1 s
          rw [if_neg empty]
          simpa [encodeFields] using field
      have outer := encode_bytes_length_le number
        (encodeFields (if s = [] then [] else [.bytes 1 s]))
      have same : (encodeFields (stringField number (some s))).length = (Field.bytes number
          (encodeFields (if s = [] then [] else [.bytes 1 s]))).encode.length := by
        simp [encodeFields, stringField]
      have length : (some s).toList.flatten.length = s.length := by simp
      omega

theorem uintField_length_le (number : Nat) (value : Option UInt64) :
    (encodeFields (uintField number value)).length ≤ 40 := by
  cases value with
  | none => exact Nat.zero_le _
  | some v =>
      have wrapper : (encodeFields (if v = 0 then [] else [.varint 1 v.toNat])).length ≤ 20 := by
        by_cases zero : v = 0
        · rw [if_pos zero]
          exact Nat.zero_le _
        · have field := encode_varint_length_le 1 v.toNat
          rw [if_neg zero]
          simpa [encodeFields] using field
      have outer := encode_bytes_length_le number
        (encodeFields (if v = 0 then [] else [.varint 1 v.toNat]))
      have same : (encodeFields (uintField number (some v))).length = (Field.bytes number
          (encodeFields (if v = 0 then [] else [.varint 1 v.toNat]))).encode.length := by
        simp [encodeFields, uintField]
      omega

/-- The wrappers around the fields take few bytes. -/
theorem wire_size (message : AfiTreeEntry) :
    (AfiWire.protobuf.serialize .treeEntry message).length ≤
      (stringFields .treeEntry message).flatten.length + 512 := by
  have name := stringField_length_le 298281935 message.name
  have parentName := stringField_length_le 84475654 message.parentName
  have targetAfiObject := stringField_length_le 227270412 message.targetAfiObject
  have prefixBytes := stringField_length_le 312714340 message.prefixBytes
  have prefixLength := uintField_length_le 35426751 message.prefixLength
  have vrfId := uintField_length_le 245987046 message.vrfId
  change (encodeFields (toFields .treeEntry message)).length ≤ _
  simp only [toFields, stringFields, encodeFields_append, List.length_append,
    List.flatten_append]
  omega

end

/-- The entry for 103.30.30.3/16 -/
def routerEntry : TableEntry where
  tableId := addEntryTable
  fieldMatches := [⟨1, .lpm [0x67, 0x1e, 0x1e, 0x03] 16⟩]
  action := .action 1 []
  isDefaultAction := false
  hasMeterConfig := false
  hasCounterData := false

theorem routerEntry_short :
    (AfiWire.protobuf.serialize .treeEntry (entryMessage [0x67, 0x1e, 0x1e, 0x03] 16)).length <
      5000 := by decide

theorem wire_roundTrips (message : AfiTreeEntry) :
    (AfiWire.protobuf.serialize .treeEntry message).length < 2147483648 →
      AfiWire.protobuf.parse .treeEntry (AfiWire.protobuf.serialize .treeEntry message) = message :=
  AfiWire.classRoundTrips .treeEntry message

/-- The agent has the tree from the CLI, and the route that is added is 103.30.30.3/32. -/
theorem route_shrunk : ∃ s r t,
    StoreOp.step (arrayParsers []) AfiWire.protobuf target {}
        (.addTable (str "ipv4_lpm") (str "ipv4_dst") 2 (str "discard1") 1024) = some s ∧
      tableInsert AfiWire.protobuf target {} routerEntry s = .ok r t ∧
      routes (installAll noAftServer t.installed).calls =
        ([0x67, 0x1e, 0x1e, 0x03], 4, 32) :: routes (installAll noAftServer s.installed).calls ∧
      ¬ ∃ r t, tableInsert AfiWire.protobuf target {} routerEntry s = .ok r t ∧
        routes (installAll noAftServer t.installed).calls =
          ([0x67, 0x1e, 0x1e, 0x03], 4, 16) ::
            routes (installAll noAftServer s.installed).calls := by
  obtain ⟨s, _, tree, added, _, found, isTree⟩ := treeOps_run
  obtain ⟨r, t, returned, installed⟩ := tableInsert_installs {} routerEntry
    (entry_creation wire_roundTrips routerEntry_short) found isTree rfl rfl rfl
  have routed : routes (installAll noAftServer t.installed).calls =
      ([0x67, 0x1e, 0x1e, 0x03], 4, 32) :: routes (installAll noAftServer s.installed).calls := by
    rw [installed]
    rfl
  refine ⟨s, r, t, added, returned, routed, ?_⟩
  rintro ⟨r', t', returned', wrong⟩
  obtain ⟨_, rfl⟩ := EStateM.Result.ok.inj (returned.symm.trans returned')
  rw [routed] at wrong
  exact absurd (List.cons.inj wrong).1 (by decide)

theorem lpm_route_iff_router : ∃ s,
    (∃ r t, tableInsert AfiWire.protobuf target {} routerEntry s = .ok r t ∧
      routes (installAll noAftServer t.installed).calls =
        ([0x67, 0x1e, 0x1e, 0x03], 4, 16) :: routes (installAll noAftServer s.installed).calls) ↔
      (16 : Int32) = 32 := by
  obtain ⟨s, _, tree, _, _, found, isTree⟩ := treeOps_run
  exact ⟨s, lpm_route_iff noAftServer AfiWire.protobuf {} s tree routerEntry 1
    [0x67, 0x1e, 0x1e, 0x03] 16 rfl wire_roundTrips wire_size found isTree
    rfl rfl rfl⟩

end JP4Agent.Aft
