import JP4Agent.CLIAnswers
import JP4Agent.ControllerRoutes

set_option autoImplicit false

namespace JP4Agent.Null
open Agent Afi AfiDevice P4 Controller
open P4RuntimeServiceImpl (Memory addEntryTable)
open CLIService (tableMessage)

def NullTree.bind (tree : AfiTree) : Str :=
  str "key_field: " ++ tree.keyField.getD [] ++ str "\n"

/-- What `_bind` appends for an entry, if its tree is found. -/
def NullTreeEntry.bind (pb : Protobuf) (treeEntry : AfiTreeEntry) : Str :=
  str "tree.ByteSize(): " ++ decimal (pb.serialize .treeEntry treeEntry).length ++ str "\n" ++
    (str "entry_name: " ++ treeEntry.name.getD [] ++ str "\n") ++
    (str "parent_name: " ++ treeEntry.parentName.getD [] ++ str "\n") ++
    (str "target_afi_object: " ++ treeEntry.targetAfiObject.getD [] ++ str "\n")

def appended (pb : Protobuf) : Installed → Str
  | ⟨⟨_, _, .tree, tree⟩, _⟩ => NullTree.bind tree
  | ⟨⟨_, _, .treeEntry, treeEntry⟩, _⟩ => NullTreeEntry.bind pb treeEntry
  | _ => []

/-- The file after all that was installed, latest first. -/
def gtestFile (pb : Protobuf) (installed : List Installed) : Str :=
  installed.reverse.flatMap (appended pb)

theorem gtestFile_cons (pb : Protobuf) (installed : Installed) (before : List Installed) :
    gtestFile pb (installed :: before) = gtestFile pb before ++ appended pb installed := by
  rw [gtestFile, List.reverse_cons, List.flatMap_append, List.flatMap_singleton]
  rfl

/-- It creates and looks up what the AFT device does. -/
theorem target_eq_aft : target = Aft.target := rfl

/-- The bytes of the entry of a route: only those of the prefix length are not fixed. -/
def entryBytes (pLen : UInt16) : Nat :=
  if pLen = 0 then 67 else if pLen < 128 then 69 else if pLen < 16384 then 70 else 71

def routeLines (call : Route) : Str :=
  str "tree.ByteSize(): " ++ decimal (entryBytes call.pLen) ++
    str "\nentry_name: entry1\nparent_name: ipv4_lpm\ntarget_afi_object: etherencap1\n"

section
open AfiWire Proto3

theorem varintBytes_uint16 (v : UInt16) :
    (varintBytes v.toNat).length = if v < 128 then 1 else if v < 16384 then 2 else 3 := by
  have size := v.toNat_lt
  by_cases one : v < 128
  · rw [if_pos one]
    exact varintBytes_length 0 (by decide) (Or.inl rfl) one
  have least : 128 ≤ v.toNat := UInt16.not_lt.mp one
  by_cases two : v < 16384
  · rw [if_neg one, if_pos two]
    exact varintBytes_length 1 (by decide) (Or.inr least) two
  have large : 16384 ≤ v.toNat := UInt16.not_lt.mp two
  rw [if_neg one, if_neg two]
  exact varintBytes_length 2 (by decide) (Or.inr large) (by omega)

theorem prefixLength_length (pLen : UInt16) :
    (encodeFields (uintField 35426751 (some pLen.toUInt64))).length =
      if pLen = 0 then 6 else if pLen < 128 then 8 else if pLen < 16384 then 9 else 10 := by
  have size := pLen.toNat_lt
  have same : pLen.toUInt64.toNat = pLen.toNat := UInt16.toNat_toUInt64 pLen
  by_cases zero : pLen = 0
  · subst zero
    decide
  have nonzero : pLen.toUInt64 ≠ 0 := by
    intro wrong
    rw [wrong] at same
    exact zero (UInt16.toNat_inj.mp same.symm)
  have wrapper : (encodeFields [.varint 1 pLen.toNat]).length =
      1 + (varintBytes pLen.toNat).length := by
    rw [encodeFields, List.flatMap_singleton, Field.encode, List.length_append]
    rfl
  have groups := varintBytes_uint16 pLen
  have few : 1 ≤ (varintBytes pLen.toNat).length ∧ (varintBytes pLen.toNat).length ≤ 3 := by
    rw [groups]
    split
    · decide
    · split <;> decide
  have tag : (varintBytes (35426751 * 8 + 2)).length = 5 := by decide
  have field := encode_bytes_length tag
    (show (encodeFields [.varint 1 pLen.toNat]).length < 128 by omega)
  have whole : (encodeFields (uintField 35426751 (some pLen.toUInt64))).length =
      8 + ((varintBytes pLen.toNat).length - 1) := by
    rw [uintField, Option.toList_some, List.map_singleton, if_neg nonzero, same, encodeFields,
      List.flatMap_singleton, field, wrapper]
    omega
  rw [whole, groups, if_neg zero]
  split
  · rfl
  · split <;> rfl

theorem stringField_length (number : Nat) (value : Str)
    (tag : (varintBytes (number * 8 + 2)).length = 5) (nonempty : value ≠ [])
    (short : value.length < 126) :
    (encodeFields (stringField number (some value))).length = 8 + value.length := by
  have inner : (varintBytes value.length).length = 1 :=
    varintBytes_length 0 (by decide) (Or.inl rfl) (by omega)
  have wrapper : (encodeFields [.bytes 1 value]).length = 2 + value.length := by
    rw [encodeFields, List.flatMap_singleton, Field.encode, List.length_append,
      List.length_append, inner]
    rfl
  have field := encode_bytes_length tag
    (show (encodeFields [.bytes 1 value]).length < 128 by omega)
  rw [stringField, Option.toList_some, List.map_singleton, if_neg nonempty, encodeFields,
    List.flatMap_singleton, field, wrapper]
  omega

theorem message_length (call : Route) :
    (protobuf.serialize .treeEntry call.message).length = entryBytes call.pLen := by
  have parentName := stringField_length 84475654 (str "ipv4_lpm") (by decide) (by decide)
    (by decide)
  have targetAfiObject := stringField_length 227270412 (str "etherencap1") (by decide)
    (by decide) (by decide)
  have name := stringField_length 298281935 (str "entry1") (by decide) (by decide)
    (by decide)
  have address : (uint2Str (.u32 call.dAddr)).length = 4 := rfl
  have prefixBytes := stringField_length 312714340 (uint2Str (.u32 call.dAddr)) (by decide)
    (List.ne_nil_of_length_eq_add_one address) (by omega)
  have prefixLength : UInt64.ofInt call.pLen.toUInt32.toInt32.toInt = call.pLen.toUInt64 :=
    Option.some.inj call.prefixLength
  have vrfId : (encodeFields (uintField 245987046 none)).length = 0 := rfl
  change (encodeFields (toFields .treeEntry _)).length = _
  rw [Route.message, Aft.entryMessage, prefixLength, toFields]
  simp only [encodeFields_append, List.length_append, prefixLength_length, parentName,
    targetAfiObject, name, prefixBytes, vrfId, address]
  have lengths : (str "ipv4_lpm").length = 8 ∧ (str "etherencap1").length = 11 ∧
      (str "entry1").length = 6 := by decide
  rw [lengths.1, lengths.2.1, lengths.2.2, entryBytes]
  split
  · rfl
  · split
    · rfl
    · split <;> rfl

end

/-- The library writes entries in as many bytes as the wire format takes. -/
def WireSized (pb : Protobuf) : Prop :=
  ∀ message : AfiTreeEntry, (pb.serialize .treeEntry message).length =
    (AfiWire.protobuf.serialize .treeEntry message).length

theorem WireSized.size {pb : Protobuf} (wire : WireSized pb) (message : AfiTreeEntry) :
    (pb.serialize .treeEntry message).length ≤
      (stringFields .treeEntry message).flatten.length + 512 :=
  Nat.le_trans (Nat.le_of_eq (wire message)) (Aft.wire_size message)

theorem bind_route {pb : Protobuf} (wire : WireSized pb) (call : Route) :
    NullTreeEntry.bind pb call.message = routeLines call := by
  rw [NullTreeEntry.bind, wire, message_length, routeLines]
  simp only [List.append_assoc]
  rfl

inductive Call where
  | table (name keyField : Str) (protocol : Int32) (defaultNextObject : Str) (treeSize : UInt32)
  | route (call : Route × Memory)

namespace Call

/-- The call, if it is answered, a route with OK. -/
def step (pb : Protobuf) (p4info : ForwardingPipelineConfig) (s : Agent) : Call → Option Agent
  | .table name keyField protocol defaultNextObject treeSize =>
    returnedState (addAfiTree pb target name keyField protocol defaultNextObject treeSize s)
  | .route call => Brcm.writeStep pb target s [Route.update p4info call]

/-- The message comes back from the buffer of its constructor: its strings are UTF-8, and that
of a table is short enough. -/
def Fits (pb : Protobuf) : Call → Prop
  | .table name keyField protocol defaultNextObject treeSize =>
    let message := tableMessage name keyField protocol defaultNextObject treeSize
    (∀ s ∈ stringFields .tree message, ValidUtf8 s) ∧ (pb.serialize .tree message).length < 5000
  | .route call => call.1.IsText

def knows (known : Bool) : Call → Bool
  | .table name .. => known || name == str "ipv4_lpm"
  | .route _ => known

def lines (known : Bool) : Call → Str
  | .table _ keyField .. => str "key_field: " ++ keyField ++ str "\n"
  | .route call => if known then routeLines call.1 else []

end Call

def allLines : Bool → List Call → Str
  | _, [] => []
  | known, call :: rest => call.lines known ++ allLines (call.knows known) rest

def Knows (s : Agent) (known : Bool) : Prop :=
  (known = true ∧ ∃ tree, HasTree s tree) ∨ (known = false ∧ s.lookup (str "ipv4_lpm") = none)

theorem Knows.congr {s t : Agent} {known : Bool} (knows : Knows s known)
    (same : t.lookup (str "ipv4_lpm") = s.lookup (str "ipv4_lpm")) : Knows t known := by
  rcases knows with ⟨rfl, tree, found, isTree⟩ | ⟨rfl, missing⟩
  · exact Or.inl ⟨rfl, tree, same.trans found, isTree⟩
  · exact Or.inr ⟨rfl, same.trans missing⟩

section
variable {p4info : ForwardingPipelineConfig} {pb : Protobuf} (roundTrips : pb.RoundTrips)
include roundTrips

theorem table_noted {s : Agent} {known : Bool} (knows : Knows s known) (name keyField : Str)
    (protocol : Int32) (defaultNextObject : Str) (treeSize : UInt32)
    (fits : (Call.table name keyField protocol defaultNextObject treeSize).Fits pb) :
    let call := Call.table name keyField protocol defaultNextObject treeSize
    ∃ t, call.step pb p4info s = some t ∧ Knows t (call.knows known) ∧
      gtestFile pb t.installed = gtestFile pb s.installed ++ call.lines known := by
  have shipped : Shipped target := Or.inr (Or.inl rfl)
  have made : creation pb target (childJsonRes pb (str "afi-tree") 1000001 name .tree
      (tableMessage name keyField protocol defaultNextObject treeSize)) = .ok (some ⟨.tree, _⟩) :=
    creation_of_short roundTrips shipped.creators.1 fits.1 fits.2
  obtain ⟨t, added, handled⟩ := handleAfiJsonObject_made made s
  refine ⟨t, ?_, ?_, ?_⟩
  · show returnedState (handleAfiJsonObject pb target _ false s) = some t
    exact congrArg returnedState added
  · have lookup := handled.lookup (str "ipv4_lpm")
    by_cases same : name = str "ipv4_lpm"
    · exact Or.inl ⟨by simp [Call.knows, same], _, lookup.trans (if_pos same), rfl⟩
    · have still : (Call.table name keyField protocol defaultNextObject treeSize).knows known =
          known := by simp [Call.knows, same]
      rw [still]
      exact knows.congr (lookup.trans (if_neg same))
  · rw [handled.installed, if_neg Bool.false_ne_true, target_eq_aft, Aft.install_tree rfl]
    exact gtestFile_cons _ _ _

variable (special : getTableId p4info (str "ipv4_lpm") = addEntryTable) (wire : WireSized pb)
include special wire

/-- A route is noted if there is a tree for it, and is answered with OK also if there is none. -/
theorem route_noted {s : Agent} {known : Bool} (knows : Knows s known) {call : Route × Memory}
    (text : call.1.IsText) :
    ∃ t, (Call.route call).step pb p4info s = some t ∧ Knows t known ∧
      gtestFile pb t.installed =
        gtestFile pb s.installed ++ (Call.route call).lines known := by
  have noCap : NoCap target s addEntryTable := noCap_aft s addEntryTable
  obtain ⟨t, u, stepped, handled, unchanged⟩ :=
    step_route_handled special roundTrips wire.size (Or.inr (Or.inl rfl)) noCap text
  have wrote : (Call.route call).step pb p4info s = some u := Brcm.writeStep_single pb stepped
  have lookup := lookup_of_handled handled
  refine ⟨u, wrote, knows.congr ((unchanged.lookup _).trans lookup), ?_⟩
  rw [unchanged.installed]
  rcases knows with ⟨rfl, tree, found, isTree⟩ | ⟨rfl, missing⟩
  · rw [Aft.install_handled handled found isTree, gtestFile_cons]
    exact congrArg _ (bind_route wire call.1)
  · have unresolved : target.install t (call.1.entry pb s) = none := by
      show (t.resolved [(str "ipv4_lpm", .tree)]).map _ = none
      rw [Agent.resolved, lookup, missing]
      rfl
    rw [handled.installed, if_neg Bool.false_ne_true, unresolved]
    exact (List.append_nil _).symm

/-- Over any sequence of tables and routes, all of them answered and the routes with OK, the
file gets the lines of each in their order. A route before the tree for it leaves no trace.
Of a route only the number of bytes of the prefix length is in its lines. -/
theorem file_written (calls : List Call) : ∀ (s : Agent) (known : Bool), Knows s known →
    (∀ call ∈ calls, call.Fits pb) → ∃ t, run (Call.step pb p4info) s calls = some t ∧
      gtestFile pb t.installed = gtestFile pb s.installed ++ allLines known calls := by
  induction calls with
  | nil => exact fun s _ _ _ => ⟨s, rfl, (List.append_nil _).symm⟩
  | cons call rest ih =>
      intro s known knows fit
      obtain ⟨fits, others⟩ := List.forall_mem_cons.mp fit
      have noted : ∃ u, call.step pb p4info s = some u ∧ Knows u (call.knows known) ∧
          gtestFile pb u.installed = gtestFile pb s.installed ++ call.lines known := by
        cases call with
        | table name keyField protocol defaultNextObject treeSize =>
            exact table_noted roundTrips knows name keyField protocol defaultNextObject treeSize
              fits
        | route call => exact route_noted roundTrips special wire knows fits
      obtain ⟨u, stepped, still, first⟩ := noted
      obtain ⟨t, ran, file⟩ := ih u _ still others
      refine ⟨t, ?_, ?_⟩
      · rw [run, stepped, Option.bind_some, ran]
      · rw [file, first, allLines, List.append_assoc]

end

def nullTest : List Call :=
  [.table (str "ipv4_lpm") (str "packet.ip4.daddr") 2 (str "discard1") 1024,
    .route (⟨0x0a000001, 16, 0x0a000001, 1⟩, {})]

theorem file_written_nullTest : ∃ t,
    run (Call.step AfiWire.protobuf routerInfo) {} nullTest = some t ∧
      gtestFile AfiWire.protobuf t.installed =
        str "key_field: packet.ip4.daddr\ntree.ByteSize(): 69\nentry_name: " ++
          str "entry1\nparent_name: ipv4_lpm\ntarget_afi_object: etherencap1\n" := by
  have special : getTableId routerInfo (str "ipv4_lpm") = addEntryTable := by decide
  have knows : Knows {} false := by
    refine Or.inr ⟨rfl, ?_⟩
    simp [Agent.lookup, PtrMap.deref]
  have strings : ∀ s ∈ stringFields .tree (tableMessage (str "ipv4_lpm")
      (str "packet.ip4.daddr") 2 (str "discard1") 1024), ValidUtf8 s := by
    refine List.forall_mem_cons.mpr ⟨⟨"ipv4_lpm".toList, by decide⟩,
      List.forall_mem_cons.mpr ⟨⟨"packet.ip4.daddr".toList, by decide⟩,
        List.forall_mem_singleton.mpr ⟨"discard1".toList, by decide⟩⟩⟩
  have fit : ∀ call ∈ nullTest, call.Fits AfiWire.protobuf :=
    List.forall_mem_cons.mpr ⟨⟨strings, by decide⟩,
      List.forall_mem_singleton.mpr ⟨['\n', '\x00', '\x00', '\x01'], by decide⟩⟩
  obtain ⟨t, ran, file⟩ := file_written AfiWire.protobuf_roundTrips special (fun _ => rfl)
    nullTest {} false knows fit
  refine ⟨t, ran, file.trans ?_⟩
  decide +kernel

end JP4Agent.Null
