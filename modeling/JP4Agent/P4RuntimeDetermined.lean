import JP4Agent.P4RuntimeMemory

set_option autoImplicit false

namespace JP4Agent
open Agent Afi AfiDevice P4 P4RuntimeServiceImpl

namespace AfiCap
variable (pb : Protobuf) (table : P4InfoTable)

def matchRes (m : AfiCapEntryMatch) : AfiJsonResource :=
  childJsonRes pb (str "afi-cap-entry-match") (id + 1) (matchName table.name) .capEntryMatch m

def actionRes (a : AfiCapEntryAction) : AfiJsonResource :=
  childJsonRes pb (str "afi-cap-entry-action") (id + 2) (actionName table.name) .capEntryAction a

def entryRes : AfiJsonResource :=
  childJsonRes pb (str "afi-cap-entry") id (entryName table.name) .capEntry (capEntryObj table.name)

end AfiCap

section
variable (pb : Protobuf) {target : Target} (shipped : Shipped target)
include shipped

/-- An accepted entry is one of a `cap` table, and its children are made of a match and an
action, whatever follows the strings of the entry. -/
theorem childrenOf_accepted {tId aId : UInt32} {fieldIds paramIds : List UInt32} {s : Agent}
    (accepts : AfiAccepts target s tId aId fieldIds paramIds) :
    target = Brcm.target ∧ ∃ table action, s.p4Info.table? tId = some table ∧
      s.p4Info.action? aId = some action ∧
      ∀ (mfs : List AfiTEntryMatchField) (aes : List AfiAEntry),
        mfs.map AfiTEntryMatchField.id = fieldIds → aes.map AfiAEntry.id = paramIds →
          ∃ m a, AfiCap.matchObj table {} mfs = some m ∧ AfiCap.actionObj action {} aes = some a ∧
            childrenOf pb s tId aId mfs aes = some
              [AfiCap.matchRes pb table m, AfiCap.actionRes pb table a,
                AfiCap.entryRes pb table] := by
  obtain ⟨table, action, afiPObj, hasTable, hasAction, hasParent, fields, params, makes,
    creators⟩ := accepts
  obtain ⟨isBrcm, isCap⟩ := cap_of_creators shipped makes creators
  refine ⟨isBrcm, table, action, hasTable, hasAction, ?_⟩
  rintro mfs aes rfl rfl
  obtain ⟨m, matchObj⟩ := Option.isSome_iff_exists.mp
    ((AfiCap.matchObj_isSome table mfs {}).mpr fields)
  obtain ⟨a, actionObj⟩ := Option.isSome_iff_exists.mp
    ((AfiCap.actionObj_isSome action aes {}).mpr params)
  refine ⟨m, a, matchObj, actionObj, ?_⟩
  apply childrenOf_eq pb hasTable hasAction hasParent
  rcases afiPObj with ⟨addr, res, cls, message⟩
  cases isCap
  show AfiCap.childObjs pb table action mfs aes = _
  rw [AfiCap.childObjs, matchObj]
  dsimp only
  rw [actionObj]
  rfl

end

namespace P4RuntimeServiceImpl

/-- The status that an insert reports, unless the agent was stopped. -/
def reported : EStateM.Result Fault Agent (Status × List AfiCall) → Option Status
  | .ok r _ => some r.1
  | .error _ _ => none

/-- The last call, which is for the whole entry, returned false. -/
def EntryRefused : EStateM.Result Fault Agent (Status × List AfiCall) → Prop
  | .ok r _ => r.2.getLast? = some (.afiAddObjEntry false)
  | .error _ _ => False

/-- Both runs refuse the entry, or they report the same status and leave the same store and
the same calls of `bind`. -/
def Agree (run run' : EStateM.Result Fault Agent (Status × List AfiCall)) : Prop :=
  EntryRefused run ∧ EntryRefused run' ∨
    reported run = reported run' ∧ (endState run).objectsMap = (endState run').objectsMap ∧
      (endState run).bound = (endState run').bound

theorem Agree.refl (run : EStateM.Result Fault Agent (Status × List AfiCall)) : Agree run run :=
  Or.inr ⟨rfl, rfl, rfl⟩

section
variable (pb : Protobuf) (target : Target) (entry : TableEntry) (s : Agent)

/-- Some memory makes a match object that fits into the buffer of its constructor. -/
def MatchFits : Prop :=
  ∃ mem table m, s.p4Info.table? entry.tableId = some table ∧
    AfiCap.matchObj table {} (passedFields mem entry.tableId 0 entry.fieldMatches) = some m ∧
    (pb.serialize .capEntryMatch m).length < 5000

/-- An entry with an action of its own is refused, or stops the agent, or no string that
ends up in an object is too short for its read; any other entry is refused, whatever the
number found for its action. -/
def Determined : Prop :=
  match entry.action with
  | .action aId params =>
    Inserts pb target entry s aId (params.map ActionParam.paramId) → MatchFits pb entry s →
      ∀ table action, s.p4Info.table? entry.tableId = some table →
        s.p4Info.action? aId = some action →
          ¬ AfiCap.FieldExposed table (passedFields {} entry.tableId 0 entry.fieldMatches) ∧
            ¬ AfiCap.ParamExposed action (convertAction {} entry.action).2
  | _ => ∀ aId, ¬ Inserts pb target entry s aId []

end

section
variable (pb : Protobuf) (target : Target) (mem : Memory) (entry : TableEntry)
  (calls : List AfiCall) (s : Agent)

/-- The call of `afiAddObjEntry` with what the service has converted. -/
def addConverted : AfiM Bool :=
  afiAddObjEntry pb target entry.tableId (convertAction mem entry.action).1
    (passedFields mem entry.tableId 0 entry.fieldMatches) (convertAction mem entry.action).2

theorem insertConverted_of_ok {returned : Bool} {t : Agent}
    (ran : addConverted pb target mem entry s = .ok returned t) :
    insertConverted pb target mem entry calls s =
      .ok (.OK, calls ++ [.afiAddObjEntry returned]) t :=
  bind_of_ok ran _

theorem insertConverted_of_error {e : Fault} {t : Agent}
    (ran : addConverted pb target mem entry s = .error e t) :
    insertConverted pb target mem entry calls s = .error e t :=
  bind_of_error ran _

theorem endState_insertConverted :
    endState (insertConverted pb target mem entry calls s) =
      endState (addConverted pb target mem entry s) := by
  cases ran : addConverted pb target mem entry s with
  | ok returned t => rw [insertConverted_of_ok pb target mem entry calls s ran]; rfl
  | error e t => rw [insertConverted_of_error pb target mem entry calls s ran]; rfl

theorem refused_insertConverted_iff : EntryRefused (insertConverted pb target mem entry calls s) ↔
    ∃ t, addConverted pb target mem entry s = .ok false t := by
  cases ran : addConverted pb target mem entry s with
  | ok returned t =>
      rw [insertConverted_of_ok pb target mem entry calls s ran]
      show (calls ++ [AfiCall.afiAddObjEntry returned]).getLast? = _ ↔ _
      rw [List.getLast?_concat]
      constructor
      · intro last
        cases last
        exact ⟨t, rfl⟩
      · rintro ⟨t, same⟩
        cases same
        rfl
  | error e t =>
      rw [insertConverted_of_error pb target mem entry calls s ran]
      constructor
      · exact fun wrong => wrong.elim
      · rintro ⟨t, same⟩
        cases same

end

section
variable {pb : Protobuf} {target : Target} {mem mem' : Memory} {entry : TableEntry}
  {calls : List AfiCall} {s : Agent} {table : P4InfoTable} {action : P4InfoAction}

theorem insertConverted_congr (same : addConverted pb target mem entry s =
      addConverted pb target mem' entry s) :
    insertConverted pb target mem entry calls s = insertConverted pb target mem' entry calls s := by
  cases ran : addConverted pb target mem entry s with
  | ok returned t =>
      rw [insertConverted_of_ok pb target mem entry calls s ran,
        insertConverted_of_ok pb target mem' entry calls s (same.symm.trans ran)]
  | error e t =>
      rw [insertConverted_of_error pb target mem entry calls s ran,
        insertConverted_of_error pb target mem' entry calls s (same.symm.trans ran)]

/-- An entry that is accepted with the action that the memory gives is not refused. -/
theorem not_refused_of_accepts (accepts : AfiAccepts target s entry.tableId
      (convertAction mem entry.action).1
      ((passedFields mem entry.tableId 0 entry.fieldMatches).map AfiTEntryMatchField.id)
      ((convertAction mem entry.action).2.map AfiAEntry.id)) :
    ¬ EntryRefused (insertConverted pb target mem entry calls s) := by
  intro refused
  obtain ⟨t, returned⟩ := (refused_insertConverted_iff ..).mp refused
  have iff := ((afiAddObjEntry_adds pb target entry.tableId _ _ _ s).of_ok returned).2.1
  have accepted := iff.trans (childrenOf_accepted_iff pb target s entry.tableId _ _ _)
  exact Bool.false_ne_true (accepted.mpr accepts)

theorem not_agree_of_bound (taken : ¬ EntryRefused (insertConverted pb target mem entry calls s))
    (different : (endState (addConverted pb target mem entry s)).bound ≠
      (endState (addConverted pb target mem' entry s)).bound) :
    ¬ Agree (insertConverted pb target mem entry calls s)
      (insertConverted pb target mem' entry calls s) := by
  rintro (⟨refused, _⟩ | ⟨_, _, bound⟩)
  · exact taken refused
  · rw [endState_insertConverted, endState_insertConverted] at bound
    exact different bound

end

section
variable (pb : Protobuf) {target : Target} (shipped : Shipped target)
include shipped

theorem refused_of_not_accepts {mem : Memory} {entry : TableEntry} (calls : List AfiCall)
    {s : Agent} (refused : ¬ AfiAccepts target s entry.tableId (convertAction mem entry.action).1
      ((passedFields mem entry.tableId 0 entry.fieldMatches).map AfiTEntryMatchField.id)
      ((convertAction mem entry.action).2.map AfiAEntry.id)) :
    EntryRefused (insertConverted pb target mem entry calls s) ∧
      reported (insertConverted pb target mem entry calls s) = some .OK ∧
      (endState (addConverted pb target mem entry s)).bound = s.bound := by
  obtain ⟨t, returned, unchanged⟩ := afiAddObjEntry_refuses pb shipped refused
  have ran : addConverted pb target mem entry s = .ok false t := returned
  refine ⟨(refused_insertConverted_iff ..).mpr ⟨t, ran⟩, ?_, ?_⟩
  · rw [insertConverted_of_ok pb target mem entry calls s ran]
    rfl
  · rw [ran]
    exact unchanged.bound

end

section
variable {pb : Protobuf} (table : P4InfoTable) {m : AfiCapEntryMatch} {a : AfiCapEntryAction}

theorem creation_matchRes (roundTrips : pb.RoundTrips)
    (short : (pb.serialize .capEntryMatch m).length < 5000) :
    creation pb Brcm.target (AfiCap.matchRes pb table m) = .ok (some ⟨.capEntryMatch, m⟩) := by
  apply creation_of_short roundTrips rfl _ short
  exact fun _ wrong => absurd wrong List.not_mem_nil

theorem creation_matchRes_long (long : 5000 ≤ (pb.serialize .capEntryMatch m).length)
    (small : (pb.serialize .capEntryMatch m).length < 2147483648) :
    ∃ fault, creation pb Brcm.target (AfiCap.matchRes pb table m) = .error fault :=
  creation_of_long rfl long small

theorem creation_actionRes (roundTrips : pb.RoundTrips)
    (short : (pb.serialize .capEntryAction a).length < 5000) :
    creation pb Brcm.target (AfiCap.actionRes pb table a) = .ok (some ⟨.capEntryAction, a⟩) := by
  apply creation_of_short roundTrips rfl _ short
  exact fun _ wrong => absurd wrong List.not_mem_nil

theorem creation_entryRes (roundTrips : pb.RoundTrips) (named : ValidUtf8 table.name)
    (short : (pb.serialize .capEntry (AfiCap.capEntryObj table.name)).length < 5000) :
    creation pb Brcm.target (AfiCap.entryRes pb table) =
      .ok (some ⟨.capEntry, AfiCap.capEntryObj table.name⟩) :=
  creation_of_short roundTrips rfl (AfiCap.capEntryObj_utf8 named) short

end

/-- The children of an accepted entry, under whatever memory. -/
structure Converts (pb : Protobuf) (mem : Memory) (entry : TableEntry) (s : Agent)
    (table : P4InfoTable) (action : P4InfoAction) (m : AfiCapEntryMatch) (a : AfiCapEntryAction) :
    Prop where
  matchObj : AfiCap.matchObj table {} (passedFields mem entry.tableId 0 entry.fieldMatches) = some m
  actionObj : AfiCap.actionObj action {} (convertAction mem entry.action).2 = some a
  run : addConverted pb Brcm.target mem entry s = handleAfiJsonObjects pb Brcm.target false
    ([AfiCap.matchRes pb table m, AfiCap.actionRes pb table a, AfiCap.entryRes pb table].map some) s

section
variable {pb : Protobuf} {table : P4InfoTable} {m : AfiCapEntryMatch} {a : AfiCapEntryAction}
  {entry : TableEntry} {mem : Memory} {s : Agent} {action : P4InfoAction}

/-- With other bytes behind the strings another match object is bound, or none. -/
theorem bound_ne_of_fieldExposed (roundTrips : pb.RoundTrips)
    (sized : ∀ mem m, AfiCap.matchObj table {}
      (passedFields mem entry.tableId 0 entry.fieldMatches) = some m →
        (pb.serialize .capEntryMatch m).length < 2147483648)
    {m' : AfiCapEntryMatch} {a' : AfiCapEntryAction}
    (converts : Converts pb mem entry s table action m a)
    (converts' : Converts pb mem.displaced entry s table action m' a')
    (short : (pb.serialize .capEntryMatch m).length < 5000)
    (exposed : AfiCap.FieldExposed table (passedFields mem entry.tableId 0 entry.fieldMatches)) :
    (endState (addConverted pb Brcm.target mem entry s)).bound ≠
      (endState (addConverted pb Brcm.target mem.displaced entry s)).bound := by
  have displaced := passedFields_rel (passedField_displaced mem entry.tableId) 0 entry.fieldMatches
  have different := AfiCap.matchObj_ne displaced exposed converts.matchObj converts'.matchObj
  rw [converts.run, converts'.run]
  apply handleAfiJsonObjects_bound_ne (creation_matchRes table roundTrips short)
  by_cases short' : (pb.serialize .capEntryMatch m').length < 5000
  · rw [creation_matchRes table roundTrips short']
    intro same
    have values := Option.some.inj (Except.ok.inj same)
    cases values
    exact different rfl
  · obtain ⟨fault, failed⟩ := creation_matchRes_long table (Nat.not_lt.mp short')
      (sized _ _ converts'.matchObj)
    rw [failed]
    intro wrong
    cases wrong

/-- If the match object is the same, other bytes behind the VRF make another action object. -/
theorem bound_ne_of_paramExposed (roundTrips : pb.RoundTrips)
    (shortActions : ∀ a, (pb.serialize .capEntryAction a).length < 5000) {a' : AfiCapEntryAction}
    (converts : Converts pb mem entry s table action m a)
    (converts' : Converts pb mem.displaced entry s table action m a')
    (short : (pb.serialize .capEntryMatch m).length < 5000)
    (exposed : AfiCap.ParamExposed action (convertAction mem entry.action).2) :
    (endState (addConverted pb Brcm.target mem entry s)).bound ≠
      (endState (addConverted pb Brcm.target mem.displaced entry s)).bound := by
  have different := AfiCap.actionObj_ne (convertAction_displaced mem entry.action) exposed
    converts.actionObj converts'.actionObj
  obtain ⟨t, _, goesOn⟩ := handleAfiJsonObjects_made (s := s)
    (creation_matchRes table roundTrips short)
  have behind (a : AfiCapEntryAction) : handleAfiJsonObjects pb Brcm.target false
      ([AfiCap.matchRes pb table m, AfiCap.actionRes pb table a,
        AfiCap.entryRes pb table].map some) s =
      handleAfiJsonObjects pb Brcm.target false
        ([AfiCap.actionRes pb table a, AfiCap.entryRes pb table].map some) t := goesOn _
  rw [converts.run, converts'.run, behind, behind]
  apply handleAfiJsonObjects_bound_ne (creation_actionRes table roundTrips (shortActions a))
  rw [creation_actionRes table roundTrips (shortActions a')]
  intro same
  have values := Option.some.inj (Except.ok.inj same)
  cases values
  exact different rfl

theorem addConverted_stops (converts : Converts pb mem entry s table action m a)
    (long : 5000 ≤ (pb.serialize .capEntryMatch m).length)
    (small : (pb.serialize .capEntryMatch m).length < 2147483648) :
    ∃ fault, addConverted pb Brcm.target mem entry s = .error fault s := by
  obtain ⟨fault, failed⟩ := creation_matchRes_long table long small
  exact ⟨_, by rw [converts.run, List.map_cons, handleAfiJsonObjects_failed failed]⟩

end

section
variable (pb : Protobuf) {target : Target} (shipped : Shipped target) {entry : TableEntry}
  {s : Agent} {aId : UInt32} {params : List ActionParam}
include shipped

/-- The runs of an entry whose own action is accepted. -/
theorem converts_of_accepts (direct : entry.action = .action aId params)
    (accepts : AfiAccepts target s entry.tableId aId
      ((passedFields {} entry.tableId 0 entry.fieldMatches).map AfiTEntryMatchField.id)
      (params.map ActionParam.paramId)) :
    target = Brcm.target ∧ ∃ table action, s.p4Info.table? entry.tableId = some table ∧
      s.p4Info.action? aId = some action ∧
      ∀ mem, ∃ m a, Converts pb mem entry s table action m a := by
  obtain ⟨isBrcm, table, action, hasTable, hasAction, children⟩ :=
    childrenOf_accepted pb shipped accepts
  refine ⟨isBrcm, table, action, hasTable, hasAction, fun mem => ?_⟩
  obtain ⟨m, a, matchObj, actionObj, handed⟩ := children
    (passedFields mem entry.tableId 0 entry.fieldMatches) (convertAction mem entry.action).2
    (passedFields_ids mem entry.tableId {} 0 entry.fieldMatches)
    (by rw [direct, convertAction_ids])
  refine ⟨m, a, matchObj, actionObj, ?_⟩
  have own : (convertAction mem entry.action).1 = aId := by
    rw [direct]
    rfl
  rw [addConverted, own]
  exact afiAddObjEntry_known Brcm.target handed

/-- The runs of an entry whose own action is accepted agree exactly if no match object fits,
or nothing is read past the end of a string. -/
theorem agree_accepted_iff (roundTrips : pb.RoundTrips)
    (shortActions : ∀ a, (pb.serialize .capEntryAction a).length < 5000)
    (sized : ∀ mem table m, s.p4Info.table? entry.tableId = some table →
      AfiCap.matchObj table {} (passedFields mem entry.tableId 0 entry.fieldMatches) = some m →
        (pb.serialize .capEntryMatch m).length < 2147483648)
    (direct : entry.action = .action aId params)
    (accepts : AfiAccepts target s entry.tableId aId
      ((passedFields {} entry.tableId 0 entry.fieldMatches).map AfiTEntryMatchField.id)
      (params.map ActionParam.paramId)) (calls : List AfiCall) :
    (∀ mem mem', Agree (insertConverted pb target mem entry calls s)
      (insertConverted pb target mem' entry calls s)) ↔
      (MatchFits pb entry s → ∀ table action, s.p4Info.table? entry.tableId = some table →
        s.p4Info.action? aId = some action →
          ¬ AfiCap.FieldExposed table (passedFields {} entry.tableId 0 entry.fieldMatches) ∧
            ¬ AfiCap.ParamExposed action (convertAction {} entry.action).2) := by
  have taken (mem : Memory) : ¬ EntryRefused (insertConverted pb target mem entry calls s) := by
    apply not_refused_of_accepts
    rw [passedFields_ids mem entry.tableId {}, direct, convertAction_ids]
    exact accepts
  obtain ⟨rfl, table, action, hasTable, hasAction, converts⟩ :=
    converts_of_accepts pb shipped direct accepts
  have bounded (mem : Memory) (m : AfiCapEntryMatch) := sized mem table m hasTable
  have fields (mem : Memory) := passedFields_same {} entry.tableId mem 0 entry.fieldMatches
  have others (mem : Memory) := convertAction_same {} mem entry.action
  constructor
  · rintro agree ⟨mem, table', m, hasTable', matchObj, short⟩ table'' action' hasTable'' hasAction'
    obtain rfl := Option.some.inj (hasTable.symm.trans hasTable')
    obtain rfl := Option.some.inj (hasTable.symm.trans hasTable'')
    obtain rfl := Option.some.inj (hasAction.symm.trans hasAction')
    obtain ⟨m₁, a₁, converts₁⟩ := converts mem
    obtain ⟨m₂, a₂, converts₂⟩ := converts mem.displaced
    obtain rfl := Option.some.inj (converts₁.matchObj.symm.trans matchObj)
    have safe :
        ¬ AfiCap.FieldExposed table (passedFields {} entry.tableId 0 entry.fieldMatches) := by
      intro exposed
      exact not_agree_of_bound (taken mem) (bound_ne_of_fieldExposed roundTrips bounded converts₁
        converts₂ short (AfiCap.fieldExposed_congr (fields mem) exposed)) (agree mem mem.displaced)
    refine ⟨safe, fun exposed => ?_⟩
    obtain ⟨m₀, a₀, converts₀⟩ := converts {}
    have first := AfiCap.matchObj_congr (fields mem) safe converts₀.matchObj converts₁.matchObj
    have second := AfiCap.matchObj_congr (fields mem.displaced) safe converts₀.matchObj
      converts₂.matchObj
    obtain rfl := first.symm.trans second
    exact not_agree_of_bound (taken mem) (bound_ne_of_paramExposed roundTrips shortActions converts₁
      converts₂ short (AfiCap.paramExposed_congr (others mem) exposed)) (agree mem mem.displaced)
  · intro determined mem mem'
    obtain ⟨m₀, a₀, converts₀⟩ := converts {}
    obtain ⟨m, a, converts₁⟩ := converts mem
    obtain ⟨m', a', converts₂⟩ := converts mem'
    by_cases fits : MatchFits pb entry s
    · obtain ⟨safe, safe'⟩ := determined fits table action hasTable hasAction
      have matches₁ := AfiCap.matchObj_congr (fields mem) safe converts₀.matchObj
        converts₁.matchObj
      have matches₂ := AfiCap.matchObj_congr (fields mem') safe converts₀.matchObj
        converts₂.matchObj
      have actions₁ := AfiCap.actionObj_congr (others mem) safe' converts₀.actionObj
        converts₁.actionObj
      have actions₂ := AfiCap.actionObj_congr (others mem') safe' converts₀.actionObj
        converts₂.actionObj
      have run : addConverted pb Brcm.target mem entry s =
          addConverted pb Brcm.target mem' entry s := by
        rw [converts₁.run, converts₂.run, ← matches₁, ← matches₂, ← actions₁, ← actions₂]
      rw [insertConverted_congr run]
      exact Agree.refl _
    · have long (mem : Memory) (m : AfiCapEntryMatch) (made : AfiCap.matchObj table {}
          (passedFields mem entry.tableId 0 entry.fieldMatches) = some m) :
          5000 ≤ (pb.serialize .capEntryMatch m).length := by
        by_contra short
        exact fits ⟨mem, table, m, hasTable, made, Nat.not_le.mp short⟩
      obtain ⟨e, stopped⟩ := addConverted_stops converts₁ (long mem m converts₁.matchObj)
        (bounded mem m converts₁.matchObj)
      obtain ⟨e', stopped'⟩ := addConverted_stops converts₂ (long mem' m' converts₂.matchObj)
        (bounded mem' m' converts₂.matchObj)
      rw [insertConverted_of_error pb Brcm.target mem entry calls s stopped,
        insertConverted_of_error pb Brcm.target mem' entry calls s stopped']
      exact Or.inr ⟨rfl, rfl, rfl⟩

omit shipped in
/-- The id of a table is not that of an action. -/
theorem action?_of_table? {info : P4Info} {id : UInt32} {table : P4InfoTable}
    (known : info.table? id = some table) : info.action? id = none := by
  obtain ⟨res, found, isTable⟩ := Option.bind_eq_some_iff.mp known
  rw [P4Info.action?, found]
  cases res with
  | table table => rfl
  | action action => cases isTable

/-- The runs of an entry without an action of its own agree exactly if no action at all is
accepted with it. -/
theorem agree_indirect_iff (indirect : ∀ mem, convertAction mem entry.action = (mem.actionId, []))
    (calls : List AfiCall) :
    (∀ mem mem', Agree (insertConverted pb target mem entry calls s)
      (insertConverted pb target mem' entry calls s)) ↔
      ∀ aId, ¬ AfiAccepts target s entry.tableId aId
        ((passedFields {} entry.tableId 0 entry.fieldMatches).map AfiTEntryMatchField.id) [] := by
  have converted (mem : Memory) : AfiAccepts target s entry.tableId
      (convertAction mem entry.action).1
      ((passedFields mem entry.tableId 0 entry.fieldMatches).map AfiTEntryMatchField.id)
      ((convertAction mem entry.action).2.map AfiAEntry.id) ↔
        AfiAccepts target s entry.tableId mem.actionId
          ((passedFields {} entry.tableId 0 entry.fieldMatches).map AfiTEntryMatchField.id) [] := by
    rw [indirect, passedFields_ids mem entry.tableId {}]
    rfl
  constructor
  · intro agree aId accepts
    let mem : Memory := { actionId := aId }
    let mem' : Memory := { actionId := entry.tableId }
    have taken : ¬ EntryRefused (insertConverted pb target mem entry calls s) :=
      not_refused_of_accepts ((converted mem).mpr accepts)
    obtain ⟨isBrcm, table, action, hasTable, _, children⟩ :=
      childrenOf_accepted pb shipped accepts
    -- the id of the table stands for no action
    have unknown : ¬ AfiAccepts target s entry.tableId mem'.actionId
        ((passedFields {} entry.tableId 0 entry.fieldMatches).map AfiTEntryMatchField.id) [] := by
      rintro ⟨_, action, _, _, hasAction, _⟩
      rw [action?_of_table? hasTable] at hasAction
      cases hasAction
    obtain ⟨_, reported', bound'⟩ := refused_of_not_accepts pb shipped calls
      ((converted mem').not.mpr unknown)
    obtain ⟨m, a, _, _, handed⟩ := children (passedFields mem entry.tableId 0 entry.fieldMatches) []
      (passedFields_ids mem entry.tableId {} 0 entry.fieldMatches) rfl
    have run : addConverted pb target mem entry s = handleAfiJsonObjects pb target false
        ([AfiCap.matchRes pb table m, AfiCap.actionRes pb table a,
          AfiCap.entryRes pb table].map some) s := by
      rw [addConverted, indirect]
      exact afiAddObjEntry_known target handed
    rcases agree mem mem' with ⟨refused, _⟩ | ⟨status, _, bound⟩
    · exact taken refused
    · cases made : creation pb target (AfiCap.matchRes pb table m) with
      | error fault =>
          rw [List.map_cons, handleAfiJsonObjects_failed made] at run
          rw [reported', insertConverted_of_error pb target mem entry calls s run] at status
          cases status
      | ok created =>
          cases created with
          | none =>
              have registered : (target.creators (str "afi-cap-entry-match")).isSome = false :=
                creator_of_creation pb target made
              rw [isBrcm] at registered
              cases registered
          | some value =>
              rw [endState_insertConverted, endState_insertConverted, bound', run] at bound
              have binds := (handleAfiJsonObjects_binds (s := s) made
                [AfiCap.actionRes pb table a, AfiCap.entryRes pb table]).length_le
              rw [bound, List.length_cons] at binds
              exact Nat.not_succ_le_self _ binds
  · intro refused mem mem'
    left
    exact ⟨(refused_of_not_accepts pb shipped calls ((converted mem).not.mpr (refused _))).1,
      (refused_of_not_accepts pb shipped calls ((converted mem').not.mpr (refused _))).1⟩

end

/-- Whatever two runs of an insert find in memory that they have not written, they agree,
exactly if the entry is a default entry or is determined by itself, by the tables and by
the store. -/
theorem tableInsert_determined_iff (pb : Protobuf) (roundTrips : pb.RoundTrips)
    (shortActions : ∀ a, (pb.serialize .capEntryAction a).length < 5000) (target : Target)
    (shipped : Shipped target) (entry : TableEntry) (s : Agent)
    (sized : ∀ mem table m, s.p4Info.table? entry.tableId = some table →
      AfiCap.matchObj table {} (passedFields mem entry.tableId 0 entry.fieldMatches) = some m →
        (pb.serialize .capEntryMatch m).length < 2147483648) :
    (∀ mem mem', Agree (tableInsert pb target mem entry s) (tableInsert pb target mem' entry s)) ↔
      entry.isDefaultAction = true ∨ Determined pb target entry s := by
  cases isDefault : entry.isDefaultAction with
  | true =>
      refine iff_of_true (fun mem mem' => ?_) (Or.inl rfl)
      unfold tableInsert
      rw [if_pos isDefault, if_pos isDefault]
      exact Agree.refl _
  | false =>
      simp only [tableInsert_eq pb target _ isDefault, Bool.false_eq_true, false_or]
      have ends := addEntries_ends pb shipped entry s
      cases added : addEntries pb target entry.tableId entry.fieldMatches s with
      | error e t =>
          have unmade := ends.of_error added
          refine iff_of_true (fun mem mem' => ?_) ?_
          · rw [bind_of_error added, bind_of_error added]
            exact Agree.refl _
          · unfold Determined
            cases entry.action with
            | action aId params => exact fun inserts => absurd inserts.1 unmade
            | _ => exact fun aId inserts => unmade inserts.1
      | ok calls t =>
          have info : SameInfo s t := by
            rcases (ends.of_ok added).2 with ⟨_, stored⟩ | ⟨_, rfl⟩
            · exact stored.toSameInfo
            · exact SameInfo.refl _
          have fits : MatchFits pb entry t ↔ MatchFits pb entry s := by
            simp only [MatchFits, info.table]
          simp only [bind_of_ok added]
          unfold Determined
          simp only [inserts_iff shipped added]
          cases direct : entry.action with
          | action aId params =>
              by_cases accepts : AfiAccepts target t entry.tableId aId
                  ((passedFields {} entry.tableId 0 entry.fieldMatches).map AfiTEntryMatchField.id)
                  (params.map ActionParam.paramId)
              · have iff := agree_accepted_iff pb shipped roundTrips shortActions
                  (by simpa only [info.table] using sized) direct accepts calls
                rw [iff, fits, direct]
                simp only [info.table, info.action, accepts, true_imp_iff]
              · refine iff_of_true (fun mem mem' => ?_) fun wrong => absurd wrong accepts
                have refused (mem : Memory) :
                    EntryRefused (insertConverted pb target mem entry calls t) := by
                  apply (refused_of_not_accepts pb shipped calls _).1
                  rw [passedFields_ids mem entry.tableId {}, direct, convertAction_ids]
                  exact accepts
                exact Or.inl ⟨refused mem, refused mem'⟩
          | _ => exact agree_indirect_iff pb shipped (fun mem => by rw [direct]; rfl) calls


/-- A wrapper around one number takes few bytes. -/
theorem uintField_short (number : Nat) (value : Option UInt64) :
    (Proto3.encodeFields (AfiWire.uintField number value)).length ≤ 40 := by
  cases value with
  | none => exact Nat.zero_le _
  | some v =>
      have outer := Proto3.encode_bytes_length_le number
        (Proto3.encodeFields (if v = 0 then [] else [.varint 1 v.toNat]))
      have inner :
          (Proto3.encodeFields (if v = 0 then [] else [.varint 1 v.toNat])).length ≤ 20 := by
        by_cases zero : v = 0
        · rw [if_pos zero]
          exact Nat.zero_le _
        · rw [if_neg zero]
          have value := Proto3.encode_varint_length_le 1 v.toNat
          simpa [Proto3.encodeFields] using value
      have whole : Proto3.encodeFields (AfiWire.uintField number (some v)) =
          (Proto3.Field.bytes number
            (Proto3.encodeFields (if v = 0 then [] else [.varint 1 v.toNat]))).encode :=
        List.append_nil _
      rw [whole]
      omega

theorem boolField_short (number : Nat) (value : Option Bool) :
    (Proto3.encodeFields (AfiWire.boolField number value)).length ≤ 40 := by
  cases value with
  | none => exact Nat.zero_le _
  | some v =>
      have outer := Proto3.encode_bytes_length_le number
        (Proto3.encodeFields (if v then [.varint 1 1] else []))
      have inner : (Proto3.encodeFields (if v then [.varint 1 1] else [])).length ≤ 20 := by
        cases v <;> decide
      have whole : Proto3.encodeFields (AfiWire.boolField number (some v)) =
          (Proto3.Field.bytes number
            (Proto3.encodeFields (if v then [.varint 1 1] else []))).encode :=
        List.append_nil _
      rw [whole]
      omega

theorem actions_short (a : AfiCapEntryAction) :
    (AfiWire.protobuf.serialize .capEntryAction a).length < 5000 := by
  have vrf := uintField_short 72687718 a.vrf
  have classId := uintField_short 163126875 a.destinationClassId
  have copy := boolField_short 244904514 a.copyToCpu
  have queue := uintField_short 319334888 a.cpuQueue
  show (Proto3.encodeFields (_ ++ _ ++ _ ++ _)).length < 5000
  rw [Proto3.encodeFields_append, Proto3.encodeFields_append, Proto3.encodeFields_append,
    List.length_append, List.length_append, List.length_append]
  omega

theorem vrfEntry_safe : ¬ AfiCap.FieldExposed Spine.vrfTable
    (Spine.mfs Spine.first.1 Spine.first.2) := by
  rintro ⟨pre, mf, post, name, bitWidth, field, split, known, _, _, stray⟩
  have member : mf ∈ Spine.mfs Spine.first.1 Spine.first.2 := by
    rw [split]
    exact List.mem_append_right pre List.mem_cons_self
  have enough : ∀ mf ∈ Spine.mfs Spine.first.1 Spine.first.2, ∀ info,
      Spine.vrfTable.matchFieldInfo mf.id = some info →
        readLength info.2 ≤ mf.value.str.length + 1 ∧
          readLength info.2 ≤ mf.mask.str.length + 1 := by
    decide
  have long : readLength bitWidth ≤ mf.value.str.length + 1 ∧
      readLength bitWidth ≤ mf.mask.str.length + 1 := enough mf member _ known
  unfold AfiCap.Stray ReadsPast at stray
  omega

theorem tableInsert_determined_iff_spine : ∃ s,
    let entry := vrfEntry Spine.first.1 Spine.first.2
    run (Process.step AfiWire.protobuf Brcm.target) {} Spine.ops = some { agent := s } ∧
      ((∀ mem mem', Agree (tableInsert AfiWire.protobuf Brcm.target mem entry s)
          (tableInsert AfiWire.protobuf Brcm.target mem' entry s)) ↔
        entry.isDefaultAction = true ∨ Determined AfiWire.protobuf Brcm.target entry s) := by
  obtain ⟨s, afiPObj, reached, ready⟩ := Spine.ops_ready
  refine ⟨s, reached, ?_⟩
  apply tableInsert_determined_iff AfiWire.protobuf AfiWire.protobuf_roundTrips actions_short
    Brcm.target (Or.inr (Or.inr rfl))
  intro mem table m hasTable made
  obtain rfl := Option.some.inj (ready.hasTable.symm.trans hasTable)
  have matchObj : AfiCap.matchObj Spine.vrfTable {} (Spine.mfs Spine.first.1 Spine.first.2) =
      some (Spine.entryMatch Spine.first.1 Spine.first.2) := rfl
  have same : Spine.entryMatch Spine.first.1 Spine.first.2 = m :=
    AfiCap.matchObj_congr (passedFields_same {} Spine.vrfTable.id mem 0 _) vrfEntry_safe matchObj
      made
  have first : Spine.first ∈ [Spine.first, Spine.second] := List.mem_cons_self
  have short := (Spine.children_short first).1
  rw [← same]
  omega

/-- The entry of the VRF classifier without its action. -/
def actionlessEntry : TableEntry :=
  { vrfEntry Spine.first.1 Spine.first.2 with action := .notSet }

/-- Where the memory of the local happens to hold the id of an action the entry is installed
with it, elsewhere it is refused. -/
theorem tableInsert_undetermined : ∃ s t t',
    let mem : Memory := { actionId := Spine.setVrf.id }
    let mem' : Memory := { actionId := Spine.vrfTable.id }
    run (Process.step AfiWire.protobuf Brcm.target) {} Spine.ops = some { agent := s } ∧
      tableInsert AfiWire.protobuf Brcm.target mem actionlessEntry s =
        .ok (.OK, [.afiAddObjEntry true]) t ∧
      tableInsert AfiWire.protobuf Brcm.target mem' actionlessEntry s =
        .ok (.OK, [.afiAddObjEntry false]) t' ∧
      t.bound.length = s.bound.length + 3 ∧ t'.bound = s.bound ∧
      ¬ Agree (tableInsert AfiWire.protobuf Brcm.target mem actionlessEntry s)
        (tableInsert AfiWire.protobuf Brcm.target mem' actionlessEntry s) := by
  obtain ⟨s, afiPObj, reached, ready⟩ := Spine.ops_ready
  have first : Spine.first ∈ [Spine.first, Spine.second] := List.mem_cons_self
  obtain ⟨shortMatch, _, shortEntry⟩ := Spine.children_short first
  have named : ValidUtf8 Spine.vrfTable.name :=
    ⟨"ingress.vrf.vrf_classifier_table".toList, by decide⟩
  have children : childrenOf AfiWire.protobuf s Spine.vrfTable.id Spine.setVrf.id
      (Spine.mfs Spine.first.1 Spine.first.2) [] =
        some [AfiCap.matchRes AfiWire.protobuf Spine.vrfTable
            (Spine.entryMatch Spine.first.1 Spine.first.2),
          AfiCap.actionRes AfiWire.protobuf Spine.vrfTable {},
          AfiCap.entryRes AfiWire.protobuf Spine.vrfTable] := by
    apply childrenOf_eq _ ready.hasTable ready.hasAction ready.hasParent
    have isCap := ready.cap
    rcases afiPObj with ⟨addr, res, cls, message⟩
    cases isCap
    rfl
  obtain ⟨t₁, handled₁, first⟩ := handleAfiJsonObjects_made (s := s)
    (creation_matchRes Spine.vrfTable AfiWire.protobuf_roundTrips shortMatch)
  obtain ⟨t₂, handled₂, second⟩ := handleAfiJsonObjects_made (s := t₁)
    (creation_actionRes Spine.vrfTable AfiWire.protobuf_roundTrips (actions_short {}))
  obtain ⟨t₃, handled₃, third⟩ := handleAfiJsonObjects_made (s := t₂)
    (creation_entryRes Spine.vrfTable AfiWire.protobuf_roundTrips named shortEntry)
  have inserts : afiAddObjEntry AfiWire.protobuf Brcm.target Spine.vrfTable.id Spine.setVrf.id
      (Spine.mfs Spine.first.1 Spine.first.2) [] s = .ok true t₃ :=
    (afiAddObjEntry_known _ children).trans ((first _).trans ((second _).trans (third _)))
  -- the id of the table is not that of an action
  have unknown : ¬ AfiAccepts Brcm.target s Spine.vrfTable.id Spine.vrfTable.id
      ((Spine.mfs Spine.first.1 Spine.first.2).map AfiTEntryMatchField.id)
      (([] : List AfiAEntry).map AfiAEntry.id) := by
    rintro ⟨_, action, _, _, hasAction, _⟩
    rw [action?_of_table? ready.hasTable] at hasAction
    cases hasAction
  obtain ⟨t', refused, unchanged⟩ := afiAddObjEntry_refuses AfiWire.protobuf
    (Or.inr (Or.inr rfl)) unknown
  have converts (mem : Memory) : tableInsert AfiWire.protobuf Brcm.target mem actionlessEntry s =
      insertConverted AfiWire.protobuf Brcm.target mem actionlessEntry [] s := by
    have notSpecial : actionlessEntry.tableId ≠ addEntryTable := by decide
    rw [tableInsert_eq _ _ mem rfl, addEntries_plain fun special => absurd special notSpecial,
      pure_bind]
  have taken : addConverted AfiWire.protobuf Brcm.target { actionId := Spine.setVrf.id }
      actionlessEntry s = .ok true t₃ := inserts
  have skipped : addConverted AfiWire.protobuf Brcm.target { actionId := Spine.vrfTable.id }
      actionlessEntry s = .ok false t' := refused
  have bound : t₃.bound.length = s.bound.length + 3 := by
    rw [handled₃.bound, handled₂.bound, handled₁.bound]
    rfl
  refine ⟨s, t₃, t', reached, ?_, ?_, bound, unchanged.bound, ?_⟩
  · rw [converts]
    exact insertConverted_of_ok _ _ _ _ [] s taken
  · rw [converts]
    exact insertConverted_of_ok _ _ _ _ [] s skipped
  · rw [converts, converts]
    apply not_agree_of_bound
    · intro wrong
      obtain ⟨_, returned⟩ := (refused_insertConverted_iff ..).mp wrong
      cases taken.symm.trans returned
    · rw [taken, skipped]
      intro same
      have lengths : t₃.bound.length = t'.bound.length := congrArg List.length same
      rw [bound, unchanged.bound] at lengths
      omega

end P4RuntimeServiceImpl
end JP4Agent
