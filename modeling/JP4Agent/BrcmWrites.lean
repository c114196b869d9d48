import JP4Agent.AfiInsertResults
import JP4Agent.BrcmBinds
import JP4Agent.P4RuntimeDetermined

set_option autoImplicit false

namespace JP4Agent.Brcm
open Agent Afi AfiDevice P4 P4RuntimeServiceImpl

def capOf (s : Agent) (name : Str) : Option AfiCap :=
  match s.lookup name with
  | some ⟨_, _, .cap, co⟩ => some co
  | _ => none

/-- An entry of a table with a `cap` object. -/
structure CapRequest where
  table : Str
  co : AfiCap
  cemo : AfiCapEntryMatch
  ceao : AfiCapEntryAction

/-- The entry that an update adds to a table with a `cap` object, if it adds one. -/
def requested (s : Agent) (round : Update × Memory) : Option CapRequest :=
  match round.1.type, round.1.entity with
  | .insert, .tableEntry entry =>
    if entry.isDefaultAction || (entry.hasMeterConfig || entry.hasCounterData) then none
    else do
      let (actionId, aes) := convertAction round.2 entry.action
      let table ← s.p4Info.table? entry.tableId
      let action ← s.p4Info.action? actionId
      let co ← capOf s table.name
      let cemo ← AfiCap.matchObj table {} (passedFields round.2 entry.tableId 0 entry.fieldMatches)
      let ceao ← AfiCap.actionObj action {} aes
      pure ⟨table.name, co, cemo, ceao⟩
  | _, _ => none

def CapRequest.rule (request : CapRequest) (after : Nat → UInt8) : Rule :=
  BrcmCapEntry.bind request.co request.cemo request.ceao after

/-- The rules of these requests, latest first: each makes three objects, of which the first
is the match. -/
def madeRules (memory : Nat → Nat → UInt8) : Nat → List CapRequest → List Rule
  | _, [] => []
  | addr, request :: rest => madeRules memory (addr + 3) rest ++ [request.rule (memory addr)]

/-- The names of the objects that a request stores. -/
def childNames (table : Str) : List Str :=
  [AfiCap.matchName table, AfiCap.actionName table, AfiCap.entryName table]

/-- No table has a name that is made for an entry of a table. -/
def Apart (s : Agent) : Prop :=
  ∀ id table, s.p4Info.table? id = some table → ∀ id' table', s.p4Info.table? id' = some table' →
    table.name ∉ childNames table'.name

/-- The name is text, and the messages fit into the buffers that they are decoded into. -/
structure CapRequest.Fits (pb : Protobuf) (request : CapRequest) : Prop where
  named : ValidUtf8 request.table
  cemo : (pb.serialize .capEntryMatch request.cemo).length < 5000
  ceao : (pb.serialize .capEntryAction request.ceao).length < 5000
  entry : (pb.serialize .capEntry (AfiCap.capEntryObj request.table)).length < 5000

/-- The update does not go to `addEntry`. -/
def NoRoute (round : Update × Memory) : Prop :=
  ∀ entry, round.1.entity = .tableEntry entry → ¬ AddsEntry entry

section
variable (pb : Protobuf)

theorem step_insert {target : Target} {entry : TableEntry} {mem : Memory} {s t : Agent}
    {returned : Bool} (direct : entry.hasMeterConfig = false ∧ entry.hasCounterData = false)
    (notDefault : entry.isDefaultAction = false) (noRoute : ¬ AddsEntry entry)
    (added : afiAddObjEntry pb target entry.tableId (convertAction mem entry.action).1
      (passedFields mem entry.tableId 0 entry.fieldMatches) (convertAction mem entry.action).2 s =
        .ok returned t) :
    P4RuntimeServiceImpl.step pb target s (⟨.insert, .tableEntry entry⟩, mem) = some t := by
  have plain : entry.tableId = addEntryTable →
      ∀ mf ∈ entry.fieldMatches, FieldMatchType.isLpm mf.type = false := by
    intro special mf member
    by_contra lpm
    exact noRoute ⟨special, mf, member, Bool.eq_true_of_not_eq_false lpm⟩
  have inserted : tableInsert pb target mem entry s =
      .ok (.OK, [.afiAddObjEntry returned]) t := by
    rw [tableInsert_eq pb target mem notDefault, addEntries_plain plain]
    exact bind_eq_ok.mpr ⟨[], s, rfl, bind_eq_ok.mpr ⟨returned, t, added, rfl⟩⟩
  have written : writeUpdate pb target .OK ⟨.insert, .tableEntry entry⟩ mem s =
      .ok (.OK, [.afiAddObjEntry returned]) t := by
    show tableWrite pb target mem .insert entry s = _
    rw [tableWrite, direct.1, direct.2]
    exact inserted
  rw [P4RuntimeServiceImpl.step, written]

theorem capOf_eq_some {s : Agent} {name : Str} {co : AfiCap} :
    capOf s name = some co ↔ ∃ addr res, s.lookup name = some ⟨addr, res, .cap, co⟩ := by
  unfold capOf
  constructor
  · intro found
    split at found
    · rename_i addr res co' bound
      cases found
      exact ⟨addr, res, bound⟩
    · cases found
  · rintro ⟨addr, res, bound⟩
    rw [bound]

theorem lookup_of_ne {s t : Agent} {obj : AfiObject} (stored : Stored s obj t) {name : Str}
    (other : name ≠ obj.name) : t.lookup name = s.lookup name := by
  rw [stored.lookup, if_neg (Ne.symm other)]

/-- What a requested entry is made from. -/
structure Requested (s : Agent) (round : Update × Memory) (request : CapRequest)
    (entry : TableEntry) (table : P4InfoTable) (action : P4InfoAction) : Prop where
  update : round.1 = ⟨.insert, .tableEntry entry⟩
  notDefault : entry.isDefaultAction = false
  direct : entry.hasMeterConfig = false ∧ entry.hasCounterData = false
  hasTable : s.p4Info.table? entry.tableId = some table
  hasAction : s.p4Info.action? (convertAction round.2 entry.action).1 = some action
  name : request.table = table.name
  co : capOf s table.name = some request.co
  cemo : AfiCap.matchObj table {} (passedFields round.2 entry.tableId 0 entry.fieldMatches) =
    some request.cemo
  ceao : AfiCap.actionObj action {} (convertAction round.2 entry.action).2 = some request.ceao

theorem requested_iff {s : Agent} {round : Update × Memory} {request : CapRequest} :
    requested s round = some request ↔
      ∃ entry table action, Requested s round request entry table action := by
  rcases round with ⟨⟨type, entity⟩, mem⟩
  constructor
  · intro made
    cases type with
    | insert =>
        cases entity with
        | tableEntry entry =>
            unfold requested at made
            dsimp only at made
            split at made
            · cases made
            · rename_i taken
              simp only [Bool.or_eq_true, not_or, Bool.not_eq_true] at taken
              simp only [Option.bind_eq_bind, Option.bind_eq_some_iff, Option.pure_def,
                Option.some.injEq] at made
              obtain ⟨table, hasTable, action, hasAction, co, found, cemo, hasMatch, ceao,
                hasActionObj, rfl⟩ := made
              exact ⟨entry, table, action, rfl, taken.1, taken.2, hasTable, hasAction, rfl, found,
                hasMatch, hasActionObj⟩
        | _ => cases made
    | _ => cases made
  · intro made
    obtain ⟨entry, table, action, request'⟩ := made
    obtain ⟨rfl, rfl⟩ := P4.Update.mk.inj request'.update
    unfold requested
    dsimp only
    rw [request'.notDefault, request'.direct.1, request'.direct.2]
    have co := request'.co
    rw [← request'.name] at co
    simp [request'.hasTable, request'.hasAction, co, request'.cemo, request'.ceao, ← request'.name]

/-- `t` is `s` with the objects of the request stored and its rule installed. -/
structure Ruled (memory : Nat → Nat → UInt8) (s : Agent) (request : CapRequest) (t : Agent) :
    Prop extends SameInfo s t where
  nextAddr : t.nextAddr = s.nextAddr + 3
  lookup : ∀ name, name ∉ childNames request.table → t.lookup name = s.lookup name
  rules : rules memory t.installed =
    request.rule (memory s.nextAddr) :: rules memory s.installed

end

section
variable {pb : Protobuf} (roundTrips : pb.RoundTrips) (memory : Nat → Nat → UInt8)
include roundTrips

omit memory in
theorem child_made (s : Agent) {c : AfiClass} {message : c.Message} {type : Str} (id : Nat)
    (name : Str) (creator : target.creators type = some c)
    (strings : ∀ s ∈ stringFields c message, ValidUtf8 s)
    (short : (pb.serialize c message).length < 5000) :
    ∃ t, Handled target s ⟨s.nextAddr, childJsonRes pb type id name c message, c, message⟩ false t ∧
      ∀ rest, handleAfiJsonObjects pb target false
          (some (childJsonRes pb type id name c message) :: rest) s =
        handleAfiJsonObjects pb target false rest t :=
  handleAfiJsonObjects_made (creation_of_short roundTrips creator strings short)

/-- A requested entry is made, whatever the names of its objects were bound to. -/
theorem step_requested {s : Agent} {round : Update × Memory} {request : CapRequest}
    (made : requested s round = some request) (fits : request.Fits pb) (noRoute : NoRoute round) :
    ∃ t, P4RuntimeServiceImpl.step pb target s round = some t ∧ Ruled memory s request t := by
  obtain ⟨entry, table, action, made⟩ := requested_iff.mp made
  rcases round with ⟨update, mem⟩
  obtain rfl := made.update
  obtain ⟨addr, res, found⟩ := capOf_eq_some.mp made.co
  have named : ValidUtf8 table.name := made.name ▸ fits.named
  have children : childrenOf pb s entry.tableId (convertAction mem entry.action).1
      (passedFields mem entry.tableId 0 entry.fieldMatches) (convertAction mem entry.action).2 =
        some [childJsonRes pb (str "afi-cap-entry-match") (AfiCap.id + 1)
            (AfiCap.matchName table.name) .capEntryMatch request.cemo,
          childJsonRes pb (str "afi-cap-entry-action") (AfiCap.id + 2)
            (AfiCap.actionName table.name) .capEntryAction request.ceao,
          childJsonRes pb (str "afi-cap-entry") AfiCap.id (AfiCap.entryName table.name) .capEntry
            (AfiCap.capEntryObj table.name)] := by
    refine childrenOf_eq pb made.hasTable made.hasAction found ?_
    show AfiCap.childObjs pb table action _ _ = _
    simp only [AfiCap.childObjs, made.cemo, made.ceao]
  have entryFits := fits.entry
  rw [made.name] at entryFits
  obtain ⟨t₁, first, toFirst⟩ := child_made roundTrips s (AfiCap.id + 1)
    (AfiCap.matchName table.name)
    (show target.creators (str "afi-cap-entry-match") = some .capEntryMatch from rfl)
    (by simp [stringFields]) fits.cemo
  obtain ⟨t₂, second, toSecond⟩ := child_made roundTrips t₁ (AfiCap.id + 2)
    (AfiCap.actionName table.name)
    (show target.creators (str "afi-cap-entry-action") = some .capEntryAction from rfl)
    (by simp [stringFields]) fits.ceao
  obtain ⟨t₃, third, toThird⟩ := child_made roundTrips t₂ AfiCap.id (AfiCap.entryName table.name)
    (show target.creators (str "afi-cap-entry") = some .capEntry from rfl)
    (AfiCap.capEntryObj_utf8 named) entryFits
  have added : afiAddObjEntry pb target entry.tableId (convertAction mem entry.action).1
      (passedFields mem entry.tableId 0 entry.fieldMatches) (convertAction mem entry.action).2 s =
        .ok true t₃ := by
    rw [afiAddObjEntry_known target children, List.map_cons, toFirst, List.map_cons, toSecond,
      List.map_cons, toThird]
    rfl
  have inserted := capInserted_of_handled found rfl made.cemo made.ceao (Looked.refl s) rfl rfl rfl
    rfl first second third
  refine ⟨t₃, step_insert pb made.direct made.notDefault (noRoute entry rfl) added, ?_⟩
  refine ⟨(first.toSameInfo.trans second.toSameInfo).trans third.toSameInfo, ?_, ?_, ?_⟩
  · rw [third.nextAddr, second.nextAddr, first.nextAddr]
  · intro name other
    rw [made.name] at other
    simp only [childNames, List.mem_cons, List.not_mem_nil, or_false, not_or] at other
    exact (lookup_of_ne third.toStored other.2.2).trans
      ((lookup_of_ne second.toStored other.2.1).trans (lookup_of_ne first.toStored other.1))
  · rw [inserted.installed]
    rfl

omit roundTrips

/-- An insert that reaches the AFI layer and asks for no entry is one it does not accept. -/
theorem not_accepted {s : Agent} {entry : TableEntry} {mem : Memory}
    (direct : entry.hasMeterConfig = false ∧ entry.hasCounterData = false)
    (notDefault : entry.isDefaultAction = false)
    (ignored : requested s (⟨.insert, .tableEntry entry⟩, mem) = none) :
    ¬ AfiAccepts target s entry.tableId (convertAction mem entry.action).1
      ((passedFields mem entry.tableId 0 entry.fieldMatches).map AfiTEntryMatchField.id)
      ((convertAction mem entry.action).2.map AfiAEntry.id) := by
  rintro ⟨table, action, ⟨addr, res, cls, co⟩, hasTable, hasAction, found, fields, params, makes,
    creators⟩
  obtain ⟨-, rfl⟩ := cap_of_creators (Or.inr (Or.inr rfl)) makes creators
  obtain ⟨cemo, hasMatch⟩ := Option.isSome_iff_exists.mp
    ((AfiCap.matchObj_isSome table _ {}).mpr fields)
  obtain ⟨ceao, hasActionObj⟩ := Option.isSome_iff_exists.mp
    ((AfiCap.actionObj_isSome action _ {}).mpr params)
  have made : requested s (⟨.insert, .tableEntry entry⟩, mem) = some ⟨table.name, co, cemo, ceao⟩ :=
    requested_iff.mpr ⟨entry, table, action, rfl, notDefault, direct, hasTable, hasAction, rfl,
      capOf_eq_some.mpr ⟨addr, res, found⟩, hasMatch, hasActionObj⟩
  rw [ignored] at made
  cases made

/-- An update that asks for no entry leaves the device and the store as they are. -/
theorem step_ignored {s : Agent} {round : Update × Memory} (ignored : requested s round = none)
    (noRoute : NoRoute round) :
    ∃ t, P4RuntimeServiceImpl.step pb target s round = some t ∧ Unchanged s t := by
  rcases round with ⟨⟨type, entity⟩, mem⟩
  have skipped (status : Status)
      (written : writeUpdate pb target .OK ⟨type, entity⟩ mem s = .ok (status, []) s) :
      ∃ t, P4RuntimeServiceImpl.step pb target s (⟨type, entity⟩, mem) = some t ∧
        Unchanged s t := by
    refine ⟨s, ?_, Unchanged.refl s⟩
    rw [P4RuntimeServiceImpl.step, written]
  cases entity with
  | tableEntry entry =>
      by_cases direct : (entry.hasMeterConfig || entry.hasCounterData) = true
      · refine skipped .OK ?_
        show tableWrite pb target mem type entry s = _
        unfold tableWrite
        rw [if_pos direct]
        rfl
      · cases type with
        | insert =>
            by_cases isDefault : entry.isDefaultAction = true
            · refine skipped .OK ?_
              show tableWrite pb target mem .insert entry s = _
              rw [tableWrite, if_neg direct]
              show tableInsert pb target mem entry s = _
              rw [tableInsert, if_pos isDefault]
              rfl
            · rw [Bool.not_eq_true, Bool.or_eq_false_iff] at direct
              rw [Bool.not_eq_true] at isDefault
              obtain ⟨t, added, unchanged⟩ := afiAddObjEntry_refuses pb (Or.inr (Or.inr rfl))
                (not_accepted direct isDefault ignored)
              exact ⟨t, step_insert pb direct isDefault (noRoute entry rfl) added, unchanged⟩
        | _ =>
            refine skipped .OK ?_
            rw [writeUpdate]
            dsimp only
            unfold tableWrite
            rw [if_neg direct]
            rfl
  | _ => exact skipped .OK rfl

theorem capOf_congr {s t : Agent} {name : Str} (same : t.lookup name = s.lookup name) :
    capOf t name = capOf s name := by
  rw [capOf, capOf, same]

/-- What an update asks for depends on the tables, the actions and the objects of tables. -/
theorem requested_congr {s t : Agent} (info : SameInfo s t)
    (caps : ∀ id table, s.p4Info.table? id = some table → t.lookup table.name = s.lookup table.name)
    (round : Update × Memory) : requested t round = requested s round := by
  rcases round with ⟨⟨type, entity⟩, mem⟩
  cases type with
  | insert =>
      cases entity with
      | tableEntry entry =>
          unfold requested
          simp only [info.table, info.action]
          cases known : s.p4Info.table? entry.tableId with
          | none => rfl
          | some table =>
              have same := capOf_congr (caps _ _ known)
              simp only [Option.bind_eq_bind, Option.bind_some, same]
      | _ => rfl
  | _ => cases entity <;> rfl

include roundTrips in
theorem updates_make_rules (rounds : List (Update × Memory)) : ∀ s : Agent, Apart s →
    (∀ round ∈ rounds, NoRoute round) →
    (∀ request ∈ rounds.filterMap (requested s), request.Fits pb) →
      ∃ t, run (P4RuntimeServiceImpl.step pb target) s rounds = some t ∧
        rules memory t.installed =
          madeRules memory s.nextAddr (rounds.filterMap (requested s)) ++
            rules memory s.installed := by
  induction rounds with
  | nil => exact fun s _ _ _ => ⟨s, rfl, rfl⟩
  | cons round rest ih =>
      intro s apart noRoutes fits
      rw [List.forall_mem_cons] at noRoutes
      -- the rest runs in a state that asks for the same
      have later {u : Agent} (info : SameInfo s u)
          (caps : ∀ id table, s.p4Info.table? id = some table →
            u.lookup table.name = s.lookup table.name)
          (fits : ∀ request ∈ rest.filterMap (requested s), request.Fits pb) :
          ∃ t, run (P4RuntimeServiceImpl.step pb target) u rest = some t ∧
            rules memory t.installed =
              madeRules memory u.nextAddr (rest.filterMap (requested s)) ++
                rules memory u.installed := by
        have same := funext (requested_congr info caps)
        have apart' : Apart u := by
          intro id table known id' table' known'
          rw [info.table] at known known'
          exact apart id table known id' table' known'
        rw [← same] at fits ⊢
        exact ih u apart' noRoutes.2 fits
      cases asked : requested s round with
      | none =>
          rw [List.filterMap_cons, asked] at fits ⊢
          have ignored : ∃ u, P4RuntimeServiceImpl.step pb target s round = some u ∧
              Unchanged s u := step_ignored asked noRoutes.1
          obtain ⟨u, taken, unchanged⟩ := ignored
          obtain ⟨t, ran, made⟩ := later unchanged.toSameInfo
            (fun _ table _ => unchanged.lookup table.name) fits
          rw [unchanged.nextAddr, unchanged.installed] at made
          exact ⟨t, by rw [run, taken, Option.bind_some, ran], made⟩
      | some request =>
          rw [List.filterMap_cons, asked] at fits ⊢
          rw [List.forall_mem_cons] at fits
          obtain ⟨u, taken, ruled⟩ := step_requested roundTrips memory asked fits.1 noRoutes.1
          obtain ⟨entry, table', action, made⟩ := requested_iff.mp asked
          have caps : ∀ id table, s.p4Info.table? id = some table →
              u.lookup table.name = s.lookup table.name := by
            intro id table known
            apply ruled.lookup
            rw [made.name]
            exact apart id table known _ table' made.hasTable
          obtain ⟨t, ran, later⟩ := later ruled.toSameInfo caps fits.2
          refine ⟨t, by rw [run, taken, Option.bind_some, ran], ?_⟩
          rw [later, ruled.nextAddr, ruled.rules, madeRules, List.append_assoc]
          rfl

end

section
variable (pb : Protobuf)

/-- Updates that all go through make a request that is answered with OK. -/
theorem writeUpdates_of_run {target : Target} (updates : List (Update × Memory)) :
    ∀ {s t : Agent}, run (P4RuntimeServiceImpl.step pb target) s updates = some t →
      ∃ calls, writeUpdates pb target .OK updates s = .ok (.OK, calls) t := by
  induction updates with
  | nil =>
      intro s t ran
      cases ran
      exact ⟨[], rfl⟩
  | cons round rest ih =>
      intro s t ran
      obtain ⟨u, taken, more⟩ := run_cons ran
      obtain ⟨others, rested⟩ := ih more
      have ends := writeUpdate_ends pb target round.2 round.1 s
      rw [P4RuntimeServiceImpl.step] at taken
      cases written : writeUpdate pb target .OK round.1 round.2 s with
      | error e u' =>
          rw [written] at taken
          cases taken
      | ok r u' =>
          rw [written] at taken
          cases taken
          obtain ⟨status, calls⟩ := r
          obtain rfl : status = .OK := (ends.of_ok written).1
          refine ⟨calls :: others, bind_eq_ok.mpr ⟨_, u, written, ?_⟩⟩
          exact bind_eq_ok.mpr ⟨_, t, rested, rfl⟩

/-- The state after a `Write` that is answered with OK. -/
def writeStep (target : Target) (s : Agent) (updates : List (Update × Memory)) : Option Agent :=
  match write pb target updates s with
  | .ok (status, _) t => if status = .OK then some t else none
  | .error _ _ => none

theorem writeStep_of_run {target : Target} {updates : List (Update × Memory)} {s t : Agent}
    (ran : run (P4RuntimeServiceImpl.step pb target) s updates = some t) :
    writeStep pb target s updates = some t := by
  obtain ⟨calls, written⟩ := writeUpdates_of_run pb updates ran
  have written : write pb target updates s = .ok (.OK, calls) t := written
  rw [writeStep, written]
  exact if_pos rfl

theorem writeStep_single {target : Target} {update : Update × Memory} {s t : Agent}
    (stepped : P4RuntimeServiceImpl.step pb target s update = some t) :
    writeStep pb target s [update] = some t := by
  apply writeStep_of_run
  rw [run, stepped]
  rfl

/-- The updates may come in any number of requests. -/
theorem writeSteps_of_run {target : Target} (requests : List (List (Update × Memory))) :
    ∀ {s t : Agent}, run (P4RuntimeServiceImpl.step pb target) s requests.flatten = some t →
      run (writeStep pb target) s requests = some t := by
  induction requests with
  | nil => exact fun ran => ran
  | cons updates rest ih =>
      intro s t ran
      rw [List.flatten_cons, run_append] at ran
      obtain ⟨u, first, more⟩ := Option.bind_eq_some_iff.mp ran
      rw [run, writeStep_of_run pb first, Option.bind_some]
      exact ih more

/-- Over any sequence of `Write` requests, all of them answered with OK, the rules added to
the device are those of the entries asked for, each once and in their order. Entries
overwrite the objects of earlier ones of their table, but not their rules. -/
theorem writes_make_rules (roundTrips : pb.RoundTrips) (memory : Nat → Nat → UInt8) (s : Agent)
    (apart : Apart s) (requests : List (List (Update × Memory)))
    (noRoutes : ∀ updates ∈ requests, ∀ round ∈ updates, NoRoute round)
    (fits : ∀ request ∈ requests.flatten.filterMap (requested s), request.Fits pb) :
    ∃ t, run (writeStep pb target) s requests = some t ∧
      rules memory t.installed =
        madeRules memory s.nextAddr (requests.flatten.filterMap (requested s)) ++
          rules memory s.installed := by
  have each : ∀ round ∈ requests.flatten, NoRoute round := by
    intro round member
    obtain ⟨updates, listed, inside⟩ := List.mem_flatten.mp member
    exact noRoutes updates listed round inside
  obtain ⟨t, ran, made⟩ := updates_make_rules roundTrips memory requests.flatten s apart each fits
  exact ⟨t, writeSteps_of_run pb requests ran, made⟩

end

theorem spine_tables {s : Agent} (info : SameInfo { p4Info := Spine.p4Info } s) {id : UInt32}
    {table : P4InfoTable} (known : s.p4Info.table? id = some table) : table = Spine.vrfTable := by
  rw [info.table] at known
  have resource : Spine.p4Info.p4InfoResource id =
      if Spine.vrfTable.id = id then some (.table Spine.vrfTable)
      else if Spine.setVrf.id = id then some (.action Spine.setVrf) else none := by
    rw [Spine.p4Info, P4Info.p4InfoResource_insert2NameMap, P4Info.p4InfoResource_insert2IdMap,
      P4Info.p4InfoResource_insert2NameMap, P4Info.p4InfoResource_insert2IdMap]
    rfl
  have known : (Spine.p4Info.p4InfoResource id).bind P4InfoResource.table? = some table := known
  rw [resource] at known
  split at known
  · exact (Option.some.inj known).symm
  · split at known <;> cases known

theorem spine_apart {s : Agent} (info : SameInfo { p4Info := Spine.p4Info } s) : Apart s := by
  intro id table known id' table' known'
  rw [spine_tables info known, spine_tables info known']
  decide

theorem spine_requested {s : Agent} {addr : Nat} {res : AfiJsonResource} {co : AfiCap}
    (ready : Spine.Ready s ⟨addr, res, .cap, co⟩) (mac dst : Str) :
    requested s (⟨.insert, .tableEntry (vrfEntry mac dst)⟩, {}) =
      some ⟨Spine.vrfTable.name, co, Spine.entryMatch mac dst, Spine.entryAction⟩ :=
  requested_iff.mpr ⟨vrfEntry mac dst, Spine.vrfTable, Spine.setVrf, rfl, rfl, ⟨rfl, rfl⟩,
    ready.hasTable, ready.hasAction, rfl, capOf_eq_some.mpr ⟨addr, res, ready.hasParent⟩, rfl, rfl⟩

theorem spine_noRoute (mac dst : Str) (mem : Memory) :
    NoRoute (⟨.insert, .tableEntry (vrfEntry mac dst)⟩, mem) := by
  intro entry same adds
  obtain rfl := Entity.tableEntry.inj same
  exact absurd adds.1 (show Spine.vrfTable.id ≠ addEntryTable by decide)

theorem spine_named : ValidUtf8 Spine.vrfTable.name :=
  ⟨"ingress.vrf.vrf_classifier_table".toList, by decide⟩

def spineWrites : List (List (Update × Memory)) :=
  [Spine.first, Spine.second].map fun entry =>
    [(⟨.insert, .tableEntry (vrfEntry entry.1 entry.2)⟩, {})]

theorem writes_make_rules_spine : ∃ s t co,
    let rule (entry : Str × Str) : Rule :=
      BrcmCapEntry.bind co (Spine.entryMatch entry.1 entry.2) Spine.entryAction fun _ => 0
    run (Process.step AfiWire.protobuf target) {} Spine.ops = some { agent := s } ∧
      run (writeStep AfiWire.protobuf target) s spineWrites = some t ∧
      rules (fun _ _ => 0) t.installed =
        [rule Spine.second, rule Spine.first] ++ rules (fun _ _ => 0) s.installed := by
  obtain ⟨s, reached, _, contents, info⟩ := Spine.ops_loaded
  have bound := (congrFun contents Spine.vrfTable.name).trans Spine.loaded_vrfTable
  obtain ⟨⟨addr, res, cls, co⟩, found, value⟩ := Option.map_eq_some_iff.mp bound
  obtain rfl : cls = .cap := congrArg Sigma.fst value
  have ready : Spine.Ready s ⟨addr, res, .cap, co⟩ :=
    ⟨(info.table _).trans Spine.p4Info_table, (info.action _).trans Spine.p4Info_action, found, rfl⟩
  have asked : spineWrites.flatten.filterMap (requested s) =
      [Spine.first, Spine.second].map fun entry =>
        ⟨Spine.vrfTable.name, co, Spine.entryMatch entry.1 entry.2, Spine.entryAction⟩ := by
    simp [spineWrites, spine_requested ready]
  have fits : ∀ request ∈ spineWrites.flatten.filterMap (requested s),
      request.Fits AfiWire.protobuf := by
    rw [asked, List.forall_mem_map]
    intro entry member
    obtain ⟨shortMatch, shortAction, shortEntry⟩ := Spine.children_short member
    exact ⟨spine_named, shortMatch, shortAction, shortEntry⟩
  obtain ⟨t, ran, made⟩ := writes_make_rules AfiWire.protobuf AfiWire.protobuf_roundTrips
    (fun _ _ => 0) s (spine_apart info) spineWrites (by simp [spineWrites, spine_noRoute]) fits
  rw [asked] at made
  exact ⟨s, t, co, reached, ran, made⟩

end JP4Agent.Brcm
