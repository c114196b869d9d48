import JP4Agent.AfiBinds
import JP4Agent.AfiInsertRuns
import JP4Agent.AfiWireRoundTrip
import JP4Agent.Base64RoundTrip
import JP4Agent.Base64Stores

set_option autoImplicit false

namespace JP4Agent
open Agent Afi AfiDevice

section
variable {pb : Protobuf}

theorem decodedLength_encodeMessage (c : AfiClass) (message : c.Message) :
    Base64.decodedLength (encodeMessage pb c message) = (pb.serialize c message).length := by
  rw [encodeMessage, Base64.base64Encode_eq, Base64.decodedLength_encodeBytes]

theorem creation_of_short (roundTrips : pb.RoundTrips) {target : Target} {type : Str} {id : Nat}
    {name : Str} {c : AfiClass} {message : c.Message} (creator : target.creators type = some c)
    (strings : ∀ s ∈ stringFields c message, ValidUtf8 s)
    (short : (pb.serialize c message).length < 5000) :
    creation pb target (childJsonRes pb type id name c message) = .ok (some ⟨c, message⟩) := by
  rw [creation_childJsonRes pb short target id name creator,
    roundTrips c message strings (by omega)]

theorem creation_generated (roundTrips : pb.RoundTrips) {target : Target} {type : Str} {id : Nat}
    {name : Str} {c : AfiClass} {message : c.Message} (creator : target.creators type = some c)
    (strings : ∀ s ∈ stringFields c message, ValidUtf8 s)
    (fits : Base64.decodedLength (childJsonRes pb type id name c message).objStr < 5000) :
    creation pb target (childJsonRes pb type id name c message) = .ok (some ⟨c, message⟩) := by
  apply creation_of_short roundTrips creator strings
  rw [← decodedLength_encodeMessage]
  exact fits

theorem creation_of_long {target : Target} {type : Str} {id : Nat} {name : Str}
    {c : AfiClass} {message : c.Message} (creator : target.creators type = some c)
    (long : 5000 ≤ (pb.serialize c message).length)
    (small : (pb.serialize c message).length < 2147483648) :
    ∃ fault, creation pb target (childJsonRes pb type id name c message) = .error fault := by
  obtain ⟨fault, failed⟩ := Base64.base64DecodeFrom_encodeBytes_long 5000 (fun _ => 0)
    (pb.serialize c message) (by decide) long small
  have constructed : construct pb c (encodeMessage pb c message) = .error fault := by
    rw [construct, encodeMessage, Base64.base64Encode_eq, Base64.base64Decode, failed]
    rfl
  refine ⟨fault, ?_⟩
  rw [creation, childJsonRes]
  simp only [creator, constructed]
  rfl

end

theorem AfiCap.capEntryObj_utf8 {table : Str} (named : ValidUtf8 table) :
    ∀ s ∈ stringFields .capEntry (capEntryObj table), ValidUtf8 s := by
  have matchEnding : ValidUtf8 (str "_entry_match_1233458") :=
    ⟨"_entry_match_1233458".toList, by decide⟩
  have actionEnding : ValidUtf8 (str "_entry_action_1233459") :=
    ⟨"_entry_action_1233459".toList, by decide⟩
  have names := AfiCap.childNames table
  simp only [endings, List.map_cons, List.map_nil, List.cons.injEq] at names
  intro s member
  simp only [stringFields, capEntryObj, Option.toList_some, List.cons_append, List.nil_append,
    List.mem_cons, List.not_mem_nil, or_false] at member
  rcases member with rfl | rfl | rfl
  · exact named
  · rw [names.1]
    exact named.append matchEnding
  · rw [names.2.1]
    exact named.append actionEnding

/-- A reached entry of a `cap` table: its objects are new, made of the messages built from
the request, and the entry was installed with the table's own object and with the match
and the action of the same request. -/
structure CapInserted (s : Agent) (table : P4InfoTable) (action : P4InfoAction)
    (mfs : List AfiTEntryMatchField) (aes : List AfiAEntry) (afiPObj : AfiObject)
    (eObjs : List AfiJsonResource) (mObj aObj eObj : AfiObject) (t : Agent) : Prop where
  array : eObjs = [mObj.jsonRes, aObj.jsonRes, eObj.jsonRes]
  addrs : [mObj.addr, aObj.addr, eObj.addr] = [s.nextAddr, s.nextAddr + 1, s.nextAddr + 2]
  matchObj : ∃ m, AfiCap.matchObj table {} mfs = some m ∧ mObj.value = ⟨.capEntryMatch, m⟩
  actionObj : ∃ a, AfiCap.actionObj action {} aes = some a ∧ aObj.value = ⟨.capEntryAction, a⟩
  entryObj : eObj.value = ⟨.capEntry, AfiCap.capEntryObj table.name⟩
  bound : t.bound = [eObj, aObj, mObj] ++ s.bound
  installed : t.installed =
    [⟨eObj, [afiPObj, mObj, aObj]⟩, ⟨aObj, []⟩, ⟨mObj, []⟩] ++ s.installed
  stored : ∀ obj ∈ [mObj, aObj, eObj], t.lookup obj.name = some obj

section
variable (pb : Protobuf)

theorem AfiCap.childObjs_eq {table : P4InfoTable} {action : P4InfoAction}
    {mfs : List AfiTEntryMatchField} {aes : List AfiAEntry} {eObjs : List AfiJsonResource}
    (created : childObjs pb table action mfs aes = (true, eObjs)) :
    ∃ m a, matchObj table {} mfs = some m ∧ actionObj action {} aes = some a ∧
      eObjs = [childJsonRes pb (str "afi-cap-entry-match") (id + 1) (matchName table.name)
          .capEntryMatch m,
        childJsonRes pb (str "afi-cap-entry-action") (id + 2) (actionName table.name)
          .capEntryAction a,
        childJsonRes pb (str "afi-cap-entry") id (entryName table.name) .capEntry
          (capEntryObj table.name)] := by
  unfold childObjs at created
  cases hasMatch : matchObj table {} mfs with
  | none => simp [hasMatch] at created
  | some m =>
      cases hasAction : actionObj action {} aes with
      | none => simp [hasMatch, hasAction] at created
      | some a =>
          simp only [hasMatch, hasAction, Prod.mk.injEq, true_and] at created
          exact ⟨m, a, rfl, rfl, created.symm⟩

/-- A call for a table with a `cap` object that returns true found the action, and made the
three children. -/
theorem AfiCap.createChildJsonRes_created {afiPObj : AfiObject} {tId aId : UInt32}
    {mfs : List AfiTEntryMatchField} {aes : List AfiAEntry} {table : P4InfoTable}
    {eObjs : List AfiJsonResource} {s t : Agent} (hasTable : s.p4Info.table? tId = some table)
    (isCap : afiPObj.cls = .cap)
    (created : afiPObj.createChildJsonRes pb tId aId mfs aes s = .ok (true, eObjs) t) :
    ∃ action, s.p4Info.action? aId = some action ∧
      afiPObj.childObjs pb table action mfs aes = (true, eObjs) ∧
      childObjs pb table action mfs aes = (true, eObjs) := by
  have children := ((createChildJsonRes_ends pb afiPObj tId aId mfs aes s).of_ok created).1
  rw [AfiObject.createdChildren, hasTable] at children
  cases hasAction : s.p4Info.action? aId with
  | none => simp [hasAction] at children
  | some action =>
      rw [hasAction] at children
      refine ⟨action, rfl, children.symm, ?_⟩
      rcases afiPObj with ⟨addr, res, cls, message⟩
      cases isCap
      exact children.symm

theorem AfiCap.names_nodup (table : Str) :
    [table, matchName table, actionName table, entryName table].Nodup := by
  have endings : ([[]] ++ AfiCap.endings).Nodup := by decide
  have names := nodup_map_append _ endings table
  rw [List.map_append, ← AfiCap.childNames] at names
  simpa using names

/-- Three objects with the generated names, stored and bound one after another, make an
entry. -/
theorem capInserted_of_handled {s t t₁ t₂ t₃ : Agent} {table : P4InfoTable}
    {action : P4InfoAction} {mfs : List AfiTEntryMatchField} {aes : List AfiAEntry}
    {afiPObj mObj aObj eObj : AfiObject} {m : AfiCapEntryMatch} {a : AfiCapEntryAction}
    (hasParent : s.lookup table.name = some afiPObj) (isCap : afiPObj.cls = .cap)
    (matchObj : AfiCap.matchObj table {} mfs = some m)
    (actionObj : AfiCap.actionObj action {} aes = some a) (looked : Looked s t)
    (names : [mObj.name, aObj.name, eObj.name] =
      [AfiCap.matchName table.name, AfiCap.actionName table.name, AfiCap.entryName table.name])
    (matchValue : mObj.value = ⟨.capEntryMatch, m⟩)
    (actionValue : aObj.value = ⟨.capEntryAction, a⟩)
    (entryValue : eObj.value = ⟨.capEntry, AfiCap.capEntryObj table.name⟩)
    (first : Handled Brcm.target t mObj false t₁) (second : Handled Brcm.target t₁ aObj false t₂)
    (third : Handled Brcm.target t₂ eObj false t₃) :
    CapInserted s table action mfs aes afiPObj [mObj.jsonRes, aObj.jsonRes, eObj.jsonRes]
      mObj aObj eObj t₃ := by
  have distinct := AfiCap.names_nodup table.name
  simp only [List.cons.injEq, and_true] at names
  obtain ⟨matchName, actionName, entryName⟩ := names
  rw [← matchName, ← actionName, ← entryName] at distinct
  simp only [List.nodup_cons, List.mem_cons, List.not_mem_nil, or_false, not_or] at distinct
  obtain ⟨⟨table_match, table_action, table_entry⟩, ⟨match_action, match_entry⟩,
    action_entry, _⟩ := distinct
  -- what each name is bound to once the entry object is stored
  have lookups : ∀ name, t₃.lookup name =
      if eObj.name = name then some eObj else if aObj.name = name then some aObj
      else if mObj.name = name then some mObj else s.lookup name := by
    intro name
    rw [third.lookup, second.lookup, first.lookup, looked.lookup]
  have parent : t₃.lookup table.name = some afiPObj := by
    rw [lookups, if_neg (Ne.symm table_entry), if_neg (Ne.symm table_action),
      if_neg (Ne.symm table_match), hasParent]
  have action : t₃.lookup aObj.name = some aObj := by
    rw [lookups, if_neg (Ne.symm action_entry), if_pos rfl]
  have matching : t₃.lookup mObj.name = some mObj := by
    rw [lookups, if_neg (Ne.symm match_entry), if_neg (Ne.symm match_action), if_pos rfl]
  have matchClass : mObj.cls = .capEntryMatch := congrArg Sigma.fst matchValue
  have actionClass : aObj.cls = .capEntryAction := congrArg Sigma.fst actionValue
  have refs : Brcm.target.refs eObj.cls eObj.message =
      [(table.name, .cap), (mObj.name, .capEntryMatch), (aObj.name, .capEntryAction)] := by
    rw [matchName, actionName]
    exact congrArg (fun value : (c : AfiClass) × c.Message => Brcm.target.refs value.1 value.2)
      entryValue
  have entryInstall : Brcm.target.install t₃ eObj = some ⟨eObj, [afiPObj, mObj, aObj]⟩ := by
    unfold Target.install
    rw [refs]
    simp [resolved, parent, matching, action, isCap, matchClass, actionClass]
  have matchInstall : Brcm.target.install t₁ mObj = some ⟨mObj, []⟩ := by
    have none := congrArg (fun value : (c : AfiClass) × c.Message =>
      Brcm.target.refs value.1 value.2) matchValue
    change Brcm.target.refs mObj.cls mObj.message = [] at none
    unfold Target.install
    rw [none]
    rfl
  have actionInstall : Brcm.target.install t₂ aObj = some ⟨aObj, []⟩ := by
    have none := congrArg (fun value : (c : AfiClass) × c.Message =>
      Brcm.target.refs value.1 value.2) actionValue
    change Brcm.target.refs aObj.cls aObj.message = [] at none
    unfold Target.install
    rw [none]
    rfl
  refine ⟨rfl, ?_, ⟨m, matchObj, matchValue⟩, ⟨a, actionObj, actionValue⟩, entryValue, ?_, ?_, ?_⟩
  · simp [first.addr, second.addr, third.addr, second.nextAddr, first.nextAddr, looked.nextAddr]
  · simp [third.bound, second.bound, first.bound, looked.bound]
  · simp [third.installed, second.installed, first.installed, looked.installed, entryInstall,
      matchInstall, actionInstall]
  · intro obj member
    simp only [List.mem_cons, List.not_mem_nil, or_false] at member
    rcases member with rfl | rfl | rfl
    · exact matching
    · exact action
    · rw [lookups, if_pos rfl]

/-- An entry of a `cap` table whose children can be decoded is installed with what it
refers to: with the object of its own table and with the match and the action that this
very request was turned into. -/
theorem capInsert_resolves (roundTrips : pb.RoundTrips) (s s₁ : Agent) (tId aId : UInt32)
    (mfs : List AfiTEntryMatchField) (aes : List AfiAEntry) (table : P4InfoTable)
    (afiPObj : AfiObject) (eObjs : List AfiJsonResource)
    (hasTable : s.p4Info.table? tId = some table) (named : ValidUtf8 table.name)
    (hasParent : s.lookup table.name = some afiPObj) (isCap : afiPObj.cls = .cap)
    (created : afiPObj.createChildJsonRes pb tId aId mfs aes s = .ok (true, eObjs) s₁)
    (decodable : ∀ res ∈ eObjs, Base64.decodedLength res.objStr < 5000) :
    ∃ action mObj aObj eObj t, s.p4Info.action? aId = some action ∧
      afiAddObjEntry pb Brcm.target tId aId mfs aes s = .ok true t ∧
      CapInserted s table action mfs aes afiPObj eObjs mObj aObj eObj t := by
  obtain ⟨action, hasAction, children, capChildren⟩ :=
    AfiCap.createChildJsonRes_created pb hasTable isCap created
  have handed : childrenOf pb s tId aId mfs aes = some eObjs :=
    childrenOf_eq pb hasTable hasAction hasParent children
  obtain ⟨m, a, matchObj, actionObj, listed⟩ := AfiCap.childObjs_eq pb capChildren
  rw [listed] at decodable
  simp only [List.forall_mem_cons] at decodable
  obtain ⟨matchFits, actionFits, entryFits, _⟩ := decodable
  have matchCreator : Brcm.target.creators (str "afi-cap-entry-match") =
      some .capEntryMatch := rfl
  have actionCreator : Brcm.target.creators (str "afi-cap-entry-action") =
      some .capEntryAction := rfl
  have entryCreator : Brcm.target.creators (str "afi-cap-entry") = some .capEntry := rfl
  have matchMade := creation_generated roundTrips matchCreator (by simp [stringFields])
    matchFits
  have actionMade := creation_generated roundTrips actionCreator (by simp [stringFields])
    actionFits
  have entryMade := creation_generated roundTrips entryCreator
    (AfiCap.capEntryObj_utf8 named) entryFits
  have ends : Ends (afiAddObjEntry pb Brcm.target tId aId mfs aes) s
      (fun r t => r = true ∧ ∃ mObj aObj eObj,
        CapInserted s table action mfs aes afiPObj eObjs mObj aObj eObj t) (fun _ _ => False) := by
    apply afiAddObjEntry_ends
    · intro t refused
      rw [handed] at refused
      simp at refused
    · intro handedObjs t children' looked
      rw [handed, Option.some.injEq] at children'
      rw [← children', listed]
      simp only [List.map_cons, List.map_nil]
      apply handleAfiJsonObjects_handled matchMade
      intro t₁ first
      apply handleAfiJsonObjects_handled actionMade
      intro t₂ second
      apply handleAfiJsonObjects_handled entryMade
      intro t₃ third
      apply ends_pure
      exact ⟨rfl, _, _, _, capInserted_of_handled hasParent isCap matchObj actionObj looked rfl
        rfl rfl rfl first second third⟩
  obtain ⟨r, t, returned, rfl, mObj, aObj, eObj, inserted⟩ := ends.returns
  exact ⟨action, mObj, aObj, eObj, t, hasAction, returned, inserted⟩

end

theorem Spine.createChildJsonRes_entry {s : Agent} {afiPObj : AfiObject}
    (ready : Ready s afiPObj) (mac dst : Str) :
    ∃ t, afiPObj.createChildJsonRes AfiWire.protobuf vrfTable.id setVrf.id (mfs mac dst) aes s =
      .ok (true, children mac dst) t := by
  obtain ⟨r, t, created, made, _⟩ := (createChildJsonRes_ends AfiWire.protobuf afiPObj vrfTable.id
    setVrf.id (mfs mac dst) aes s).returns
  rw [AfiObject.createdChildren, ready.hasTable, ready.hasAction] at made
  have isCap := ready.cap
  rcases afiPObj with ⟨addr, res, cls, message⟩
  cases isCap
  rw [made] at created
  exact ⟨t, created⟩

theorem capInsert_resolves_spine : ∃ s s₁ afiPObj action mObj aObj eObj t,
    let mfs := Spine.mfs Spine.first.1 Spine.first.2
    let eObjs := Spine.children Spine.first.1 Spine.first.2
    run (Process.step AfiWire.protobuf Brcm.target) {} Spine.ops = some { agent := s } ∧
      afiPObj.createChildJsonRes AfiWire.protobuf Spine.vrfTable.id Spine.setVrf.id mfs Spine.aes
          s = .ok (true, eObjs) s₁ ∧
      (∀ res ∈ eObjs, Base64.decodedLength res.objStr < 5000) ∧
      afiAddObjEntry AfiWire.protobuf Brcm.target Spine.vrfTable.id Spine.setVrf.id mfs Spine.aes
          s = .ok true t ∧
      CapInserted s Spine.vrfTable action mfs Spine.aes afiPObj eObjs mObj aObj eObj t := by
  obtain ⟨s, afiPObj, reached, ready⟩ := Spine.ops_ready
  obtain ⟨s₁, created⟩ := Spine.createChildJsonRes_entry ready Spine.first.1 Spine.first.2
  have member : Spine.first ∈ [Spine.first, Spine.second] := List.mem_cons_self
  obtain ⟨shortMatch, shortAction, shortEntry⟩ := Spine.children_short member
  have decodable : ∀ res ∈ Spine.children Spine.first.1 Spine.first.2,
      Base64.decodedLength res.objStr < 5000 := by
    simp only [Spine.children, List.forall_mem_cons, childJsonRes, decodedLength_encodeMessage]
    exact ⟨shortMatch, shortAction, shortEntry, by simp⟩
  have named : ValidUtf8 Spine.vrfTable.name :=
    ⟨"ingress.vrf.vrf_classifier_table".toList, by decide⟩
  obtain ⟨action, mObj, aObj, eObj, t, _, returned, inserted⟩ := capInsert_resolves
    AfiWire.protobuf AfiWire.protobuf_roundTrips s s₁ _ _ _ _ _ afiPObj _ ready.hasTable named
    ready.hasParent ready.cap created decodable
  exact ⟨s, s₁, afiPObj, action, mObj, aObj, eObj, t, reached, created, decodable, returned,
    inserted⟩

end JP4Agent
