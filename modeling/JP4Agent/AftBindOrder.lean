import JP4Agent.AfiBindRuns
import JP4Agent.AfiWireRoundTrip
import JP4Agent.AftBinds

set_option autoImplicit false

namespace JP4Agent
open Agent Afi AfiDevice PtrMap

section
variable {target : Target} {s t : Agent}

def Target.installEntry (target : Target) (s : Agent) (entry : Str × AfiObject) :
    Option Installed := target.install s entry.2

theorem Agent.Binds.installed_entries (binds : Binds target s s.objects t) :
    t.installed = (s.objectsMap.live.toList.filterMap (target.installEntry s)).reverse ++
      s.installed := by
  rw [binds.installed]
  unfold objects
  rw [List.filterMap_map]
  rfl

section
variable {name name' : Str} {obj obj' : AfiObject} {installed installed' : Installed}
  (counted : Counted s) (binds : Binds target s s.objects t)
  (found : s.lookup name = some obj) (found' : s.lookup name' = some obj')
  (made : target.install s obj = some installed)
  (made' : target.install s obj' = some installed')
include counted binds found found' made made'

theorem Agent.Binds.installed_of_lt (less : compare name name' = .lt) :
    ∃ later between before,
      t.installed = later ++ installed' :: (between ++ installed :: (before ++ s.installed)) ∧
      (∀ other ∈ between, other.object.addr ≠ obj.addr) ∧
      ∀ other ∈ before, other.object.addr ≠ obj'.addr := by
  obtain ⟨before, between, after, split⟩ :=
    toList_split (mem_live_toList.mpr found) (mem_live_toList.mpr found') less
  have distinct := Std.ExtTreeMap.distinct_keys_toList (t := s.objectsMap.live)
  rw [split] at distinct
  have here : target.installEntry s (name, obj) = some installed := made
  have there : target.installEntry s (name', obj') = some installed' := made'
  have key : ∀ entry ∈ s.objectsMap.live.toList, ∀ other, target.installEntry s entry = some other →
      ∀ k x, s.lookup k = some x → other.object.addr = x.addr → entry.1 = k := by
    intro entry listed other made'' k x foundX same
    rw [Target.install_object made''] at same
    exact counted.apart _ _ _ _ (mem_live_toList.mp listed) foundX same
  refine ⟨(after.filterMap (target.installEntry s)).reverse,
    (between.filterMap (target.installEntry s)).reverse,
    (before.filterMap (target.installEntry s)).reverse, ?_, ?_, ?_⟩
  · rw [binds.installed_entries, split, List.filterMap_append, List.filterMap_cons_some here,
      List.filterMap_append, List.filterMap_cons_some there]
    simp
  · intro other member same
    obtain ⟨entry, listed, made''⟩ := List.mem_filterMap.mp (List.mem_reverse.mp member)
    have listed' : entry ∈ s.objectsMap.live.toList := by
      rw [split]
      exact List.mem_append_right _ (List.mem_cons_of_mem _ (List.mem_append_left _ listed))
    have apart := List.rel_of_pairwise_cons (List.pairwise_append.mp distinct).2.1
      (List.mem_append_left _ listed)
    rw [key entry listed' other made'' name obj found same] at apart
    exact apart Std.ReflOrd.compare_self
  · intro other member same
    obtain ⟨entry, listed, made''⟩ := List.mem_filterMap.mp (List.mem_reverse.mp member)
    have listed' : entry ∈ s.objectsMap.live.toList := by
      rw [split]
      exact List.mem_append_left _ listed
    have apart := (List.pairwise_append.mp distinct).2.2 entry listed (name', obj')
      (List.mem_cons_of_mem _ (List.mem_append_right _ List.mem_cons_self))
    rw [key entry listed' other made'' name' obj' found' same] at apart
    exact apart Std.ReflOrd.compare_self

/-- An object that is installed before another one has the smaller name. -/
theorem Agent.Binds.lt_of_installed {later between before : List Installed}
    (order : t.installed =
      later ++ installed' :: (between ++ installed :: (before ++ s.installed))) :
    compare name name' = .lt := by
  have all : (s.objectsMap.live.toList.filterMap (target.installEntry s)).reverse =
      later ++ installed' :: (between ++ installed :: before) := by
    have whole : (s.objectsMap.live.toList.filterMap (target.installEntry s)).reverse ++
        s.installed = (later ++ installed' :: (between ++ installed :: before)) ++ s.installed := by
      rw [← binds.installed_entries, order]
      simp
    exact List.append_cancel_right whole
  have forward : s.objectsMap.live.toList.filterMap (target.installEntry s) =
      before.reverse ++ installed :: (between.reverse ++ installed' :: later.reverse) := by
    rw [← List.reverse_reverse (List.filterMap _ _), all]
    simp
  obtain ⟨first, listed, second, listed', madeFirst, madeSecond, less⟩ :=
    filterMap_toList_order forward
  have same : first.2 = obj :=
    (Target.install_object madeFirst).symm.trans (Target.install_object made)
  have same' : second.2 = obj' :=
    (Target.install_object madeSecond).symm.trans (Target.install_object made')
  rw [counted.apart _ _ _ _ (mem_live_toList.mp listed) found (congrArg AfiObject.addr same),
    counted.apart _ _ _ _ (mem_live_toList.mp listed') found' (congrArg AfiObject.addr same')]
    at less
  exact less

end
end

namespace Aft

/-- The token of the table that the latest call adds a route to. -/
def routeToken {Token : Type} : List (ClientCall Token) → Option Token
  | .addRoute rttNodeToken _ _ _ _ :: _ => some rttNodeToken
  | _ => none

/-- An entry of the tree with this name. -/
def EntryOf (parent : Str) (obj : AfiObject) : Prop :=
  ∃ entry : AfiTreeEntry, obj.value = ⟨.treeEntry, entry⟩ ∧ entry.parentName.getD [] = parent

section
variable {Token : Type} (client : AftClient Token)

/-- Between `s` and `t` the tree was bound before the entry, and the route of the entry was
added with the token that `addTable` returned for the tree. -/
def RoutedAfterTree (s t : Agent) (tree entry : AfiObject) : Prop :=
  ∃ later between before fieldName returned,
    t.installed =
      later ++ ⟨entry, [tree]⟩ :: (between ++ ⟨tree, []⟩ :: (before ++ s.installed)) ∧
    (installAll client (⟨tree, []⟩ :: (before ++ s.installed))).calls =
      .setIngressStart returned ::
        .addTable (str "rtt0") fieldName client.puntPortToken returned ::
          (installAll client (before ++ s.installed)).calls ∧
    routeToken (installAll client (⟨entry, [tree]⟩ ::
      (between ++ ⟨tree, []⟩ :: (before ++ s.installed)))).calls = some returned

/-- Between `s` and `t` the entry was bound with the token that its tree was made with. -/
def RoutedToNone (s t : Agent) (tree entry : AfiObject) : Prop :=
  ∃ later before, t.installed = later ++ ⟨entry, [tree]⟩ :: (before ++ s.installed) ∧
    routeToken (installAll client (⟨entry, [tree]⟩ :: (before ++ s.installed))).calls =
      some client.tokenNone

variable {client}

theorem routeToken_entry {tree entry : AfiObject} {parent : Str} (isEntry : EntryOf parent entry)
    (before : List Installed) :
    routeToken (installAll client (⟨entry, [tree]⟩ :: before)).calls =
      some ((installAll client before).token tree.addr) := by
  obtain ⟨message, value, _⟩ := isEntry
  rcases entry with ⟨addr, res, cls, message'⟩
  cases value
  rfl

theorem installAll_tree {tree : AfiObject} {message : AfiTree}
    (isTree : tree.value = ⟨.tree, message⟩) (before : List Installed) : ∃ fieldName returned,
      (installAll client (⟨tree, []⟩ :: before)).calls =
        .setIngressStart returned ::
          .addTable (str "rtt0") fieldName client.puntPortToken returned ::
            (installAll client before).calls ∧
      (installAll client (⟨tree, []⟩ :: before)).token tree.addr = returned := by
  rcases tree with ⟨addr, res, cls, message'⟩
  cases isTree
  exact ⟨_, _, rfl, Function.update_self ..⟩

theorem install_tree {s : Agent} {tree : AfiObject} {message : AfiTree}
    (isTree : tree.value = ⟨.tree, message⟩) :
    target.install s tree = some ⟨tree, []⟩ := by
  rcases tree with ⟨addr, res, cls, message'⟩
  cases isTree
  rfl

theorem install_entry {s : Agent} {parent : Str} {tree entry : AfiObject} {message : AfiTree}
    (found : s.lookup parent = some tree) (isTree : tree.value = ⟨.tree, message⟩)
    (isEntry : EntryOf parent entry) :
    target.install s entry = some ⟨entry, [tree]⟩ := by
  obtain ⟨message', value, rfl⟩ := isEntry
  have cls : tree.cls = .tree := congrArg Sigma.fst isTree
  rcases entry with ⟨addr, res, cls', message''⟩
  cases value
  have resolved : s.resolved (treeEntryRefs message'') = some [tree] := by
    unfold treeEntryRefs Agent.resolved
    rw [found]
    dsimp only
    rw [if_pos cls]
    rfl
  exact congrArg (Option.map _) resolved

section
variable {s t u : Agent} {parent name : Str} {tree entry : AfiObject} {message : AfiTree}
  (counted : Counted u) (installed : u.installed = s.installed)
  (binds : Binds target u u.objects t) (isTree : tree.value = ⟨.tree, message⟩)
  (foundTree : u.lookup parent = some tree) (isEntry : EntryOf parent entry)
  (foundEntry : u.lookup name = some entry)
include counted installed binds isTree foundTree isEntry foundEntry

/-- The order of the names is the order of the `_bind`s. -/
theorem routedAfterTree_iff :
    RoutedAfterTree client s t tree entry ↔ compare parent name = .lt := by
  have treeMade := install_tree (s := u) isTree
  have entryMade := install_entry foundTree isTree isEntry
  constructor
  · rintro ⟨later, between, before, _, _, order, _⟩
    rw [← installed] at order
    exact binds.lt_of_installed counted foundTree foundEntry treeMade entryMade order
  · intro less
    obtain ⟨later, between, before, order, others, _⟩ :=
      binds.installed_of_lt counted foundTree foundEntry treeMade entryMade less
    rw [installed] at order
    obtain ⟨fieldName, returned, calls, token⟩ :=
      installAll_tree isTree (before ++ s.installed)
    refine ⟨later, between, before, fieldName, returned, order, calls, ?_⟩
    rw [routeToken_entry isEntry, installAll_token_of_ne others, token]

/-- Otherwise a new tree is bound after the entry, which has no token to pass on. -/
theorem routedToNone_of_not_lt (notLess : ¬ compare parent name = .lt) (before : Counted s)
    (new : s.nextAddr ≤ tree.addr) : RoutedToNone client s t tree entry := by
  have treeMade := install_tree (s := u) isTree
  have entryMade := install_entry foundTree isTree isEntry
  have apart : parent ≠ name := by
    rintro rfl
    obtain rfl := Option.some.inj (foundTree.symm.trans foundEntry)
    obtain ⟨_, value, _⟩ := isEntry
    exact nomatch congrArg Sigma.fst (isTree.symm.trans value)
  have less : compare name parent = .lt := by
    rw [@Std.OrientedCmp.eq_swap _ compare]
    cases order : compare parent name with
    | lt => exact absurd order notLess
    | eq => exact absurd (Std.LawfulEqOrd.compare_eq_iff_eq.mp order) apart
    | gt => rfl
  obtain ⟨later, between, first, order, _, others⟩ :=
    binds.installed_of_lt counted foundEntry foundTree entryMade treeMade less
  rw [installed] at order
  refine ⟨later ++ ⟨tree, []⟩ :: between, first, ?_, ?_⟩
  · rw [order]
    simp
  · rw [routeToken_entry isEntry, installAll_token_of_ne others]
    have unbound : ∀ other ∈ s.installed, other.object.addr ≠ tree.addr := by
      intro other member same
      have old := before.installed other member
      omega
    rw [installAll_token_none unbound]

end

/-- The tree comes, in the order of the names, before each object of the configuration
that stays an entry of it. -/
def ParentFirst (pb : Protobuf) (cfg : List AfiJsonResource) (parent : Str) : Prop :=
  ∀ name res entry, lastOf name (madeObjects pb target cfg) = some (res, ⟨.treeEntry, entry⟩) →
    entry.parentName.getD [] = parent → compare parent name = .lt

open P4 P4RuntimeServiceImpl in
/-- After any run a pipeline configuration that has one object with the name of the tree
binds it before each of its entries, exactly if the names are in this order. -/
theorem routes_iff_parentFirst (client : AftClient Token) (parsers : Parsers) (pb : Protobuf)
    (ops : List StoreOp) (config : ForwardingPipelineConfig) (cfg : List AfiJsonResource)
    (treeRes : AfiJsonResource) (s t : Agent)
    (ran : run (StoreOp.step parsers pb target) {} ops = some s)
    (read : parsers.json (parsers.p4DeviceConfig config.p4DeviceConfig).2 = some (cfg.map some))
    (taken : StoreOp.step parsers pb target s (.setForwardingPipelineConfig config) = some t)
    (member : treeRes ∈ cfg) (type : treeRes.type = str "afi-tree")
    (once : ∀ res ∈ cfg, res.name = treeRes.name → res = treeRes) :
    (∃ tree, t.lookup treeRes.name = some tree ∧ tree.cls = .tree ∧
      ∀ name entry, name ∈ cfg.map AfiJsonResource.name → t.lookup name = some entry →
        EntryOf treeRes.name entry → RoutedAfterTree client s t tree entry) ↔
      ParentFirst pb cfg treeRes.name := by
  have counted : Counted s := run_invariant (fun _ _ _ => StoreOp.step_counted) counted_fresh ran
  obtain ⟨cfg', read', creatable, binds⟩ := StoreOp.step_setForwardingPipelineConfig taken
  obtain rfl : cfg' = cfg := by
    have same := Option.some.inj (read'.symm.trans read)
    exact (List.map_injective_iff.mpr (Option.some_injective _)) same
  have counted' := counted.withResources config
  obtain ⟨countedStore, _, installed⟩ := storeAll_counted pb target cfg' _ counted'
  have names := madeObjects_names creatable
  have view := fun name => view_storeAll pb target cfg' name (s.withResources config)
  obtain ⟨⟨cls, message⟩, made⟩ := creatable treeRes member
  obtain rfl : cls = .tree := by
    have creators := class_of_creation pb target made
    rw [type] at creators
    exact (Option.some.inj creators).symm
  have treeView : lastOf treeRes.name (madeObjects pb target cfg') =
      some (treeRes, ⟨.tree, message⟩) := by
    cases last : lastOf treeRes.name (madeObjects pb target cfg') with
    | none =>
        rw [lastOf_eq_none, names] at last
        exact absurd (List.mem_map_of_mem member) last
    | some shown =>
        obtain ⟨res, value⟩ := shown
        obtain ⟨listed, named, created⟩ := mem_madeObjects (lastOf_mem last)
        obtain rfl := once res listed named
        rw [made, Except.ok.injEq, Option.some.injEq] at created
        rw [created]
  let u := (s.withResources config).storeAll pb target cfg'
  have shown : ∀ name res value, lastOf name (madeObjects pb target cfg') = some (res, value) →
      ∃ obj, u.lookup name = some obj ∧ obj.jsonRes = res ∧ obj.value = value := by
    intro name res value last
    have here := view name
    rw [last] at here
    obtain ⟨obj, found, same⟩ := Option.map_eq_some_iff.mp here
    obtain ⟨rfl, rfl⟩ := Prod.mk.inj same
    exact ⟨obj, found, rfl, rfl⟩
  obtain ⟨tree, foundTree, _, isTree⟩ := shown _ _ _ treeView
  have order : ∀ name entry, u.lookup name = some entry → EntryOf treeRes.name entry →
      (RoutedAfterTree client s t tree entry ↔ compare treeRes.name name = .lt) :=
    fun name entry found isEntry => routedAfterTree_iff countedStore installed binds isTree
      foundTree isEntry found
  constructor
  · rintro ⟨tree', found', _, routed⟩ name res entry last parent
    obtain rfl := Option.some.inj (((binds.lookup _).trans foundTree).symm.trans found')
    obtain ⟨obj, found, _, value⟩ := shown _ _ _ last
    have isEntry : EntryOf treeRes.name obj := ⟨entry, value, parent⟩
    have listed : name ∈ cfg'.map AfiJsonResource.name := by
      rw [← names]
      exact List.mem_map_of_mem (lastOf_mem last)
    exact (order name obj found isEntry).mp
      (routed name obj listed ((binds.lookup name).trans found) isEntry)
  · intro first
    refine ⟨tree, (binds.lookup _).trans foundTree, congrArg Sigma.fst isTree, ?_⟩
    intro name entry listed found isEntry
    rw [binds.lookup] at found
    apply (order name entry found isEntry).mpr
    cases last : lastOf name (madeObjects pb target cfg') with
    | none =>
        rw [lastOf_eq_none, names] at last
        exact absurd listed last
    | some shown' =>
        obtain ⟨res, value⟩ := shown'
        obtain ⟨obj, found', _, rfl⟩ := shown name res value last
        obtain rfl := Option.some.inj (found.symm.trans found')
        obtain ⟨message', value, parent⟩ := isEntry
        rw [value] at last
        exact first name res message' last parent

end

/-- The client in the debug mode without a server. -/
def noAftServer : AftClient Nat where
  tokenNone := 0
  puntPortToken := 30000
  outputPortToken _ := 20000
  addTable _ _ _ _ := 10000
  addEtherEncapNode _ _ _ _ := 0

/-- A tree, and an entry of it with a name that comes first. -/
def lpmTree : AfiJsonResource :=
  childJsonRes AfiWire.protobuf (str "afi-tree") 1 (str "ipv4_lpm") .tree {}

def lpmEntry : AfiJsonResource :=
  childJsonRes AfiWire.protobuf (str "afi-tree-entry") 2 (str "default_route") .treeEntry
    { parentName := some (str "ipv4_lpm"), prefixBytes := some [0, 0, 0, 0] }

/-- An object of a pipeline that holds a short message on the wire. -/
theorem creation_wire {type : Str} {id : Nat} {name : Str} {c : AfiClass} {message : c.Message}
    (creator : target.creators type = some c)
    (short : (AfiWire.protobuf.serialize c message).length < 5000) :
    creation AfiWire.protobuf target (childJsonRes AfiWire.protobuf type id name c message) =
      .ok (some ⟨c, message⟩) := by
  have back : AfiWire.protobuf.parse c (AfiWire.protobuf.serialize c message) = message :=
    AfiWire.classRoundTrips c message (Nat.lt_trans short (by omega))
  rw [creation_childJsonRes AfiWire.protobuf short target id name creator, back]

theorem lpmTree_creation :
    creation AfiWire.protobuf target lpmTree = .ok (some ⟨.tree, {}⟩) :=
  creation_wire (by decide) (by decide)

theorem lpmEntry_creation : creation AfiWire.protobuf target lpmEntry = .ok (some ⟨.treeEntry,
    { parentName := some (str "ipv4_lpm"), prefixBytes := some [0, 0, 0, 0] }⟩) :=
  creation_wire (by decide) (by decide)

open P4RuntimeServiceImpl

def lpmConfig : P4.ForwardingPipelineConfig where
  actions := []
  tables := []
  p4DeviceConfig := deviceConfig [lpmTree, lpmEntry]

/-- A tree and an entry with different names are set as a pipeline. -/
theorem pipeline_of_two {parsers : Parsers} {pb : Protobuf} {config : P4.ForwardingPipelineConfig}
    {treeRes entryRes : AfiJsonResource} {tree : AfiTree} {entry : AfiTreeEntry}
    (read : parsers.json (parsers.p4DeviceConfig config.p4DeviceConfig).2 =
      some ([treeRes, entryRes].map some))
    (madeTree : creation pb target treeRes = .ok (some ⟨.tree, tree⟩))
    (madeEntry : creation pb target entryRes = .ok (some ⟨.treeEntry, entry⟩))
    (parent : entry.parentName.getD [] = treeRes.name) (apart : entryRes.name ≠ treeRes.name) :
    ∃ t u treeObj entryObj,
      StoreOp.step parsers pb target {} (.setForwardingPipelineConfig config) = some t ∧
      Counted u ∧ u.installed = [] ∧ Binds target u u.objects t ∧
      treeObj.value = ⟨.tree, tree⟩ ∧ u.lookup treeRes.name = some treeObj ∧
      EntryOf treeRes.name entryObj ∧ u.lookup entryRes.name = some entryObj := by
  let s := Agent.withResources {} config
  let u := (s.storeObject treeRes ⟨.tree, tree⟩).storeObject entryRes ⟨.treeEntry, entry⟩
  have creatable : ∀ res ∈ [treeRes, entryRes], Creatable pb target res :=
    List.forall_mem_cons.mpr ⟨⟨_, madeTree⟩, List.forall_mem_singleton.mpr ⟨_, madeEntry⟩⟩
  have stored : s.storeAll pb target [treeRes, entryRes] = u := by
    unfold storeAll
    rw [List.foldl_cons, List.foldl_cons, List.foldl_nil, storeCreated, storeCreated, madeTree]
    dsimp only
    rw [madeEntry]
  have found : ∀ name, u.lookup name = if entryRes.name = name then
      some ⟨1, entryRes, .treeEntry, entry⟩ else if treeRes.name = name then
        some ⟨0, treeRes, .tree, tree⟩ else none := by
    intro name
    have before : ({} : Agent).lookup name = none := by simp [Agent.lookup, deref]
    rw [lookup_storeObject, lookup_storeObject]
    exact congrArg _ (congrArg _ before)
  have foundTree : u.lookup treeRes.name = some ⟨0, treeRes, .tree, tree⟩ := by
    rw [found, if_neg apart, if_pos rfl]
  have foundEntry : u.lookup entryRes.name = some ⟨1, entryRes, .treeEntry, entry⟩ := by
    rw [found, if_pos rfl]
  have bindable : Bindable target u := by
    refine ⟨noNulls_assign (noNulls_assign noNulls_empty _ _) _ _, ?_⟩
    intro name value held
    obtain ⟨obj, here, rfl⟩ := Option.map_eq_some_iff.mp held
    rw [found] at here
    by_cases isEntry : entryRes.name = name
    · rw [if_pos isEntry, Option.some.injEq] at here
      subst here
      change LookupsBound u.contents (treeEntryRefs entry)
      unfold treeEntryRefs LookupsBound
      rw [parent, Agent.contents, foundTree]
      exact fun _ => trivial
    · rw [if_neg isEntry, Option.ite_none_right_eq_some, Option.some.injEq] at here
      obtain ⟨_, rfl⟩ := here
      exact trivial
  obtain ⟨counted, _, installed⟩ := storeAll_counted pb target [treeRes, entryRes] s
    ⟨counted_fresh.stored, counted_fresh.bound, counted_fresh.installed, counted_fresh.apart⟩
  rw [stored] at counted installed
  have ends := (bindAfiObjects_binds target u).and (bindAfiObjects_ends target u)
  cases bound : bindAfiObjects target u with
  | error e t => exact absurd bindable (ends.of_error bound).2.2
  | ok r t =>
      refine ⟨t, u, _, _, ?_, counted, installed, (ends.of_ok bound).1, rfl, foundTree,
        ⟨entry, rfl, parent⟩, foundEntry⟩
      rw [StoreOp.step, setForwardingPipelineConfig_run, read]
      simp only
      rw [if_pos ((allCreatable_iff pb target).mpr ⟨_, rfl, creatable⟩),
        handlePipelineConfig_stores _ creatable, bind_of_ok (stored ▸ bound)]
      rfl

theorem lpmConfig_read :
    (arrayParsers [lpmTree, lpmEntry]).json
      ((arrayParsers [lpmTree, lpmEntry]).p4DeviceConfig lpmConfig.p4DeviceConfig).2 =
        some ([lpmTree, lpmEntry].map some) := arrayParsers_read [lpmTree, lpmEntry]

/-- The route of the entry is added without a token. -/
theorem lpm_misrouted : ∃ t tree entry,
    let parsers := arrayParsers [lpmTree, lpmEntry]
    StoreOp.step parsers AfiWire.protobuf target {} (.setForwardingPipelineConfig lpmConfig) =
        some t ∧
      t.lookup lpmTree.name = some tree ∧ tree.cls = .tree ∧ t.lookup lpmEntry.name = some entry ∧
      EntryOf lpmTree.name entry ∧ RoutedToNone noAftServer {} t tree entry ∧
      ¬ RoutedAfterTree noAftServer {} t tree entry := by
  obtain ⟨t, u, tree, entry, taken, counted, installed, binds, isTree, foundTree, isEntry,
    foundEntry⟩ := pipeline_of_two lpmConfig_read lpmTree_creation lpmEntry_creation rfl (by decide)
  have later : ¬ compare lpmTree.name lpmEntry.name = .lt := by decide
  refine ⟨t, tree, entry, taken, (binds.lookup _).trans foundTree, congrArg Sigma.fst isTree,
    (binds.lookup _).trans foundEntry, isEntry, ?_, ?_⟩
  · exact routedToNone_of_not_lt counted installed binds isTree foundTree isEntry foundEntry later
      counted_fresh (Nat.zero_le _)
  · exact fun routed => later ((routedAfterTree_iff counted installed binds isTree foundTree isEntry
      foundEntry).mp routed)

/-- The same pipeline. -/
theorem routes_iff_parentFirst_lpm : ∃ t,
    let parsers := arrayParsers [lpmTree, lpmEntry]
    StoreOp.step parsers AfiWire.protobuf target {} (.setForwardingPipelineConfig lpmConfig) =
        some t ∧
      ((∃ tree, t.lookup lpmTree.name = some tree ∧ tree.cls = .tree ∧
        ∀ name entry, name ∈ [lpmTree, lpmEntry].map AfiJsonResource.name →
          t.lookup name = some entry → EntryOf lpmTree.name entry →
            RoutedAfterTree noAftServer {} t tree entry) ↔
        ParentFirst AfiWire.protobuf [lpmTree, lpmEntry] lpmTree.name) := by
  obtain ⟨t, _, _, _, taken, _⟩ :=
    pipeline_of_two lpmConfig_read lpmTree_creation lpmEntry_creation rfl (by decide)
  refine ⟨t, taken, routes_iff_parentFirst noAftServer (arrayParsers [lpmTree, lpmEntry])
    AfiWire.protobuf [] lpmConfig [lpmTree, lpmEntry] lpmTree {} t rfl lpmConfig_read taken
    List.mem_cons_self rfl ?_⟩
  intro res member named
  rcases List.mem_cons.mp member with rfl | later
  · rfl
  · rw [List.mem_singleton.mp later] at named
    exact absurd named (by decide)

end Aft
end JP4Agent
