import JP4Agent.AfiAddEntry
import JP4Agent.AfiTreeEncapEntries
import JP4Agent.AftSandbox
import JP4Agent.BrcmWrites
import JP4Agent.ControllerRequests

set_option autoImplicit false

namespace JP4Agent.Controller
open Agent Afi AfiDevice P4 P4RuntimeServiceImpl Aft
open AftSandbox (twoPorts)

/-- A call of `ControllerAddRouteEntry`; the MAC address is not part of the entry. -/
structure Route where
  dAddr : UInt32
  pLen : UInt16
  nAddr : UInt32
  oPort : UInt16

def Route.update (p4info : ForwardingPipelineConfig) (call : Route × Memory) : Update × Memory :=
  (⟨.insert, .tableEntry (controllerAddRouteEntry p4info call.1.dAddr call.1.pLen call.1.nAddr
    call.1.oPort)⟩, call.2)

def Route.message (call : Route) : AfiTreeEntry :=
  entryMessage (uint2Str (.u32 call.dAddr)) call.pLen.toUInt32.toInt32

/-- The prefix length goes through an `int` and arrives as it was. -/
theorem Route.prefixLength (call : Route) :
    call.message.prefixLength = some call.pLen.toUInt64 := by
  have size := call.pLen.toNat_lt
  have value : call.pLen.toUInt32.toInt32.toInt = call.pLen.toNat :=
    BitVec.toInt_eq_toNat_of_lt (show 2 * call.pLen.toNat < 4294967296 by omega)
  apply congrArg some
  apply UInt64.toNat_inj.mp
  rw [value, UInt64.ofInt, UInt64.toNat_ofNat', UInt16.toNat_toUInt64]
  omega

def Route.entry (pb : Protobuf) (call : Route) (s : Agent) : AfiObject :=
  ⟨s.nextAddr, afiTreeEntryJsonObject pb (uint2Str (.u32 call.dAddr))
    call.pLen.toUInt32.toInt32, .treeEntry, call.message⟩

/-- The bytes of the address may stand in a string field. -/
def Route.IsText (call : Route) : Prop := ValidUtf8 (uint2Str (.u32 call.dAddr))

/-- The routes in what was sent, latest first: the token of the table, the prefix and its
length. -/
def sentRoutes {Token : Type} (sent : List (Pushed Token)) : List (Token × Str × Int32) :=
  sent.filterMap fun
    | .entry rttNodeToken prefixBytes prefixLen _ => some (rttNodeToken, prefixBytes, prefixLen)
    | _ => none

/-- On the Broadcom device, the table with this id has no `cap`. -/
def NoCap (target : Target) (s : Agent) (tableId : UInt32) : Prop :=
  target = Brcm.target → ∀ table, s.p4Info.table? tableId = some table →
    Brcm.capOf s table.name = none

section
variable {target : Target} {s t : Agent} {tableId : UInt32}

/-- No shipped device takes entries of other tables. -/
theorem NoCap.refuses (noCap : NoCap target s tableId) (shipped : Shipped target)
    {aId : UInt32} {fieldIds paramIds : List UInt32} :
    ¬ AfiAccepts target s tableId aId fieldIds paramIds := by
  rintro ⟨table, action, ⟨addr, res, cls, co⟩, hasTable, _, found, _, _, makes, creators⟩
  obtain ⟨isBrcm, rfl⟩ := cap_of_creators shipped makes creators
  have none := noCap isBrcm table hasTable
  rw [Brcm.capOf_eq_some.mpr ⟨addr, res, found⟩] at none
  cases none

theorem NoCap.unchanged (noCap : NoCap target s tableId) (unchanged : Unchanged s t) :
    NoCap target t tableId := by
  intro isBrcm table known
  rw [unchanged.table] at known
  rw [Brcm.capOf_congr (unchanged.lookup table.name)]
  exact noCap isBrcm table known

theorem NoCap.handled {addr : Nat} {res : AfiJsonResource} {message : AfiTreeEntry}
    (noCap : NoCap target s tableId)
    (handled : Handled target s ⟨addr, res, .treeEntry, message⟩ false t) :
    NoCap target t tableId := by
  intro isBrcm table known
  rw [handled.p4Info] at known
  have lookup := handled.lookup table.name
  split at lookup
  · rw [Brcm.capOf, lookup]
  · rw [Brcm.capOf_congr lookup]
    exact noCap isBrcm table known

end

theorem lookup_of_handled {pb : Protobuf} {target : Target} {s t : Agent} {call : Route}
    (handled : Handled target s (call.entry pb s) false t) :
    t.lookup (str "ipv4_lpm") = s.lookup (str "ipv4_lpm") := by
  have apart : str "entry1" ≠ str "ipv4_lpm" := by decide
  exact (handled.lookup _).trans (if_neg apart)

theorem noCap_aft (s : Agent) (tableId : UInt32) : NoCap Aft.target s tableId :=
  fun isBrcm => absurd isBrcm aft_ne_brcm

structure HasTree (s : Agent) (tree : AfiObject) : Prop where
  found : s.lookup (str "ipv4_lpm") = some tree
  isTree : tree.cls = .tree

/-- The agent lives through what a request makes it bind. -/
def WriteSurvived (pb : Protobuf) (target : Target) (around : Surroundings) (s : Agent)
    (updates : List (Update × Memory)) : Prop :=
  ∀ t, Brcm.writeStep pb target s updates = some t → around.BindsSurvived target s t

theorem Route.stand (call : Route) (around : Surroundings)
    (printed : call.pLen.toNat ≤ 5 + around.readable) :
    around.Stand Aft.target (call.message.prefixBytes.getD [])
      (call.message.prefixLength.getD 0) := by
  have size := call.pLen.toNat_lt
  refine ⟨fun _ => ?_, fun isBrcm => absurd isBrcm aft_ne_brcm⟩
  rw [call.prefixLength, Option.getD_some, UInt16.toNat_toUInt64]
  exact ⟨by omega, printed⟩

section
variable {p4info : ForwardingPipelineConfig} {pb : Protobuf}
  (special : getTableId p4info (str "ipv4_lpm") = addEntryTable) (roundTrips : pb.RoundTrips)
  (size : ∀ message : AfiTreeEntry, (pb.serialize .treeEntry message).length ≤
    (stringFields .treeEntry message).flatten.length + 512) {tree : AfiObject}
include special roundTrips size

theorem step_route_handled {target : Target} (shipped : Shipped target) {s : Agent}
    (noCap : NoCap target s addEntryTable) {call : Route × Memory} (text : call.1.IsText) :
    ∃ t u, P4RuntimeServiceImpl.step pb target s (Route.update p4info call) = some u ∧
      Handled target s (call.1.entry pb s) false t ∧ Unchanged t u := by
  let entry := controllerAddRouteEntry p4info call.1.dAddr call.1.pLen call.1.nAddr call.1.oPort
  have short := entryMessage_short call.1.pLen.toUInt32.toInt32 size
    (show (uint2Str (.u32 call.1.dAddr)).length ≤ 4096 by simp [uint2Str])
  have made : creation pb target (afiTreeEntryJsonObject pb (uint2Str (.u32 call.1.dAddr))
      call.1.pLen.toUInt32.toInt32) = .ok (some ⟨.treeEntry, call.1.message⟩) :=
    creation_of_short roundTrips shipped.creators.2
      ((entryMessage_utf8 _ _).mpr text) short
  have table : entry.tableId = addEntryTable := special
  obtain ⟨r, t, u, returned, handled, unchanged⟩ := tableInsert_adds (s := s) shipped call.2 entry
    made (fun t handled _ _ _ => table ▸ (noCap.handled handled).refuses shipped) special rfl rfl
  have stepped : P4RuntimeServiceImpl.step pb target s (Route.update p4info call) = some u := by
    have written : writeUpdate pb target .OK (Route.update p4info call).1
      (Route.update p4info call).2 s = .ok r u := returned
    rw [P4RuntimeServiceImpl.step, written]
  exact ⟨t, u, stepped, handled, unchanged⟩

theorem step_route {s : Agent} (has : HasTree s tree) {call : Route × Memory}
    (text : call.1.IsText) (around : Surroundings)
    (printed : call.1.pLen.toNat ≤ 5 + around.readable) :
    ∃ t, Brcm.writeStep pb Aft.target s [Route.update p4info call] = some t ∧ HasTree t tree ∧
      t.installed = ⟨call.1.entry pb s, [tree]⟩ :: s.installed ∧
      around.BindsSurvived Aft.target s t := by
  obtain ⟨t, u, stepped, handled, unchanged⟩ :=
    step_route_handled special roundTrips size (Or.inl rfl) (noCap_aft s _) text
  have kept : u.lookup (str "ipv4_lpm") = some tree := by
    rw [unchanged.lookup, lookup_of_handled handled]
    exact has.found
  have installed := unchanged.installed.trans (install_handled handled has.found has.isTree)
  have survived : around.BindsSurvived Aft.target s t :=
    (around.bindsSurvived_iff handled rfl).mpr fun _ => call.1.stand around printed
  exact ⟨u, Brcm.writeStep_single pb stepped, ⟨kept, has.isTree⟩, installed,
    around.bindsSurvived_congr unchanged survived⟩

omit special roundTrips size in
/-- What the client sends for an installed entry ends with its route. -/
theorem sentRoutes_entry (tree : AfiObject) {Token : Type} (sandbox : AftSandbox Token)
    (before : List Installed) (call : Route) (s : Agent) :
    let device := installAll sandbox.client before
    let after := installAll sandbox.client (⟨call.entry pb s, [tree]⟩ :: before)
    after.token = device.token ∧ sentRoutes (sandbox.sentBy after.calls) =
      (device.token tree.addr, uint2Str (.u32 call.dAddr), 32) ::
        sentRoutes (sandbox.sentBy device.calls) := by
  refine ⟨rfl, ?_⟩
  rw [installAll]
  rfl

/-- Over any sequence of calls that add routes, all of them answered with OK by an agent that
lives, the sandbox is sent one route for each, in their order: to the table of the tree, for the
address of the call with all of its bits. Neither the prefix length nor the next hop nor the
port is in it. -/
theorem routes_sent {Token : Type} (sandbox : AftSandbox Token) (around : Surroundings)
    (calls : List (Route × Memory)) (text : ∀ call ∈ calls, call.1.IsText)
    (printed : ∀ call ∈ calls, call.1.pLen.toNat ≤ 5 + around.readable) :
    ∀ s : Agent, HasTree s tree →
      let requests := calls.map fun call => [Route.update p4info call]
      EveryStep (Brcm.writeStep pb Aft.target) (WriteSurvived pb Aft.target around) s requests ∧
        ∃ t, run (Brcm.writeStep pb Aft.target) s requests = some t ∧
          sentRoutes (sandbox.sentBy (installAll sandbox.client t.installed).calls) =
            (calls.map fun call => ((installAll sandbox.client s.installed).token tree.addr,
              uint2Str (.u32 call.1.dAddr), (32 : Int32))).reverse ++
            sentRoutes (sandbox.sentBy (installAll sandbox.client s.installed).calls) := by
  induction calls with
  | nil => exact fun s _ => ⟨trivial, s, rfl, rfl⟩
  | cons call rest ih =>
      intro s has
      rw [List.forall_mem_cons] at text printed
      obtain ⟨u, wrote, kept, installed, survived⟩ :=
        step_route special roundTrips size has text.1 around printed.1
      obtain ⟨lives, t, ran, sent⟩ := ih text.2 printed.2 u kept
      obtain ⟨token, first⟩ := sentRoutes_entry tree sandbox s.installed call.1 s
      rw [installed, token, first] at sent
      refine ⟨⟨fun v again => ?_, fun v again => ?_⟩, t, ?_, ?_⟩
      · obtain rfl := Option.some.inj (wrote.symm.trans again)
        exact survived
      · obtain rfl := Option.some.inj (wrote.symm.trans again)
        exact lives
      · rw [List.map_cons, run, wrote, Option.bind_some, ran]
      · rw [sent, List.map_cons, List.reverse_cons, List.append_assoc]
        rfl

end

def lpmTable : P4InfoTable where
  id := 33581985
  name := str "ipv4_lpm"
  matchFields := [⟨1, str "ipv4.dstAddr", 32⟩]

def routerInfo : ForwardingPipelineConfig where
  actions := []
  tables := [lpmTable]
  p4DeviceConfig := []

def routerRoutes : List (Route × Memory) :=
  [(⟨0x671e1e03, 16, 0x0a000001, 1⟩, {}), (⟨0x0a000001, 16, 0x0a000001, 1⟩, {})]

theorem routerRoutes_text : ∀ call ∈ routerRoutes, call.1.IsText := by
  refine List.forall_mem_cons.mpr ⟨?_, List.forall_mem_singleton.mpr ?_⟩
  · exact ⟨['g', '\x1e', '\x1e', '\x03'], by decide⟩
  · exact ⟨['\n', '\x00', '\x00', '\x01'], by decide⟩

theorem routes_sent_router : ∃ s t,
    StoreOp.step (arrayParsers []) AfiWire.protobuf Aft.target {}
        (.addTable (str "ipv4_lpm") (str "ipv4_dst") 2 (str "discard1") 1024) = some s ∧
      run (Brcm.writeStep AfiWire.protobuf Aft.target) s
        (routerRoutes.map fun call => [Route.update routerInfo call]) = some t ∧
      (sentRoutes (twoPorts.sentBy (installAll twoPorts.client t.installed).calls)).map Prod.snd =
        [([0x0a, 0, 0, 1], 32), ([0x67, 0x1e, 0x1e, 0x03], 32)] ++
          (sentRoutes (twoPorts.sentBy (installAll twoPorts.client s.installed).calls)).map
            Prod.snd := by
  obtain ⟨s, _, tree, added, _, found, isTree⟩ := treeOps_run
  have special : getTableId routerInfo (str "ipv4_lpm") = addEntryTable := by decide
  obtain ⟨_, t, ran, sent⟩ := routes_sent special AfiWire.protobuf_roundTrips wire_size twoPorts
    { Surroundings.strict with readable := 11 } routerRoutes routerRoutes_text (by decide) s
    ⟨found, isTree⟩
  refine ⟨s, t, added, ran, ?_⟩
  rw [sent, List.map_append]
  rfl

structure Encap where
  dAddr : UInt32
  pLen : UInt16
  vrf : UInt32
  smac : UInt64
  dmac : UInt64
  oPort : UInt16
  l3ClassId : UInt8
  type : Str

def Encap.update (p4info : ForwardingPipelineConfig) (call : Encap × Memory) : Update × Memory :=
  let e := call.1
  (⟨.insert, .tableEntry (controllerAddRtEncapEntry p4info e.dAddr e.pLen e.vrf e.smac e.dmac
    e.oPort e.l3ClassId e.type)⟩, call.2)

/-- The entry goes to a table other than that of `addEntry`, for which the Broadcom device
has no `cap`. -/
structure Encap.Unserved (p4info : ForwardingPipelineConfig) (target : Target) (s : Agent)
    (e : Encap) : Prop where
  ordinary : getTableId p4info (rtEncapTableName e.type) ≠ addEntryTable
  noCap : NoCap target s (getTableId p4info (rtEncapTableName e.type))

section
variable {p4info : ForwardingPipelineConfig} {target : Target} (shipped : Shipped target)
  (pb : Protobuf)
include shipped

/-- The children that an encapsulation would need have no creator. -/
theorem step_encap {s : Agent} {call : Encap × Memory}
    (unserved : call.1.Unserved p4info target s) :
    ∃ t, P4RuntimeServiceImpl.step pb target s (Encap.update p4info call) = some t ∧
      Unchanged s t := by
  rcases call with ⟨e, mem⟩
  let entry := controllerAddRtEncapEntry p4info e.dAddr e.pLen e.vrf e.smac e.dmac e.oPort
    e.l3ClassId e.type
  have refused : ¬ AfiAccepts target s entry.tableId (convertAction mem entry.action).1
      ((passedFields mem entry.tableId 0 entry.fieldMatches).map AfiTEntryMatchField.id)
      ((convertAction mem entry.action).2.map AfiAEntry.id) := unserved.noCap.refuses shipped
  obtain ⟨t, added, unchanged⟩ := afiAddObjEntry_refuses pb shipped refused
  have direct : entry.hasMeterConfig = false ∧ entry.hasCounterData = false := ⟨rfl, rfl⟩
  have noRoute : ¬ AddsEntry entry := fun adds => unserved.ordinary adds.1
  exact ⟨t, Brcm.step_insert pb direct rfl noRoute added, unchanged⟩

/-- The entries of encapsulations, in any number of calls that are all answered with OK,
leave every device and the objects of its store as they were, unless the table has a `cap`. The
names that are looked up may be bound to null pointers. -/
theorem encaps_dropped (calls : List (Encap × Memory)) : ∀ s : Agent,
    (∀ call ∈ calls, call.1.Unserved p4info target s) →
    ∃ t, run (Brcm.writeStep pb target) s (calls.map fun call => [Encap.update p4info call]) =
        some t ∧ Unchanged s t := by
  induction calls with
  | nil => exact fun s _ => ⟨s, rfl, Unchanged.refl s⟩
  | cons call rest ih =>
      intro s unserved
      rw [List.forall_mem_cons] at unserved
      obtain ⟨u, stepped, first⟩ := step_encap shipped pb unserved.1
      have still : ∀ call ∈ rest, call.1.Unserved p4info target u := by
        intro call member
        have before := unserved.2 call member
        exact ⟨before.ordinary, before.noCap.unchanged first⟩
      obtain ⟨t, ran, more⟩ := ih u still
      have wrote := Brcm.writeStep_single pb stepped
      refine ⟨t, ?_, first.trans more⟩
      rw [List.map_cons, run, wrote, Option.bind_some, ran]

end

def l3FwdInfo : ForwardingPipelineConfig where
  actions := [AfiTreeEncap.setNexthop]
  tables := [AfiTreeEncap.l3Ipv4VrfTable]
  p4DeviceConfig := []

def spineEncaps : List (Encap × Memory) :=
  [(⟨0x0b0b0b00, 24, 7, 0x22a1a2a3a4a5, 0x22b1b2b3b4b5, 1, 0, str "vrf"⟩, {}),
    (⟨0x0c0c0c00, 24, 7, 0x22a1a2a3a4a5, 0x22b1b2b3b4b5, 2, 0, str "vrf"⟩, {})]

theorem encaps_dropped_spine : ∃ t,
    run (Brcm.writeStep AfiWire.protobuf Brcm.target) AfiTreeEncap.spineAgent
        (spineEncaps.map fun call => [Encap.update l3FwdInfo call]) = some t ∧
      Unchanged AfiTreeEncap.spineAgent t := by
  have ordinary : ∀ call ∈ spineEncaps,
      getTableId l3FwdInfo (rtEncapTableName call.1.type) ≠ addEntryTable := by decide
  refine encaps_dropped (Or.inr (Or.inr rfl)) AfiWire.protobuf spineEncaps
    AfiTreeEncap.spineAgent fun call member => ⟨ordinary call member, fun _ table _ => ?_⟩
  simp [Brcm.capOf, Agent.lookup, AfiTreeEncap.spineAgent, PtrMap.deref]

end JP4Agent.Controller
