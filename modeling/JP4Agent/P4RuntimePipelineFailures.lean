import JP4Agent.AfiReachable
import JP4Agent.Library.Proto3
import JP4Agent.P4RuntimePipeline

set_option autoImplicit false

namespace JP4Agent
open Agent Afi AfiDevice PtrMap

section
variable (pb : Protobuf) (target : Target)

/-- The objects before it can be created, but then there is one without a creator. -/
def LacksCreator : List (Option AfiJsonResource) → Prop
  | [] => False
  | none :: _ => False
  | some res :: rest =>
    creation pb target res = .ok none ∨ Creatable pb target res ∧ LacksCreator rest

/-- The loop fails at an object without a creator. Where it fails otherwise it has stored
an object, unless the failure was in the first one. -/
theorem handleAfiJsonObjects_fails (cfg : List (Option AfiJsonResource)) : ∀ s : Agent,
    Ends (handleAfiJsonObjects pb target true cfg) s
      (fun r t => (r = false ↔ LacksCreator pb target cfg) ∧ t.p4Info = s.p4Info)
      (fun e t => ¬ LacksCreator pb target cfg ∧ t.p4Info = s.p4Info ∧
        (Addressed s → t.objectsMap = s.objectsMap → e = .json → ∃ rest, cfg = none :: rest)) := by
  induction cfg with
  | nil => exact fun s => ends_pure ⟨by simp [LacksCreator], rfl⟩
  | cons cfgObj rest ih =>
      intro s
      cases cfgObj with
      | none => exact ends_throw ⟨id, rfl, fun _ _ _ => ⟨rest, rfl⟩⟩
      | some res =>
          apply ends_bind
          apply (handleAfiJsonObject_handled pb target res true s).mono
          · intro r t post
            rcases post with ⟨missing, rfl, rfl⟩ | ⟨value, made, rfl, handled⟩
            · exact ends_pure ⟨by simp [LacksCreator, missing], rfl⟩
            · have lacks : LacksCreator pb target (some res :: rest) ↔
                  LacksCreator pb target rest := by
                simp [LacksCreator, Creatable, made]
              rw [lacks]
              apply ((handleAfiJsonObjects_grows pb target true rest t).and (ih t)).mono
              · exact fun b u post => ⟨post.2.1, post.2.2.trans handled.p4Info⟩
              · intro e u failed
                obtain ⟨grows, known, p4Info, _⟩ := failed
                refine ⟨known, p4Info.trans handled.p4Info, fun addressed same => ?_⟩
                exact (handled.toStored.changed grows addressed same).elim
          · rintro e t ⟨rfl, fault, failed, rfl⟩
            refine ⟨?_, rfl, fun _ _ json => ?_⟩
            · simp [LacksCreator, Creatable, failed]
            · simp at json

theorem handlePipelineConfig_fails (cfgRoot : List (Option AfiJsonResource)) (s : Agent) :
    Ends (handlePipelineConfig pb target cfgRoot) s
      (fun r _ => r = false ↔ LacksCreator pb target cfgRoot)
      (fun e t => ¬ LacksCreator pb target cfgRoot ∧ (e = .json → t.p4Info = s.p4Info ∧
        (Addressed s → t.objectsMap = s.objectsMap → ∃ rest, cfgRoot = none :: rest))) := by
  apply ends_bind
  apply (handleAfiJsonObjects_fails pb target cfgRoot s).mono
  · intro r t post
    cases r with
    | false => exact ends_pure post.1
    | true =>
        apply ends_bind
        apply (bindAfiObjects_ends target t).mono
        · exact fun _ u _ => ends_pure post.1
        · rintro e u ⟨null, _⟩
          refine ⟨fun lacks => ?_, fun json => ?_⟩
          · exact absurd (post.1.mpr lacks) (by decide)
          · rw [null] at json
            simp at json
  · rintro e t ⟨known, p4Info, first⟩
    exact ⟨known, fun json => ⟨p4Info, fun addressed same => first addressed same json⟩⟩

end

namespace P4RuntimeServiceImpl
open P4

section
variable (parsers : Parsers) (pb : Protobuf) (target : Target)

/-- The device config cannot be parsed, or `handlePipelineConfig` returns false. -/
def Fails (s : Agent) (config : ForwardingPipelineConfig) : Prop :=
  let parsed := parsers.p4DeviceConfig config.p4DeviceConfig
  parsed.1 = false ∨ parsers.json parsed.2 = none ∨
    ∃ cfgRoot t, parsers.json parsed.2 = some cfgRoot ∧
      handlePipelineConfig pb target cfgRoot (s.withResources config) = .ok false t

/-- The agent goes on, it has not reported OK, and its three maps are what they were. An
exception is reported to the client as an error. -/
def Refused (s : Agent) : EStateM.Result Fault Agent Status → Prop
  | .ok status t => status ≠ .OK ∧ t.p4Info = s.p4Info ∧ t.objectsMap = s.objectsMap
  | .error fault t => fault = .json ∧ t.p4Info = s.p4Info ∧ t.objectsMap = s.objectsMap

def AllOrNothing (s : Agent) (config : ForwardingPipelineConfig) : Prop :=
  Fails parsers pb target s config →
    Refused s (setForwardingPipelineConfig parsers pb target config s)

/-- Each id and each name of the request stands already for its last resource with that
id or name. -/
def ResourcesKnown (s : Agent) (config : ForwardingPipelineConfig) : Prop :=
  (∀ id res, lastOf id (config.resources.map fun res => (res.id, res)) = some res →
    s.p4Info.idMap.deref id = some res) ∧
  ∀ name res, lastOf name (config.resources.map fun res => (res.name, res)) = some res →
    s.p4Info.nameMap.deref name = some res

omit parsers pb target in
theorem withResources_p4Info (s : Agent) (config : ForwardingPipelineConfig) :
    (s.withResources config).p4Info = s.p4Info ↔ ResourcesKnown s config := by
  unfold ResourcesKnown
  rw [← assignAll_eq_self, ← assignAll_eq_self]
  constructor
  · exact fun same => ⟨congrArg P4Info.idMap same, congrArg P4Info.nameMap same⟩
  · rintro ⟨idMap, nameMap⟩
    unfold Agent.withResources P4Info.insertAll
    simp only
    rw [idMap, nameMap]

/-- Setting the pipeline is all or nothing exactly if nothing can fail, or nothing is
inserted into the maps before it fails. -/
theorem pipeline_allOrNothing_iff (s : Agent) (config : ForwardingPipelineConfig)
    (reachable : Reachable pb target s) :
    let parsed := parsers.p4DeviceConfig config.p4DeviceConfig
    AllOrNothing parsers pb target s config ↔
      (parsed.1 = true ∧
        ∃ cfgRoot, parsers.json parsed.2 = some cfgRoot ∧ ¬ LacksCreator pb target cfgRoot) ∨
      (ResourcesKnown s config ∧
        (parsers.json parsed.2 = none ∨ ∃ rest, parsers.json parsed.2 = some (none :: rest))) := by
  intro parsed
  have known : Addressed s := reachable_addressed pb target reachable
  have addressed : Addressed (s.withResources config) := known
  unfold AllOrNothing Fails
  rw [setForwardingPipelineConfig_run, ← withResources_p4Info]
  dsimp only
  change (parsed.1 = false ∨ parsers.json parsed.2 = none ∨ (∃ cfgRoot t,
    parsers.json parsed.2 = some cfgRoot ∧ _ = EStateM.Result.ok false t) → Refused s _) ↔ _
  cases read : parsers.json parsed.2 with
  | none =>
      constructor
      · intro refused
        obtain ⟨_, same, _⟩ := refused (Or.inr (Or.inl rfl))
        exact Or.inr ⟨same, Or.inl rfl⟩
      · rintro (⟨_, _, wrong, _⟩ | ⟨same, _⟩) _
        · simp at wrong
        · exact ⟨rfl, same, rfl⟩
  | some cfgRoot =>
      dsimp only
      have fails := handlePipelineConfig_fails pb target cfgRoot (s.withResources config)
      cases ran : handlePipelineConfig pb target cfgRoot (s.withResources config) with
      | ok r t =>
          have lacks := fails.of_ok ran
          -- the request has reported OK, so it must not have failed
          constructor
          · intro refused
            refine Or.inl ⟨?_, cfgRoot, rfl, fun missing => ?_⟩
            · by_contra failed
              exact (refused (Or.inl (Bool.eq_false_iff.mpr failed))).1 rfl
            · have failed := lacks.mpr missing
              rw [failed] at ran
              exact (refused (Or.inr (Or.inr ⟨cfgRoot, t, rfl, ran⟩))).1 rfl
          · rintro (⟨parsable, _, same, creators⟩ | ⟨_, wrong | ⟨rest, first⟩⟩) failed
            · obtain rfl := Option.some.inj same
              rcases failed with unparsable | wrong | ⟨_, _, same, ran'⟩
              · rw [parsable] at unparsable
                simp at unparsable
              · simp at wrong
              · obtain rfl := Option.some.inj same
                exact (creators ((fails.of_ok ran').mp rfl)).elim
            · simp at wrong
            · obtain rfl := Option.some.inj first
              cases ran
      | error e t =>
          obtain ⟨creators, json⟩ := fails.of_error ran
          constructor
          · intro refused
            by_cases parsable : parsed.1 = true
            · exact Or.inl ⟨parsable, cfgRoot, rfl, creators⟩
            · obtain ⟨thrown, p4Info, objectsMap⟩ :=
                refused (Or.inl (Bool.eq_false_iff.mpr parsable))
              obtain ⟨kept, first⟩ := json thrown
              obtain ⟨rest, same⟩ := first addressed objectsMap
              exact Or.inr ⟨kept.symm.trans p4Info, Or.inr ⟨rest, congrArg some same⟩⟩
          · rintro (⟨parsable, _⟩ | ⟨same, wrong | ⟨rest, first⟩⟩) failed
            · rcases failed with unparsable | wrong | ⟨_, _, same, ran'⟩
              · rw [parsable] at unparsable
                simp at unparsable
              · simp at wrong
              · obtain rfl := Option.some.inj same
                rw [ran] at ran'
                simp at ran'
            · simp at wrong
            · obtain rfl := Option.some.inj first
              obtain ⟨rfl, rfl⟩ := EStateM.Result.error.inj ran
              exact ⟨rfl, same, rfl⟩

end

/-- An AFI object as a controller writes it. -/
def objectText (res : AfiJsonResource) : Str :=
  str "\x7b\"afi-object-name\":\"" ++ res.name ++ str "\",\"afi-object-id\":" ++
    decimal res.id.toNat ++ str ",\"afi-object-type\":\"" ++ res.type ++
    str "\",\"afi-object\":\"" ++ res.objStr ++ str "\"\x7d"

def arrayText (cfg : List AfiJsonResource) : Str :=
  str "[" ++ List.intercalate (str ",") (cfg.map objectText) ++ str "]"

/-- The device config with these objects, whose field 3 is the text. -/
def deviceConfig (cfg : List AfiJsonResource) : Str :=
  Proto3.encodeFields [.bytes 3 (arrayText cfg)]

def arrayParsers (cfg : List AfiJsonResource) : Parsers where
  p4DeviceConfig bytes := if bytes = deviceConfig cfg then (true, arrayText cfg) else (false, [])
  json text := if text = arrayText cfg then some (cfg.map some) else none

theorem arrayParsers_read (cfg : List AfiJsonResource) :
    (arrayParsers cfg).json ((arrayParsers cfg).p4DeviceConfig (deviceConfig cfg)).2 =
      some (cfg.map some) := by
  have parsed : (arrayParsers cfg).p4DeviceConfig (deviceConfig cfg) = (true, arrayText cfg) :=
    if_pos rfl
  rw [parsed]
  exact if_pos rfl

def matchRes : AfiJsonResource where
  type := str "afi-cap-match"
  id := 11
  name := str "ingress.l3_admit.dst_mac_classifier_table_match"
  objStr := []

/-- An object of the spine pipeline for which the Broadcom device has no creator. -/
def encapRes : AfiJsonResource where
  type := str "afi-encap"
  id := 12
  name := str "ingress.l3_fwd.l3_ipv4_override_table_encap"
  objStr := []

def spineConfig (cfg : List AfiJsonResource) : ForwardingPipelineConfig where
  actions := [Spine.setVrf]
  tables := [Spine.vrfTable]
  p4DeviceConfig := deviceConfig cfg

theorem spineConfig_read (cfg : List AfiJsonResource) :
    (arrayParsers cfg).json
      ((arrayParsers cfg).p4DeviceConfig (spineConfig cfg).p4DeviceConfig).2 =
        some (cfg.map some) := arrayParsers_read cfg

/-- The request fails at its second object and reports OK, with its table and its first
object in the maps. -/
theorem pipeline_half_set : ∃ t,
    let parsers := arrayParsers [matchRes, encapRes]
    let config := spineConfig [matchRes, encapRes]
    setForwardingPipelineConfig parsers AfiWire.protobuf Brcm.target config {} = .ok .OK t ∧
      Fails parsers AfiWire.protobuf Brcm.target {} config ∧
      t.p4Info.table? Spine.vrfTable.id = some Spine.vrfTable ∧
      (t.lookup matchRes.name).isSome ∧
      ¬ AllOrNothing parsers AfiWire.protobuf Brcm.target {} config := by
  have read := spineConfig_read [matchRes, encapRes]
  let s := Agent.withResources {} (spineConfig [matchRes, encapRes])
  have handled : handlePipelineConfig AfiWire.protobuf Brcm.target
      ([matchRes, encapRes].map some) s = .ok false (s.storeObject matchRes ⟨.capMatch, {}⟩) := rfl
  have returned : setForwardingPipelineConfig (arrayParsers [matchRes, encapRes]) AfiWire.protobuf
      Brcm.target (spineConfig [matchRes, encapRes]) {} =
        .ok .OK (s.storeObject matchRes ⟨.capMatch, {}⟩) := by
    rw [setForwardingPipelineConfig_run, read]
    simp only
    rw [handled]
  have fails : Fails (arrayParsers [matchRes, encapRes]) AfiWire.protobuf Brcm.target {}
      (spineConfig [matchRes, encapRes]) :=
    Or.inr (Or.inr ⟨_, _, read, handled⟩)
  refine ⟨_, returned, fails, ?_, ?_, fun refused => ?_⟩
  · change ((Agent.withResources {} (spineConfig _)).p4Info.p4InfoResource _).bind _ = _
    unfold Agent.withResources
    rw [P4Info.p4InfoResource_insertAll]
    rfl
  · rw [lookup_storeObject, if_pos rfl, Option.isSome_some]
  · unfold AllOrNothing at refused
    rw [returned] at refused
    exact (refused fails).1 rfl

theorem pipeline_allOrNothing_iff_spine :
    let parsers := arrayParsers [matchRes, encapRes]
    let config := spineConfig [matchRes, encapRes]
    let parsed := parsers.p4DeviceConfig config.p4DeviceConfig
    AllOrNothing parsers AfiWire.protobuf Brcm.target {} config ↔
      (parsed.1 = true ∧ ∃ cfgRoot, parsers.json parsed.2 = some cfgRoot ∧
        ¬ LacksCreator AfiWire.protobuf Brcm.target cfgRoot) ∨
      (ResourcesKnown {} config ∧ (parsers.json parsed.2 = none ∨
        ∃ rest, parsers.json parsed.2 = some (none :: rest))) :=
  pipeline_allOrNothing_iff (arrayParsers [matchRes, encapRes]) AfiWire.protobuf Brcm.target {}
    (spineConfig [matchRes, encapRes]) ⟨[], rfl⟩

end P4RuntimeServiceImpl
end JP4Agent
