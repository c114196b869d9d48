import JP4Agent.AfiPipeline
import JP4Agent.AfiStoreRuns

set_option autoImplicit false

namespace JP4Agent
open PtrMap

/-- The object with another address. -/
def AfiObject.relabel (f : Nat → Nat) (obj : AfiObject) : AfiObject :=
  { obj with addr := f obj.addr }

def Installed.relabel (f : Nat → Nat) (installed : Installed) : Installed where
  object := installed.object.relabel f
  uses := installed.uses.map (AfiObject.relabel f)

/-- The state with other addresses of its objects. -/
def Agent.relabel (f : Nat → Nat) (s : Agent) : Agent :=
  { s with
    objectsMap := s.objectsMap.mapValues (AfiObject.relabel f)
    bound := s.bound.map (AfiObject.relabel f)
    installed := s.installed.map (Installed.relabel f) }

/-- The state without the addresses of the objects made since the `n`-th. -/
def Agent.sinceErased (n : Nat) (s : Agent) : Agent := s.relabel fun addr => min addr n

namespace AfiDevice

section
variable (f : Nat → Nat) (target : Target)

theorem getAfiObject_relabel (name : Str) :
    Simulates (Agent.relabel f) (Option.map (AfiObject.relabel f)) (getAfiObject name)
      (getAfiObject name) := by
  intro s
  rw [getAfiObject_run, getAfiObject_run]
  unfold Agent.lookup Agent.relabel
  simp only [deref_mapValues, ← mapValues_touch]
  rfl

theorem resolve_relabel (refs : List (Str × AfiClass)) :
    Simulates (Agent.relabel f) (Option.map (List.map (AfiObject.relabel f))) (resolve refs)
      (resolve refs) := by
  induction refs with
  | nil => exact simulates_pure (some [])
  | cons ref rest ih =>
      apply simulates_bind (getAfiObject_relabel f ref.1)
      intro found
      cases found with
      | none => exact simulates_pure none
      | some obj =>
          dsimp only [Option.map_some]
          change Simulates _ _ _ (if obj.cls = ref.2 then _ else _)
          by_cases sameClass : obj.cls = ref.2
          · rw [if_pos sameClass, if_pos sameClass]
            apply simulates_map ih
            intro uses
            cases uses <;> rfl
          · rw [if_neg sameClass, if_neg sameClass]
            exact simulates_pure none

/-- Binding looks at the names of objects, never at their addresses. -/
theorem bind_relabel (obj : AfiObject) :
    Simulates (Agent.relabel f) id (bind target obj) (bind target (obj.relabel f)) := by
  apply simulates_bind (g := id)
  · exact simulates_modify fun _ => rfl
  · intro _
    apply simulates_bind (resolve_relabel f (target.refs obj.cls obj.message))
    intro uses
    cases uses with
    | none => exact simulates_pure true
    | some uses =>
        apply simulates_bind (g := id)
        · exact simulates_modify fun _ => rfl
        · exact fun _ => simulates_pure true

theorem bindFrom_relabel (fuel : Nat) : ∀ last : Option Str,
    Simulates (Agent.relabel f) id (bindFrom target fuel last) (bindFrom target fuel last) := by
  induction fuel with
  | zero => exact fun _ => simulates_throw Fault.outOfFuel
  | succ fuel ih =>
      intro last s
      have next : (s.relabel f).objectsMap.next last = _ :=
        next_mapValues (AfiObject.relabel f) s.objectsMap last
      unfold bindFrom
      rw [get_bind, get_bind]
      rw [next]
      cases s.objectsMap.next last with
      | none => rfl
      | some entry =>
          rcases entry with ⟨key, pointer⟩
          cases pointer with
          | none => rfl
          | some obj =>
              exact simulates_bind (bind_relabel f target obj) (fun _ => ih (some key)) s

theorem bindAfiObjects_relabel :
    Simulates (Agent.relabel f) id (bindAfiObjects target) (bindAfiObjects target) := by
  intro s
  have size := size_mapValues (AfiObject.relabel f) s.objectsMap
  change bindFrom target ((s.objectsMap.mapValues (AfiObject.relabel f)).size + 1) none
    (s.relabel f) = mapResult _ id (bindFrom target (s.objectsMap.size + 1) none s)
  rw [size]
  exact bindFrom_relabel f target _ none s

end
end AfiDevice

namespace Agent

/-- A new object with this address is stored under its name. -/
def storeAt (addr : Nat) (s : Agent) (res : AfiJsonResource)
    (value : (c : AfiClass) × c.Message) : Agent :=
  { s with
    nextAddr := s.nextAddr + 1
    objectsMap := s.objectsMap.assign res.name ⟨addr, res, value.1, value.2⟩ }

section
variable (pb : Protobuf) (target : Target) (n : Nat)

/-- The same for an object that is created if it can be. -/
def storeErased (s : Agent) (res : AfiJsonResource) : Agent :=
  match AfiDevice.creation pb target res with
  | .ok (some value) => storeAt n s res value
  | _ => s

theorem sinceErased_storeObject {s : Agent} (since : n ≤ s.nextAddr) (res : AfiJsonResource)
    (value : (c : AfiClass) × c.Message) :
    (s.storeObject res value).sinceErased n = storeAt n (s.sinceErased n) res value := by
  have erased : AfiObject.relabel (fun addr => min addr n) ⟨s.nextAddr, res, value.1, value.2⟩ =
      ⟨n, res, value.1, value.2⟩ := by
    unfold AfiObject.relabel
    simp only [Nat.min_eq_right since]
  unfold sinceErased relabel storeObject storeAt
  rw [mapValues_assign, erased]

theorem sinceErased_storeCreated {s : Agent} (since : n ≤ s.nextAddr) (res : AfiJsonResource) :
    (s.storeCreated pb target res).sinceErased n =
        storeErased pb target n (s.sinceErased n) res ∧
      n ≤ (s.storeCreated pb target res).nextAddr := by
  unfold storeCreated storeErased
  cases AfiDevice.creation pb target res with
  | error _ => exact ⟨rfl, since⟩
  | ok made =>
      cases made with
      | none => exact ⟨rfl, since⟩
      | some value =>
          exact ⟨sinceErased_storeObject n since res value, Nat.le_succ_of_le since⟩

/-- Without their addresses, objects are stored alike whenever that happens. -/
theorem sinceErased_storeAll (cfg : List AfiJsonResource) : ∀ s : Agent, n ≤ s.nextAddr →
    (s.storeAll pb target cfg).sinceErased n =
      cfg.foldl (storeErased pb target n) (s.sinceErased n) := by
  induction cfg with
  | nil => exact fun _ _ => rfl
  | cons res rest ih =>
      intro s since
      obtain ⟨first, later⟩ := sinceErased_storeCreated pb target n since res
      unfold storeAll at ih ⊢
      rw [List.foldl_cons, List.foldl_cons, ih _ later, first]

/-- Objects with different names can be stored in any order. -/
theorem storeErased_comm {res res' : AfiJsonResource} (apart : res.name ≠ res'.name) (s : Agent) :
    storeErased pb target n (storeErased pb target n s res) res' =
      storeErased pb target n (storeErased pb target n s res') res := by
  unfold storeErased
  cases AfiDevice.creation pb target res with
  | error _ => rfl
  | ok made =>
      cases AfiDevice.creation pb target res' with
      | error _ => rfl
      | ok made' =>
          cases made <;> cases made'
          case some.some value value' =>
            change storeAt n (storeAt n s res value) res' value' =
              storeAt n (storeAt n s res' value') res value
            unfold storeAt
            rw [assign_comm _ apart]
          all_goals rfl

theorem storeAll_perm {cfg cfg' : List AfiJsonResource} (perm : cfg.Perm cfg')
    (distinct : (cfg.map AfiJsonResource.name).Nodup) (s : Agent) :
    (s.storeAll pb target cfg).sinceErased s.nextAddr =
      (s.storeAll pb target cfg').sinceErased s.nextAddr := by
  rw [sinceErased_storeAll pb target s.nextAddr cfg s (Nat.le_refl _),
    sinceErased_storeAll pb target s.nextAddr cfg' s (Nat.le_refl _)]
  apply perm.foldl_eq'
  intro res member res' member' t
  by_cases same : res = res'
  · rw [same]
  · apply storeErased_comm
    intro wrong
    exact same (List.inj_on_of_nodup_map distinct member member' wrong)

end
end Agent

open Agent Afi AfiDevice in
/-- A pipeline has the same outcome in every order of its objects: the same objects in
the store, of which the same ones were bound and installed in the same sequence. -/
theorem handlePipelineConfig_perm (pb : Protobuf) (target : Target) (s : Agent)
    (cfg cfg' : List AfiJsonResource) (distinct : (cfg.map AfiJsonResource.name).Nodup)
    (creatable : ∀ res ∈ cfg, Creatable pb target res) (perm : cfg.Perm cfg') :
    mapResult (sinceErased s.nextAddr) id (handlePipelineConfig pb target (cfg.map some) s) =
      mapResult (sinceErased s.nextAddr) id
        (handlePipelineConfig pb target (cfg'.map some) s) := by
  have binds : Simulates (sinceErased s.nextAddr) id
      (do bindAfiObjects target; pure true : AfiM Bool)
      (do bindAfiObjects target; pure true : AfiM Bool) :=
    simulates_bind (bindAfiObjects_relabel _ target) fun _ => simulates_pure true
  have creatable' : ∀ res ∈ cfg', Creatable pb target res :=
    fun res member => creatable res (perm.mem_iff.mpr member)
  rw [handlePipelineConfig_stores s creatable, handlePipelineConfig_stores s creatable',
    ← binds, ← binds, storeAll_perm pb target perm distinct]

namespace Spine
open Agent Afi AfiDevice

theorem objects_creatable : ∀ res ∈ objects, Creatable AfiWire.protobuf Brcm.target res := by
  intro res member
  have made := List.mem_map_of_mem (f := creation AfiWire.protobuf Brcm.target) member
  rw [objects_creation] at made
  simp only [List.mem_cons, List.not_mem_nil, or_false] at made
  rcases made with made | made | made
  · exact ⟨_, made⟩
  · exact ⟨_, made⟩
  · exact ⟨_, made⟩

end Spine

open Agent Afi in
/-- The objects of the spine pipeline, in reverse order. -/
theorem handlePipelineConfig_perm_spine :
    mapResult (sinceErased 0) id
        (handlePipelineConfig AfiWire.protobuf Brcm.target (Spine.objects.map some) {}) =
      mapResult (sinceErased 0) id
        (handlePipelineConfig AfiWire.protobuf Brcm.target (Spine.objects.reverse.map some) {}) :=
  handlePipelineConfig_perm AfiWire.protobuf Brcm.target {} Spine.objects Spine.objects.reverse
    (by decide) Spine.objects_creatable (List.reverse_perm Spine.objects).symm

end JP4Agent
