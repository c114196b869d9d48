import JP4Agent.AfiBinds

set_option autoImplicit false

namespace JP4Agent
open PtrMap

/-- A type with a creator, and a payload that the constructor can decode. -/
def Creatable (pb : Protobuf) (target : Target) (res : AfiJsonResource) : Prop :=
  ∃ value, AfiDevice.creation pb target res = .ok (some value)

namespace Agent

def storeObject (s : Agent) (res : AfiJsonResource) (value : (c : AfiClass) × c.Message) : Agent :=
  { s with
    nextAddr := s.nextAddr + 1
    objectsMap := s.objectsMap.assign res.name ⟨s.nextAddr, res, value.1, value.2⟩ }

theorem lookup_storeObject (s : Agent) (res : AfiJsonResource)
    (value : (c : AfiClass) × c.Message) (name : Str) :
    (s.storeObject res value).lookup name =
      if res.name = name then some ⟨s.nextAddr, res, value.1, value.2⟩ else s.lookup name :=
  deref_assign ..

/-- The same for an object that is created if it can be. -/
def storeCreated (pb : Protobuf) (target : Target) (s : Agent) (res : AfiJsonResource) : Agent :=
  match AfiDevice.creation pb target res with
  | .ok (some value) => s.storeObject res value
  | _ => s

/-- The state after all of the objects that can be created were stored. -/
def storeAll (pb : Protobuf) (target : Target) (s : Agent) (cfg : List AfiJsonResource) : Agent :=
  cfg.foldl (storeCreated pb target) s

theorem storeAll_p4Info (pb : Protobuf) (target : Target) (cfg : List AfiJsonResource) :
    ∀ s : Agent, (s.storeAll pb target cfg).p4Info = s.p4Info := by
  induction cfg with
  | nil => exact fun _ => rfl
  | cons res rest ih =>
      intro s
      unfold storeAll at ih ⊢
      rw [List.foldl_cons, ih, storeCreated]
      split <;> rfl

end Agent

namespace Afi
open Agent AfiDevice

section
variable {pb : Protobuf} {target : Target}

theorem handleAfiJsonObject_stores {res : AfiJsonResource} {value : (c : AfiClass) × c.Message}
    (made : creation pb target res = .ok (some value)) (s : Agent) :
    handleAfiJsonObject pb target (some res) true s = .ok true (s.storeObject res value) := by
  have ends : Ends (create pb target res) s
      (fun r t => r = some ⟨s.nextAddr, res, value.1, value.2⟩ ∧
        t = { s with nextAddr := s.nextAddr + 1 }) (fun _ _ => False) := by
    apply (create_ends pb target res s).mono
    · intro r t post
      rcases post with ⟨missing, _⟩ | ⟨value', made', object, state⟩
      · rw [made] at missing
        simp at missing
      · rw [made, Except.ok.injEq, Option.some.injEq] at made'
        rw [made']
        exact ⟨object, state⟩
    · intro e t failed
      obtain ⟨_, fault, failed, _⟩ := failed
      rw [made] at failed
      simp at failed
  obtain ⟨r, t, created, object, state⟩ := ends.returns
  rw [object, state] at created
  apply bind_eq_ok.mpr
  refine ⟨some ⟨s.nextAddr, res, value.1, value.2⟩, _, ?_, rfl⟩
  apply bind_eq_ok.mpr
  exact ⟨_, _, created, rfl⟩

theorem handleAfiJsonObjects_stores (cfg : List AfiJsonResource) :
    ∀ s : Agent, (∀ res ∈ cfg, Creatable pb target res) →
      handleAfiJsonObjects pb target true (cfg.map some) s =
        .ok true (s.storeAll pb target cfg) := by
  induction cfg with
  | nil => exact fun _ _ => rfl
  | cons res rest ih =>
      intro s creatable
      obtain ⟨value, made⟩ := creatable res List.mem_cons_self
      apply bind_eq_ok.mpr
      refine ⟨true, s.storeObject res value, handleAfiJsonObject_stores made s, ?_⟩
      have first : s.storeAll pb target (res :: rest) =
          (s.storeObject res value).storeAll pb target rest := by
        unfold storeAll
        rw [List.foldl_cons, storeCreated, made]
      rw [first]
      exact ih _ fun other member => creatable other (List.mem_cons_of_mem _ member)

/-- A pipeline whose objects can be created is stored, and then the store is bound. -/
theorem handlePipelineConfig_stores {cfg : List AfiJsonResource} (s : Agent)
    (creatable : ∀ res ∈ cfg, Creatable pb target res) :
    handlePipelineConfig pb target (cfg.map some) s =
      (do bindAfiObjects target; pure true : AfiM Bool) (s.storeAll pb target cfg) := by
  unfold handlePipelineConfig
  rw [bind_of_ok (handleAfiJsonObjects_stores cfg s creatable)]
  rfl

end
end Afi
end JP4Agent
