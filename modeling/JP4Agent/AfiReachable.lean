import JP4Agent.AfiInsertRuns

set_option autoImplicit false

namespace JP4Agent
open Agent Afi AfiDevice

namespace Agent

/-- `t` is reached from `s` by storing new objects. -/
structure Grows (s t : Agent) : Prop where
  nextAddr : s.nextAddr ≤ t.nextAddr
  lookup : ∀ name, t.lookup name = s.lookup name ∨ Fresh s t name

theorem Grows.trans {s t u : Agent} (first : Grows s t) (second : Grows t u) : Grows s u where
  nextAddr := first.nextAddr.trans second.nextAddr
  lookup name := by
    have early := first.nextAddr
    have late := second.nextAddr
    rcases second.lookup name with kept | fresh
    · rcases first.lookup name with kept' | fresh'
      · exact Or.inl (kept.trans kept')
      · obtain ⟨obj, found, lower, upper⟩ := fresh'
        exact Or.inr ⟨obj, kept.trans found, lower, by omega⟩
    · obtain ⟨obj, found, lower, upper⟩ := fresh
      exact Or.inr ⟨obj, found, by omega, upper⟩

theorem Same.grows {s t : Agent} (same : Same s t) : Grows s t where
  nextAddr := Nat.le_of_eq same.nextAddr.symm
  lookup name := Or.inl (same.lookup name)

theorem Stored.grows {s t : Agent} {obj : AfiObject} (stored : Stored s obj t) : Grows s t where
  nextAddr := Nat.le_trans (Nat.le_succ _) (Nat.le_of_eq stored.nextAddr.symm)
  lookup name := by
    have address := stored.addr
    have allocated := stored.nextAddr
    rw [stored.lookup]
    by_cases here : obj.name = name
    · rw [if_pos here]
      exact Or.inr ⟨obj, by rw [stored.lookup, if_pos here], by omega, by omega⟩
    · rw [if_neg here]
      exact Or.inl rfl

/-- Every object of the store has an address that was given out. -/
def Addressed (s : Agent) : Prop := ∀ name obj, s.lookup name = some obj → obj.addr < s.nextAddr

theorem Grows.addressed {s t : Agent} (grows : Grows s t) (addressed : Addressed s) :
    Addressed t := by
  intro name obj found
  have late := grows.nextAddr
  rcases grows.lookup name with kept | fresh
  · have early := addressed name obj (kept.symm.trans found)
    omega
  · obtain ⟨obj', found', _, upper⟩ := fresh
    obtain rfl := Option.some.inj (found.symm.trans found')
    exact upper

/-- A stored object, or one that has replaced it, is not one of the store before. -/
theorem Stored.changed {s t u : Agent} {obj : AfiObject} (stored : Stored s obj t)
    (grows : Grows t u) (addressed : Addressed s) : u.objectsMap ≠ s.objectsMap := by
  intro same
  have lookup : u.lookup obj.name = s.lookup obj.name := by
    unfold Agent.lookup
    rw [same]
  have here : t.lookup obj.name = some obj := by
    rw [stored.lookup, if_pos rfl]
  have address := stored.addr
  have allocated := stored.nextAddr
  rcases grows.lookup obj.name with kept | fresh
  · have early := addressed obj.name obj (lookup.symm.trans (kept.trans here))
    omega
  · obtain ⟨obj', found, lower, _⟩ := fresh
    have early := addressed obj.name obj' (lookup.symm.trans found)
    omega

end Agent

section
variable (pb : Protobuf) (target : Target)

theorem Afi.handleAfiJsonObject_grows (cfgObj : Option AfiJsonResource) (pipelineStage : Bool)
    (s : Agent) :
    Ends (handleAfiJsonObject pb target cfgObj pipelineStage) s (fun _ t => Grows s t)
      (fun _ t => t = s) := by
  cases cfgObj with
  | none => exact ends_throw rfl
  | some res =>
      apply (handleAfiJsonObject_ends pb target res pipelineStage s).mono
      · intro r t post
        rcases post with ⟨_, _, rfl⟩ | ⟨_, _, _, stored, _⟩
        · exact (Same.refl t).grows
        · exact stored.grows
      · exact fun e t failed => failed.1

theorem Afi.handleAfiJsonObjects_grows (pipelineStage : Bool)
    (cfg : List (Option AfiJsonResource)) : ∀ s : Agent,
    Ends (handleAfiJsonObjects pb target pipelineStage cfg) s (fun _ t => Grows s t)
      (fun _ t => Grows s t) := by
  induction cfg with
  | nil => exact fun s => ends_pure (Same.refl s).grows
  | cons cfgObj rest ih =>
      intro s
      apply ends_bind
      apply (handleAfiJsonObject_grows pb target cfgObj pipelineStage s).mono
      · intro r t first
        cases r with
        | false => exact ends_pure first
        | true =>
            exact (ih t).mono (fun _ _ second => first.trans second)
              fun _ _ second => first.trans second
      · rintro e t rfl
        exact (Same.refl t).grows

/-- Only a crash leaves an unknown state behind. -/
theorem Afi.handlePipelineConfig_grows (cfgRoot : List (Option AfiJsonResource)) (s : Agent) :
    Ends (handlePipelineConfig pb target cfgRoot) s (fun _ t => Grows s t)
      (fun e t => e = .json → Grows s t) := by
  apply ends_bind
  apply (handleAfiJsonObjects_grows pb target true cfgRoot s).mono
  · intro r t first
    cases r with
    | false => exact ends_pure first
    | true =>
        apply ends_bind
        apply (bindAfiObjects_ends target t).mono
        · exact fun _ u post => ends_pure (first.trans post.1.grows)
        · rintro e u ⟨null, _⟩ json
          rw [null] at json
          simp at json
  · exact fun e t grows _ => grows

theorem Afi.afiAddObjEntry_grows (tId aId : UInt32) (mfs : List AfiTEntryMatchField)
    (aes : List AfiAEntry) (s : Agent) :
    Ends (afiAddObjEntry pb target tId aId mfs aes) s (fun _ t => Grows s t)
      (fun _ t => Grows s t) := by
  apply afiAddObjEntry_ends
  · exact fun t _ unchanged _ => unchanged.toSame.grows
  · intro eObjs t _ looked
    have first := looked.toSameStore.toSame.grows
    exact (handleAfiJsonObjects_grows pb target false _ t).mono
      (fun _ _ second => first.trans second) fun _ _ second => first.trans second

theorem AgentOp.program_grows (op : AgentOp) (s : Agent) :
    Ends (op.program pb target) s (fun _ t => Grows s t) (fun e t => e = .json → Grows s t) := by
  cases op with
  | p4InfoResource res =>
      apply ends_modify
      exact ⟨Nat.le_refl _, fun _ => Or.inl rfl⟩
  | handlePipelineConfig cfgRoot => exact ends_map (handlePipelineConfig_grows pb target cfgRoot s)
  | addAfiTree =>
      apply ends_map
      apply (handleAfiJsonObject_grows pb target _ false s).mono fun _ _ grows => grows
      rintro e t rfl _
      exact (Same.refl t).grows
  | addEntry =>
      apply ends_map
      apply (handleAfiJsonObject_grows pb target _ false s).mono fun _ _ grows => grows
      rintro e t rfl _
      exact (Same.refl t).grows
  | afiAddObjEntry tId aId mfs aes =>
      exact ends_map ((afiAddObjEntry_grows pb target tId aId mfs aes s).mono
        (fun _ _ grows => grows) fun _ _ grows _ => grows)
  | getAfiObject name =>
      apply ends_map
      rw [Ends, getAfiObject_run]
      exact (same_touch s name).grows
  | showAfiObjects =>
      apply ends_map
      apply (CLIService.showAfiObjects_ends s).mono
      · rintro _ t rfl
        exact (Same.refl t).grows
      · rintro e t ⟨rfl, _⟩ _
        exact (Same.refl t).grows

/-- A state of the agent after some operations, none of which has crashed it. -/
def Reachable (s : Agent) : Prop := ∃ ops, run (Process.step pb target) {} ops = some { agent := s }

theorem reachable_addressed {s : Agent} (reachable : Reachable pb target s) : Addressed s := by
  obtain ⟨ops, ran⟩ := reachable
  have keeps : ∀ (r : Process) op r', (r.crashed = none → Addressed r.agent) →
      Process.step pb target r op = some r' → r'.crashed = none → Addressed r'.agent := by
    intro r op r' addressed taken alive
    rw [Process.step] at taken
    split at taken
    · simp at taken
    · rename_i running
      have grows := op.program_grows pb target r.agent
      split at taken
      · rename_i agent returned
        obtain rfl := Option.some.inj taken
        exact (grows.of_ok returned).addressed (addressed running)
      · rename_i agent failed
        obtain rfl := Option.some.inj taken
        exact (grows.of_error failed rfl).addressed (addressed running)
      · obtain rfl := Option.some.inj taken
        simp at alive
  refine run_invariant keeps ?_ ran rfl
  intro _ name obj found
  simp [Agent.lookup, PtrMap.deref] at found

end
end JP4Agent
