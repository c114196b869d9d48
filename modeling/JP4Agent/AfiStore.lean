import JP4Agent.AfiInserts

set_option autoImplicit false

namespace JP4Agent
open Agent Afi AfiDevice PtrMap

/-- A fault that lies in the text of an object. -/
def Fault.OfInput (e : Fault) : Prop := e = .json ∨ ∃ fault, e = .decode fault

section
variable (pb : Protobuf) (target : Target)

/-- The objects are created, stored and bound one after another, up to the first that is
not created. Each finds the names it looks up bound. -/
def HandleAllBound (contents : Contents) : List (Option AfiJsonResource) → Prop
  | [] => True
  | none :: _ => True
  | some res :: rest =>
    ∀ value, creation pb target res = .ok (some value) →
      LookupsBound (Function.update contents res.name (some value)) (target.refs value.1 value.2) ∧
        HandleAllBound (Function.update contents res.name (some value)) rest

def load (contents : Contents) : List (Option AfiJsonResource) → Option Contents
  | [] => some contents
  | none :: _ => none
  | some res :: rest =>
    match creation pb target res with
    | .ok (some value) => load (Function.update contents res.name (some value)) rest
    | _ => none

theorem load_created {contents : Contents} {res : AfiJsonResource}
    {value : (c : AfiClass) × c.Message} (created : creation pb target res = .ok (some value))
    (rest : List (Option AfiJsonResource)) :
    load pb target contents (some res :: rest) =
      load pb target (Function.update contents res.name (some value)) rest := by
  rw [load, created]

theorem handleAllBound_created {contents : Contents} {res : AfiJsonResource}
    {value : (c : AfiClass) × c.Message} {rest : List (Option AfiJsonResource)}
    (created : creation pb target res = .ok (some value))
    (here : LookupsBound (Function.update contents res.name (some value))
      (target.refs value.1 value.2))
    (more : HandleAllBound pb target (Function.update contents res.name (some value)) rest) :
    HandleAllBound pb target contents (some res :: rest) := by
  intro other same
  cases created.symm.trans same
  exact ⟨here, more⟩

def AllBound (contents : Contents) : Prop :=
  ∀ name value, contents name = some value → LookupsBound contents (target.refs value.1 value.2)

def Bindable (s : Agent) : Prop := NoNulls s.objectsMap ∧ AllBound target s.contents

/-- The loop over a pipeline configuration or over child objects: it returns true
exactly if all of them are created. -/
theorem handleAfiJsonObjects_ends (pipelineStage : Bool) (cfg : List (Option AfiJsonResource)) :
    ∀ s : Agent, NoNulls s.objectsMap →
      (pipelineStage = false → HandleAllBound pb target s.contents cfg) →
      Ends (handleAfiJsonObjects pb target pipelineStage cfg) s
        (fun r t => NoNulls t.objectsMap ∧ SameInfo s t ∧
          load pb target s.contents cfg = if r then some t.contents else none)
        (fun e t => NoNulls t.objectsMap ∧ e.OfInput ∧ load pb target s.contents cfg = none) := by
  induction cfg with
  | nil => exact fun s noNulls _ => ends_pure ⟨noNulls, SameInfo.refl s, rfl⟩
  | cons cfgObj rest ih =>
      intro s noNulls bound
      apply ends_bind
      cases cfgObj with
      | none => exact ends_throw ⟨noNulls, Or.inl rfl, rfl⟩
      | some res =>
          refine (handleAfiJsonObject_ends pb target res pipelineStage s).mono
            (fun handled t post => ?_) ?_
          · rcases post with ⟨created, rfl, rfl⟩ | ⟨value, created, rfl, stored, kept⟩
            · exact ends_pure ⟨noNulls, SameInfo.refl t, by rw [load, created]; rfl⟩
            · have contents : t.contents = Function.update s.contents res.name (some value) :=
                stored.contents
              rw [load_created pb target created, ← contents]
              have noNulls' : NoNulls t.objectsMap := by
                refine kept noNulls fun stage => ?_
                rw [contents]
                exact (bound stage value created).1
              have bound' : pipelineStage = false → HandleAllBound pb target t.contents rest := by
                intro stage
                rw [contents]
                exact (bound stage value created).2
              exact (ih t noNulls' bound').mono
                (fun r u post => ⟨post.1, stored.toSameInfo.trans post.2.1, post.2.2⟩)
                fun _ _ failed => failed
          · rintro e t ⟨rfl, fault, created, rfl⟩
            exact ⟨noNulls, Or.inr ⟨fault, rfl⟩, by rw [load, created]⟩

/-- With fuel for every object still before it, the iteration ends; it meets a null
pointer only if there was one or if an object looked up a name that is not bound. -/
theorem bindFrom_ends (fuel : Nat) : ∀ (s : Agent) (last : Option Str),
    (s.objectsMap.boundAfter last).card < fuel →
    Ends (bindFrom target fuel last) s
      (fun _ t => Same s t ∧ (Bindable target s → t.objectsMap = s.objectsMap))
      (fun e _ => e = .nullDeref ∧ ¬ Bindable target s) := by
  induction fuel with
  | zero => exact fun s last impossible => (Nat.not_lt_zero _ impossible).elim
  | succ fuel ih =>
      intro s last enough
      apply ends_bind
      apply ends_get
      split
      · exact ends_pure ⟨Same.refl s, fun _ => rfl⟩
      · rename_i key reached
        exact ends_throw ⟨rfl, fun good => good.1 key (next_mem reached)⟩
      · rename_i key obj reached
        apply ends_bind
        refine (bind_ends target obj s).mono (fun r t post => ?_) fun _ _ failed => failed.elim
        obtain ⟨_, same, unchanged⟩ := post
        have fewer : (t.objectsMap.boundAfter (some key)).card < fuel := by
          have passed := boundAfter_next reached
          have sameKeys : t.objectsMap.boundAfter (some key) =
              s.objectsMap.boundAfter (some key) := by
            ext name
            rw [mem_boundAfter, mem_boundAfter]
            have lookup : t.objectsMap.deref name = s.objectsMap.deref name := same.lookup name
            rw [lookup]
          rw [sameKeys]
          omega
        have here : Bindable target s → t.objectsMap = s.objectsMap := by
          intro good
          refine unchanged (good.2 key obj.value ?_)
          have found : s.lookup key = some obj := (deref_eq_some _ _).mpr (next_mem reached)
          rw [Agent.contents, found]
          rfl
        have still : Bindable target s → Bindable target t := by
          intro good
          rw [Bindable, here good, same.contents]
          exact good
        exact (ih t (some key) fewer).mono
          (fun _ u post => ⟨same.trans post.1, fun good => (post.2 (still good)).trans (here good)⟩)
          fun e u failed => ⟨failed.1, fun good => failed.2 (still good)⟩

/-- The loop over the map always comes to an end. -/
theorem bindAfiObjects_ends (s : Agent) :
    Ends (bindAfiObjects target) s
      (fun _ t => Same s t ∧ (Bindable target s → t.objectsMap = s.objectsMap))
      (fun e _ => e = .nullDeref ∧ ¬ Bindable target s) :=
  bindFrom_ends target (s.objectsMap.size + 1) s none
    (Nat.lt_succ_of_le (s.objectsMap.boundAfter_card_le none))

end
end JP4Agent
