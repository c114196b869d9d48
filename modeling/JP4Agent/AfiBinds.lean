import JP4Agent.AfiInserts
import JP4Agent.Library.PtrMapOrder

set_option autoImplicit false

namespace JP4Agent
open PtrMap

namespace Agent

/-- The objects that the lookups of a `_bind` find, if each is of the class it is cast to. -/
def resolved (s : Agent) : List (Str × AfiClass) → Option (List AfiObject)
  | [] => some []
  | (name, cls) :: rest =>
    match s.lookup name with
    | none => none
    | some obj => if obj.cls = cls then (s.resolved rest).map (obj :: ·) else none

theorem Same.resolved {s t : Agent} (same : Same s t) (refs : List (Str × AfiClass)) :
    t.resolved refs = s.resolved refs := by
  induction refs with
  | nil => rfl
  | cons ref rest ih =>
      unfold Agent.resolved
      rw [same.lookup, ih]

/-- The objects of the store in the order of their names. -/
def objects (s : Agent) : List AfiObject := s.objectsMap.live.toList.map Prod.snd

theorem Same.objects {s t : Agent} (same : Same s t) : t.objects = s.objects := by
  rw [Agent.objects, live_congr same.lookup]
  rfl

theorem mem_objects {s : Agent} {obj : AfiObject} :
    obj ∈ s.objects ↔ ∃ name, s.lookup name = some obj := by
  unfold objects
  rw [List.mem_map]
  constructor
  · rintro ⟨⟨name, obj'⟩, member, rfl⟩
    exact ⟨name, mem_live_toList.mp member⟩
  · rintro ⟨name, found⟩
    exact ⟨(name, obj), mem_live_toList.mpr found, rfl⟩

end Agent

/-- What binding the object in this state installs. -/
def Target.install (target : Target) (s : Agent) (obj : AfiObject) : Option Installed :=
  (s.resolved (target.refs obj.cls obj.message)).map fun uses => ⟨obj, uses⟩

theorem Target.install_object {target : Target} {s : Agent} {obj : AfiObject}
    {installed : Installed} (made : target.install s obj = some installed) :
    installed.object = obj := by
  obtain ⟨_, _, rfl⟩ := Option.map_eq_some_iff.mp made
  rfl

theorem Target.install_congr (target : Target) {s t : Agent} (same : Agent.Same s t) :
    target.install t = target.install s := by
  funext obj
  rw [install, install, same.resolved]

/-- `t` is `s` after these objects were bound, the first of the list first. -/
structure Agent.Binds (target : Target) (s : Agent) (objs : List AfiObject) (t : Agent) : Prop
    extends Same s t where
  p4Info : t.p4Info = s.p4Info
  bound : t.bound = objs.reverse ++ s.bound
  installed : t.installed = (objs.filterMap (target.install s)).reverse ++ s.installed

theorem Agent.Binds.trans {target : Target} {s t u : Agent} {objs others : List AfiObject}
    (first : Binds target s objs t) (second : Binds target t others u) :
    Binds target s (objs ++ others) u where
  toSame := first.toSame.trans second.toSame
  p4Info := second.p4Info.trans first.p4Info
  bound := by
    rw [second.bound, first.bound, List.reverse_append, List.append_assoc]
  installed := by
    rw [second.installed, first.installed, target.install_congr first.toSame,
      List.filterMap_append, List.reverse_append, List.append_assoc]

namespace AfiDevice
open Agent

theorem resolve_resolved (refs : List (Str × AfiClass)) : ∀ s : Agent,
    Ends (resolve refs) s (fun r t => r = s.resolved refs ∧ Unchanged s t ∧ t.p4Info = s.p4Info)
      (fun _ _ => False) := by
  induction refs with
  | nil => exact fun s => ends_pure ⟨rfl, Unchanged.refl s, rfl⟩
  | cons ref rest ih =>
      intro s
      have here := unchanged_touch s ref.1
      apply ends_bind
      rw [Ends, getAfiObject_run]
      dsimp only
      unfold Agent.resolved
      cases found : s.lookup ref.1 with
      | none => exact ends_pure ⟨rfl, here, rfl⟩
      | some obj =>
          dsimp only
          by_cases sameClass : obj.cls = ref.2
          · rw [if_pos sameClass, if_pos sameClass]
            apply ends_map
            apply (ih _).mono _ fun _ _ failed => failed
            intro uses t post
            rw [post.1, here.toSame.resolved]
            exact ⟨rfl, here.trans post.2.1, post.2.2⟩
          · rw [if_neg sameClass, if_neg sameClass]
            exact ends_pure ⟨rfl, here, rfl⟩

section
variable (pb : Protobuf) (target : Target)

theorem bind_binds (obj : AfiObject) (s : Agent) :
    Ends (bind target obj) s (fun r t => r = true ∧ Binds target s [obj] t)
      (fun _ _ => False) := by
  apply ends_bind
  apply ends_modify
  apply ends_bind
  apply (resolve_resolved _ _).mono _ nofun
  intro uses t post
  obtain ⟨found, touched, p4Info⟩ := post
  have same : Same s { s with bound := obj :: s.bound } := ⟨⟨fun _ => rfl, fun _ => rfl⟩,
    fun _ => rfl, rfl⟩
  have installs : target.install s obj = uses.map fun uses => ⟨obj, uses⟩ := by
    rw [found, same.resolved]
    rfl
  cases uses with
  | none =>
      refine ends_pure ⟨rfl, same.trans touched.toSame, p4Info, touched.bound, ?_⟩
      rw [touched.installed]
      simp [installs]
  | some uses =>
      apply ends_bind
      apply ends_modify
      have marked : Same t { t with installed := ⟨obj, uses⟩ :: t.installed } :=
        ⟨⟨fun _ => rfl, fun _ => rfl⟩, fun _ => rfl, rfl⟩
      refine ends_pure ⟨rfl, (same.trans touched.toSame).trans marked, p4Info,
        touched.bound, ?_⟩
      simp [installs, touched.installed]

/-- The iteration binds the objects it visits, whatever null pointers the lookups add. -/
theorem bindFrom_binds (fuel : Nat) : ∀ (s : Agent) (last : Option Str),
    Ends (bindFrom target fuel last) s
      (fun _ t => Binds target s ((s.objectsMap.visitedAfter last).map Prod.snd) t)
      (fun _ _ => True) := by
  induction fuel with
  | zero => exact fun s last => ends_throw trivial
  | succ fuel ih =>
      intro s last
      apply ends_bind
      apply ends_get
      split
      · rename_i done
        rw [visitedAfter_of_end done]
        exact ends_pure ⟨Same.refl s, rfl, rfl, rfl⟩
      · exact ends_throw trivial
      · rename_i key obj reached
        apply ends_bind
        apply (bind_binds target obj s).mono _ fun _ _ failed => failed.elim
        intro r t post
        have bound := post.2
        have rest : t.objectsMap.visitedAfter (some key) =
            s.objectsMap.visitedAfter (some key) := by
          unfold visitedAfter
          rw [live_congr bound.lookup]
        apply (ih t (some key)).mono _ fun _ _ _ => trivial
        intro _ u more
        rw [rest] at more
        rw [visitedAfter_of_next reached]
        exact bound.trans more

/-- The loop over the map binds every object of the store once, in the order of the names. -/
theorem bindAfiObjects_binds (s : Agent) :
    Ends (bindAfiObjects target) s (fun _ t => Binds target s s.objects t)
      (fun _ _ => True) := by
  apply (bindFrom_binds target (s.objectsMap.size + 1) s none).mono _ fun _ _ _ => trivial
  intro _ t bound
  rw [visitedAfter_none] at bound
  exact bound

end
end AfiDevice

/-- `t` is `s` with a new object stored, and bound unless the pipeline is being set. -/
structure Agent.Handled (target : Target) (s : Agent) (obj : AfiObject) (pipelineStage : Bool)
    (t : Agent) : Prop extends Stored s obj t where
  p4Info : t.p4Info = s.p4Info
  bound : t.bound = if pipelineStage then s.bound else obj :: s.bound
  installed : t.installed =
    if pipelineStage then s.installed else (target.install t obj).toList ++ s.installed

namespace Afi
open Agent AfiDevice

section
variable (pb : Protobuf) (target : Target)

theorem handleAfiJsonObject_handled (res : AfiJsonResource) (pipelineStage : Bool) (s : Agent) :
    Ends (handleAfiJsonObject pb target (some res) pipelineStage) s
      (fun r t => (creation pb target res = .ok none ∧ r = false ∧ t = s) ∨
        ∃ value, creation pb target res = .ok (some value) ∧ r = true ∧
          Handled target s ⟨s.nextAddr, res, value.1, value.2⟩ pipelineStage t)
      (fun e t => t = s ∧ ∃ fault, creation pb target res = .error fault ∧ e = .decode fault) := by
  apply ends_bind
  apply ends_bind
  apply (create_ends pb target res s).mono _ fun _ _ failed => failed
  intro made t post
  rcases post with ⟨created, rfl, rfl⟩ | ⟨value, created, rfl, rfl⟩
  · exact ends_pure (ends_pure (Or.inl ⟨created, rfl, rfl⟩))
  · apply ends_bind
    apply ends_modify
    have stored := stored_insert s res value.1 value.2
    cases pipelineStage with
    | true =>
        exact ends_pure (ends_pure (Or.inr ⟨value, created, rfl, stored, rfl, rfl, rfl⟩))
    | false =>
        apply ends_bind
        apply (bind_binds target _ _).mono _ nofun
        intro r t post
        obtain ⟨rfl, binds⟩ := post
        refine ends_pure (ends_pure (Or.inr ⟨value, created, rfl, stored.trans binds.toSame,
          binds.p4Info, binds.bound, ?_⟩))
        rw [binds.installed, target.install_congr binds.toSame, List.filterMap_cons]
        cases target.install _ _ <;> rfl

variable {pb target} in
/-- The first of the objects can be created: it is handled, and the loop goes on. -/
theorem handleAfiJsonObjects_handled {res : AfiJsonResource} {value : (c : AfiClass) × c.Message}
    {rest : List (Option AfiJsonResource)} {pipelineStage : Bool} {s : Agent}
    {Q : Bool → Agent → Prop} {E : Fault → Agent → Prop}
    (made : creation pb target res = .ok (some value))
    (more : ∀ t, Handled target s ⟨s.nextAddr, res, value.1, value.2⟩ pipelineStage t →
      Ends (handleAfiJsonObjects pb target pipelineStage rest) t Q E) :
    Ends (handleAfiJsonObjects pb target pipelineStage (some res :: rest)) s Q E := by
  apply ends_bind
  apply (handleAfiJsonObject_handled pb target res pipelineStage s).mono
  · intro r t post
    rcases post with ⟨missing, _⟩ | ⟨value', made', rfl, handled⟩
    · rw [made] at missing
      simp at missing
    · rw [made, Except.ok.injEq, Option.some.injEq] at made'
      rw [← made'] at handled
      exact more t handled
  · rintro e t ⟨_, fault, failed, _⟩
    rw [made] at failed
    simp at failed

end
end Afi
end JP4Agent
