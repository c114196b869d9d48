import JP4Agent.AfiPipeline
import JP4Agent.Library.Runs
import JP4Agent.P4RuntimePipeline

set_option autoImplicit false

namespace JP4Agent
open Agent Afi AfiDevice PtrMap

namespace Agent

/-- How many times `bind` was called on the object with this address. -/
def bindCount (s : Agent) (addr : Nat) : Nat := (s.bound.map AfiObject.addr).count addr

/-- Every object of the store was bound exactly once. -/
def BoundOnce (s : Agent) : Prop := ∀ name obj, s.lookup name = some obj → s.bindCount obj.addr = 1

/-- Addresses were given out once: the objects of the store have different ones, and so
have the objects yet to be made. -/
structure Counted (s : Agent) : Prop where
  stored : ∀ name obj, s.lookup name = some obj → obj.addr < s.nextAddr
  bound : ∀ obj ∈ s.bound, obj.addr < s.nextAddr
  installed : ∀ installed ∈ s.installed, installed.object.addr < s.nextAddr
  apart : ∀ name name' obj obj', s.lookup name = some obj → s.lookup name' = some obj' →
    obj.addr = obj'.addr → name = name'

/-- The resources of a pipeline configuration do not touch the objects. -/
theorem Counted.withResources {s : Agent} (counted : Counted s)
    (config : P4.ForwardingPipelineConfig) : Counted (s.withResources config) :=
  ⟨counted.stored, counted.bound, counted.installed, counted.apart⟩

theorem counted_fresh : Counted {} := by
  have empty : ∀ name, ({} : Agent).lookup name = none := by
    intro name
    simp [Agent.lookup, deref]
  refine ⟨?_, ?_, ?_, ?_⟩
  · intro name obj found
    simp [empty] at found
  · exact fun obj member => (List.not_mem_nil member).elim
  · exact fun installed member => (List.not_mem_nil member).elim
  · intro name name' obj obj' found
    simp [empty] at found

/-- An address that was not given out has not been bound. -/
theorem Counted.bindCount_new {s : Agent} (counted : Counted s) {addr : Nat}
    (new : s.nextAddr ≤ addr) : s.bindCount addr = 0 := by
  apply List.count_eq_zero.mpr
  intro member
  obtain ⟨obj, bound, same⟩ := List.mem_map.mp member
  have old := counted.bound obj bound
  omega

/-- A new object keeps the addresses apart. -/
theorem Counted.stored_new {s t : Agent} {obj : AfiObject} (counted : Counted s)
    (stored : Stored s obj t) (bound : ∀ other ∈ t.bound, other = obj ∨ other ∈ s.bound)
    (installed : ∀ other ∈ t.installed, other.object = obj ∨ other ∈ s.installed) :
    Counted t := by
  have address := stored.addr
  have next := stored.nextAddr
  have old : ∀ name other, t.lookup name = some other → obj.name = name ∧ other = obj ∨
      obj.name ≠ name ∧ s.lookup name = some other := by
    intro name other found
    rw [stored.lookup] at found
    by_cases here : obj.name = name
    · rw [if_pos here, Option.some.injEq] at found
      exact Or.inl ⟨here, found.symm⟩
    · rw [if_neg here] at found
      exact Or.inr ⟨here, found⟩
  refine ⟨?_, ?_, ?_, ?_⟩
  · intro name other found
    rcases old name other found with ⟨_, rfl⟩ | ⟨_, before⟩
    · omega
    · have earlier := counted.stored name other before
      omega
  · intro other member
    rcases bound other member with rfl | before
    · omega
    · have earlier := counted.bound other before
      omega
  · intro other member
    rcases installed other member with new | before
    · rw [new]
      omega
    · have earlier := counted.installed other before
      omega
  · intro name name' other other' found found' same
    rcases old name other found with ⟨here, rfl⟩ | ⟨_, before⟩
    · rcases old name' other' found' with ⟨here', rfl⟩ | ⟨_, before'⟩
      · exact here.symm.trans here'
      · have earlier := counted.stored name' other' before'
        omega
    · rcases old name' other' found' with ⟨_, rfl⟩ | ⟨_, before'⟩
      · have earlier := counted.stored name other before
        omega
      · exact counted.apart name name' other other' before before' same

/-- What operations outside of a pipeline configuration keep. -/
structure Bookkept (s t : Agent) : Prop where
  counted : Counted s → Counted t
  once : Counted s → BoundOnce s → BoundOnce t

theorem Bookkept.trans {s t u : Agent} (first : Bookkept s t) (second : Bookkept t u) :
    Bookkept s u where
  counted counted := second.counted (first.counted counted)
  once counted once := second.once (first.counted counted) (first.once counted once)

theorem Unchanged.bookkept {s t : Agent} (unchanged : Unchanged s t) : Bookkept s t where
  counted counted := by
    refine ⟨?_, ?_, ?_, ?_⟩
    · intro name obj found
      rw [unchanged.lookup] at found
      rw [unchanged.nextAddr]
      exact counted.stored name obj found
    · intro obj member
      rw [unchanged.bound] at member
      rw [unchanged.nextAddr]
      exact counted.bound obj member
    · intro installed member
      rw [unchanged.installed] at member
      rw [unchanged.nextAddr]
      exact counted.installed installed member
    · intro name name' obj obj' found found'
      rw [unchanged.lookup] at found found'
      exact counted.apart name name' obj obj' found found'
  once _ once := by
    intro name obj found
    rw [unchanged.lookup] at found
    unfold bindCount
    rw [unchanged.bound]
    exact once name obj found

/-- An object that is stored and bound at once is bound once. -/
theorem Handled.bookkept {target : Target} {s t : Agent} {obj : AfiObject}
    (handled : Handled target s obj false t) : Bookkept s t where
  counted counted := by
    apply counted.stored_new handled.toStored
    · intro other member
      rw [handled.bound] at member
      exact List.mem_cons.mp member
    · intro other member
      rw [handled.installed, if_neg Bool.false_ne_true, List.mem_append,
        Option.mem_toList] at member
      exact member.imp_left Target.install_object
  once counted once := by
    intro name other found
    have bound : t.bindCount other.addr =
        s.bindCount other.addr + if obj.addr = other.addr then 1 else 0 := by
      unfold bindCount
      rw [handled.bound]
      simp [List.count_cons]
    rw [handled.lookup] at found
    by_cases here : obj.name = name
    · rw [if_pos here, Option.some.injEq] at found
      rw [bound, ← found, counted.bindCount_new (Nat.le_of_eq handled.addr.symm), if_pos rfl]
    · rw [if_neg here] at found
      have earlier := counted.stored name other found
      have address := handled.addr
      rw [bound, once name other found, if_neg (by omega)]

end Agent

section
variable (pb : Protobuf) (target : Target)

namespace Afi

theorem handleAfiJsonObject_bookkept (res : AfiJsonResource) (s : Agent) :
    Ends (handleAfiJsonObject pb target (some res) false) s (fun _ t => Bookkept s t)
      (fun _ _ => True) := by
  apply (handleAfiJsonObject_handled pb target res false s).mono _ fun _ _ _ => trivial
  intro r t post
  rcases post with ⟨_, _, rfl⟩ | ⟨_, _, _, handled⟩
  · exact (Unchanged.refl t).bookkept
  · exact handled.bookkept

theorem handleAfiJsonObjects_bookkept (eObjs : List AfiJsonResource) : ∀ s : Agent,
    Ends (handleAfiJsonObjects pb target false (eObjs.map some)) s (fun _ t => Bookkept s t)
      (fun _ _ => True) := by
  induction eObjs with
  | nil => exact fun s => ends_pure (Unchanged.refl s).bookkept
  | cons res rest ih =>
      intro s
      apply ends_bind
      apply (handleAfiJsonObject_bookkept pb target res s).mono _ fun _ _ _ => trivial
      intro r t first
      cases r with
      | false => exact ends_pure first
      | true => exact (ih t).mono (fun _ _ second => first.trans second) fun _ _ _ => trivial

theorem afiAddObjEntry_bookkept (tId aId : UInt32) (mfs : List AfiTEntryMatchField)
    (aes : List AfiAEntry) (s : Agent) :
    Ends (afiAddObjEntry pb target tId aId mfs aes) s (fun _ t => Bookkept s t)
      (fun _ _ => True) := by
  apply afiAddObjEntry_ends
  · exact fun t _ unchanged _ => unchanged.bookkept
  · intro eObjs t _ looked
    have first := looked.toUnchanged.bookkept
    exact (handleAfiJsonObjects_bookkept pb target eObjs t).mono
      (fun _ _ second => first.trans second) fun _ _ _ => trivial

end Afi

namespace P4RuntimeServiceImpl
open P4

variable (mem : Memory)

theorem convertMatch_bookkept (tableId : UInt32) (fieldMatches : List FieldMatch) :
    ∀ (i : Nat) (s : Agent), Ends (convertMatch pb target mem tableId i fieldMatches) s
      (fun _ t => Bookkept s t) (fun _ _ => True) := by
  induction fieldMatches with
  | nil => exact fun i s => ends_pure (Unchanged.refl s).bookkept
  | cons mf rest ih =>
      intro i s
      have others : ∀ f : List AfiCall × List AfiTEntryMatchField →
          List AfiCall × List AfiTEntryMatchField,
          Ends (do let r ← convertMatch pb target mem tableId (i + 1) rest; pure (f r)) s
            (fun _ t => Bookkept s t) (fun _ _ => True) :=
        fun f => ends_bind ((ih (i + 1) s).mono (fun _ _ kept => ends_pure kept)
          fun _ _ _ => trivial)
      rcases mf with ⟨fieldId, type⟩
      rw [convertMatch]
      cases type with
      | lpm value prefixLen =>
          dsimp only
          by_cases special : tableId = addEntryTable
          · rw [if_pos special]
            apply ends_bind
            apply (handleAfiJsonObject_bookkept pb target _ s).mono _ fun _ _ _ => trivial
            intro returned t first
            apply ends_bind
            exact (ih (i + 1) t).mono (fun _ _ second => ends_pure (first.trans second))
              fun _ _ _ => trivial
          · rw [if_neg special]
            exact others _
      | exact value => exact others _
      | ternary value mask => exact others _
      | _ => exact ih (i + 1) s

theorem tableInsert_bookkept (entry : TableEntry) (s : Agent) :
    Ends (tableInsert pb target mem entry) s (fun _ t => Bookkept s t) (fun _ _ => True) := by
  unfold tableInsert
  by_cases isDefault : entry.isDefaultAction = true
  · rw [if_pos isDefault]
    exact ends_pure (Unchanged.refl s).bookkept
  · rw [if_neg isDefault]
    apply ends_bind
    apply (convertMatch_bookkept pb target mem entry.tableId entry.fieldMatches 0 s).mono _
      fun _ _ _ => trivial
    intro r t first
    apply ends_bind
    exact (afiAddObjEntry_bookkept pb target _ _ _ _ t).mono
      (fun _ _ second => ends_pure (first.trans second)) fun _ _ _ => trivial

end P4RuntimeServiceImpl
namespace Agent

theorem storeObject_handled (s : Agent) (res : AfiJsonResource)
    (value : (c : AfiClass) × c.Message) :
    Handled target s ⟨s.nextAddr, res, value.1, value.2⟩ true (s.storeObject res value) where
  table _ := rfl
  action _ := rfl
  addr := rfl
  lookup name := lookup_storeObject s res value name
  nextAddr := rfl
  p4Info := rfl
  bound := rfl
  installed := rfl

/-- Storing the objects of a configuration binds none of them. -/
theorem storeAll_counted (cfg : List AfiJsonResource) : ∀ s : Agent, Counted s →
    Counted (s.storeAll pb target cfg) ∧ (s.storeAll pb target cfg).bound = s.bound ∧
      (s.storeAll pb target cfg).installed = s.installed := by
  induction cfg with
  | nil => exact fun s counted => ⟨counted, rfl, rfl⟩
  | cons res rest ih =>
      intro s counted
      have first : Counted (s.storeCreated pb target res) ∧
          (s.storeCreated pb target res).bound = s.bound ∧
            (s.storeCreated pb target res).installed = s.installed := by
        unfold storeCreated
        split
        · rename_i value _
          have handled := storeObject_handled target s res value
          exact ⟨counted.stored_new handled.toStored (fun _ member => Or.inr member)
            fun _ member => Or.inr member, rfl, rfl⟩
        · exact ⟨counted, rfl, rfl⟩
      obtain ⟨counted', bound', installed'⟩ := ih _ first.1
      unfold storeAll at counted' bound' installed' ⊢
      rw [List.foldl_cons]
      exact ⟨counted', bound'.trans first.2.1, installed'.trans first.2.2⟩

variable {pb target}

/-- The names of the configuration hold new objects, the other names what they held. -/
theorem lookup_storeAll {cfg : List AfiJsonResource} (name : Str) : ∀ s : Agent,
    (∀ res ∈ cfg, Creatable pb target res) →
    (name ∉ cfg.map AfiJsonResource.name →
      (s.storeAll pb target cfg).lookup name = s.lookup name) ∧
    (name ∈ cfg.map AfiJsonResource.name →
      ∃ obj, (s.storeAll pb target cfg).lookup name = some obj ∧ s.nextAddr ≤ obj.addr) := by
  induction cfg with
  | nil => exact fun s _ => ⟨fun _ => rfl, fun member => (List.not_mem_nil member).elim⟩
  | cons res rest ih =>
      intro s creatable
      obtain ⟨value, made⟩ := creatable res List.mem_cons_self
      obtain ⟨outside, inside⟩ := ih (s.storeObject res value) fun other member =>
        creatable other (List.mem_cons_of_mem _ member)
      have first : s.storeAll pb target (res :: rest) =
          (s.storeObject res value).storeAll pb target rest := by
        unfold storeAll
        rw [List.foldl_cons, storeCreated, made]
      rw [first, List.map_cons, List.mem_cons]
      constructor
      · intro absent
        rw [not_or] at absent
        rw [outside absent.2, lookup_storeObject, if_neg (Ne.symm absent.1)]
      · intro member
        by_cases later : name ∈ rest.map AfiJsonResource.name
        · obtain ⟨obj, found, lower⟩ := inside later
          exact ⟨obj, found, Nat.le_trans (Nat.le_succ _) lower⟩
        · have here := (member.resolve_right later).symm
          refine ⟨⟨s.nextAddr, res, value.1, value.2⟩, ?_, Nat.le_refl _⟩
          rw [outside later, lookup_storeObject, if_pos here]

omit pb target in
/-- The objects of the store have different addresses. -/
theorem Counted.objects_nodup {s : Agent} (counted : Counted s) :
    (s.objects.map AfiObject.addr).Nodup := by
  unfold objects
  rw [List.map_map]
  apply List.pairwise_map.mpr
  apply List.Pairwise.imp_of_mem _ Std.ExtTreeMap.distinct_keys_toList
  intro entry entry' member member' differ same
  apply differ
  rw [counted.apart _ _ _ _ (mem_live_toList.mp member) (mem_live_toList.mp member') same]
  exact Std.ReflOrd.compare_self

end Agent
end
end JP4Agent
