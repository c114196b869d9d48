import Mathlib

set_option autoImplicit false

/- A `std::map` from keys to shared pointers. A key can be bound to a null pointer,
which is what `operator[]` leaves behind for a key that was not there. -/
namespace JP4Agent

/-- `none` as a value is the null pointer. -/
abbrev PtrMap (K V : Type) [Ord K] := Std.ExtTreeMap K (Option V)

namespace PtrMap
variable {K V : Type} [Ord K] [Std.TransOrd K]

/-- The pointer that `map[key]` evaluates to. -/
def deref (m : PtrMap K V) (key : K) : Option V := m[key]?.join

/-- The map after `map[key]` was evaluated. -/
def touch (m : PtrMap K V) (key : K) : PtrMap K V := m.insertIfNew key none

/-- `map[key] = pointer` with a pointer that is not null. -/
def assign (m : PtrMap K V) (key : K) (v : V) : PtrMap K V := m.insert key (some v)

/-- The entry an iterator moves to from the one with key `last`, or the first one. -/
def next (m : PtrMap K V) (last : Option K) : Option (K × Option V) :=
  m.toList.find? fun entry => last.all fun key => (compare key entry.1).isLT

/-- No key is bound to a null pointer. -/
def NoNulls (m : PtrMap K V) : Prop := ∀ key : K, m[key]? ≠ some none

theorem noNulls_empty : NoNulls (∅ : PtrMap K V) := by
  intro key null
  rw [Std.ExtTreeMap.getElem?_empty] at null
  cases null

section
variable (m : PtrMap K V) (key other : K)

theorem deref_eq_some {v : V} : m.deref key = some v ↔ m[key]? = some (some v) :=
  Option.join_eq_some_iff

theorem noNulls_assign {m : PtrMap K V} (noNulls : NoNulls m) (key : K) (v : V) :
    NoNulls (m.assign key v) := by
  intro other
  rw [assign, Std.ExtTreeMap.getElem?_insert]
  split
  · exact fun null => nomatch null
  · exact noNulls other

variable [Std.LawfulEqOrd K]

@[simp] theorem deref_touch : (m.touch key).deref other = m.deref other := by
  rw [deref, deref, touch, Std.ExtTreeMap.getElem?_insertIfNew]
  split
  · rename_i fresh
    have absent : m[other]? = none := by
      rw [← Std.LawfulEqOrd.compare_eq_iff_eq.mp fresh.1]
      exact Std.ExtTreeMap.getElem?_eq_none fresh.2
    rw [absent]
    rfl
  · rfl

theorem deref_assign [DecidableEq K] (v : V) :
    (m.assign key v).deref other = if key = other then some v else m.deref other := by
  rw [deref, deref, assign, Std.ExtTreeMap.getElem?_insert]
  simp only [Std.LawfulEqOrd.compare_eq_iff_eq]
  split <;> rfl

/-- Evaluating `map[key]` for a bound key changes nothing. -/
theorem touch_of_mem {v : Option V} (bound : m[key]? = some v) : m.touch key = m := by
  apply Std.ExtTreeMap.ext_getElem?
  intro other
  rw [touch, Std.ExtTreeMap.getElem?_insertIfNew, if_neg]
  rintro ⟨_, absent⟩
  rw [Std.ExtTreeMap.getElem?_eq_none absent] at bound
  cases bound

theorem next_mem {m : PtrMap K V} {last : Option K} {entry : K × Option V}
    (next : m.next last = some entry) : m[entry.1]? = some entry.2 :=
  Std.ExtTreeMap.mem_toList_iff_getElem?_eq_some.mp (List.mem_of_find?_eq_some next)

/-- The keys after `last` that are bound to an object: what an iterator can still visit
before it ends or reaches a null pointer. -/
def boundAfter [DecidableEq K] (m : PtrMap K V) (last : Option K) : Finset K :=
  m.keys.toFinset.filter fun key =>
    (m.deref key).isSome ∧ last.all (fun l => (compare l key).isLT) = true

theorem mem_boundAfter [DecidableEq K] {m : PtrMap K V} {last : Option K} {key : K} :
    key ∈ m.boundAfter last ↔
      (m.deref key).isSome ∧ last.all (fun l => (compare l key).isLT) = true := by
  rw [boundAfter, Finset.mem_filter, List.mem_toFinset, Std.ExtTreeMap.mem_keys]
  refine ⟨fun member => member.2, fun bound => ⟨?_, bound⟩⟩
  obtain ⟨v, found⟩ := Option.isSome_iff_exists.mp bound.1
  exact Std.ExtTreeMap.mem_iff_isSome_getElem?.mpr
    (Option.isSome_iff_exists.mpr ⟨_, m.deref_eq_some key |>.mp found⟩)

omit [Std.LawfulEqOrd K] in
theorem boundAfter_card_le [DecidableEq K] (m : PtrMap K V) (last : Option K) :
    (m.boundAfter last).card ≤ m.size := by
  refine (Finset.card_filter_le _ _).trans ((List.toFinset_card_le _).trans ?_)
  exact Nat.le_of_eq Std.ExtTreeMap.length_keys

/-- An iterator that moves to an object has one less before it. -/
theorem boundAfter_next [DecidableEq K] {m : PtrMap K V} {last : Option K} {key : K} {v : V}
    (next : m.next last = some (key, some v)) :
    (m.boundAfter (some key)).card < (m.boundAfter last).card := by
  have later : last.all (fun l => (compare l key).isLT) = true := by
    have found := List.find?_some next
    exact found
  apply Finset.card_lt_card
  rw [Finset.ssubset_iff_of_subset]
  · refine ⟨key, mem_boundAfter.mpr ⟨?_, later⟩, ?_⟩
    · rw [(m.deref_eq_some key).mpr (next_mem next)]
      rfl
    · intro wrong
      have self := (mem_boundAfter.mp wrong).2
      rw [Option.all_some, Std.ReflOrd.compare_self] at self
      cases self
  · intro other member
    have bound := mem_boundAfter.mp member
    refine mem_boundAfter.mpr ⟨bound.1, ?_⟩
    cases last with
    | none => rfl
    | some l =>
      exact Ordering.isLT_iff_eq_lt.mpr (Std.TransCmp.lt_trans
        (Ordering.isLT_iff_eq_lt.mp later) (Ordering.isLT_iff_eq_lt.mp bound.2))

end
end PtrMap
end JP4Agent
