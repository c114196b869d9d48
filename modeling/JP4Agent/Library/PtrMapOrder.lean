import JP4Agent.Library.PtrMap

set_option autoImplicit false

namespace JP4Agent.PtrMap

section
variable {K V : Type} [Ord K] [Std.TransOrd K]

/-- An iterator that has passed `last` has not passed this entry. -/
def after {α : Type} (last : Option K) (entry : K × α) : Bool :=
  last.all fun key => (compare key entry.1).isLT

/-- In a list with increasing keys the first entry after `last` is followed by the entries
after itself. -/
theorem filter_after_of_find? {α : Type} {last : Option K} {entry : K × α} {l : List (K × α)}
    (sorted : l.Pairwise fun a b => compare a.1 b.1 = .lt)
    (found : l.find? (after last) = some entry) :
    l.filter (after last) = entry :: l.filter (after (some entry.1)) := by
  induction l with
  | nil => simp at found
  | cons head rest ih =>
      obtain ⟨later, sorted⟩ := List.pairwise_cons.mp sorted
      by_cases here : after last head = true
      · rw [List.find?_cons_of_pos here] at found
        obtain rfl := Option.some.inj found
        have follows : rest.filter (after last) = rest := by
          apply List.filter_eq_self.mpr
          intro e member
          cases last with
          | none => rfl
          | some l =>
              exact Ordering.isLT_iff_eq_lt.mpr (Std.TransCmp.lt_trans
                (Ordering.isLT_iff_eq_lt.mp here) (later e member))
        have follows' : rest.filter (after (some head.1)) = rest := by
          apply List.filter_eq_self.mpr
          intro e member
          exact Ordering.isLT_iff_eq_lt.mpr (later e member)
        have itself : ¬ after (some head.1) head = true := by
          simp [after]
        rw [List.filter_cons_of_pos here, follows, List.filter_cons_of_neg itself, follows']
      · rw [List.find?_cons_of_neg here] at found
        have before := later entry (List.mem_of_find?_eq_some found)
        have passed : ¬ after (some entry.1) head = true := by
          simp only [after, Option.all_some, Ordering.isLT_iff_eq_lt]
          rw [@Std.OrientedCmp.eq_swap _ compare, before]
          decide
        rw [List.filter_cons_of_neg here, ih sorted found, List.filter_cons_of_neg passed]

/-- The map without its null pointers. -/
def live (m : PtrMap K V) : Std.ExtTreeMap K V := m.filterMap fun _ v => v

/-- What the iteration visits once it has passed `last`, null pointers left out. -/
def visitedAfter (m : PtrMap K V) (last : Option K) : List (K × V) :=
  m.live.toList.filter (after last)

theorem visitedAfter_none (m : PtrMap K V) : m.visitedAfter none = m.live.toList :=
  List.filter_eq_self.mpr fun _ _ => rfl

theorem visitedAfter_eq (m : PtrMap K V) (last : Option K) :
    m.visitedAfter last =
      (m.toList.filter (after last)).filterMap fun e => e.2.map fun v => (e.1, v) := by
  rw [visitedAfter, live, Std.ExtTreeMap.toList_filterMap]
  induction m.toList with
  | nil => rfl
  | cons e rest ih =>
      rcases e with ⟨key, v⟩
      by_cases later : (last.all fun l => (compare l key).isLT) = true
      · cases v <;> simp [after, later, ih]
      · cases v <;> simp [after, later, ih]

theorem visitedAfter_of_end {m : PtrMap K V} {last : Option K} (done : m.next last = none) :
    m.visitedAfter last = [] := by
  have passed : m.toList.filter (after last) = [] :=
    List.filter_eq_nil_iff.mpr (List.find?_eq_none.mp done)
  rw [visitedAfter_eq, passed, List.filterMap_nil]

theorem visitedAfter_of_next {m : PtrMap K V} {last : Option K} {key : K} {v : V}
    (next : m.next last = some (key, some v)) :
    m.visitedAfter last = (key, v) :: m.visitedAfter (some key) := by
  rw [visitedAfter_eq, filter_after_of_find? Std.ExtTreeMap.ordered_keys_toList next,
    visitedAfter_eq]
  rfl

theorem getElem?_live (m : PtrMap K V) (key : K) : m.live[key]? = m.deref key := by
  rw [live, Std.ExtTreeMap.getElem?_filterMap, deref]
  cases m[key]? <;> rfl

/-- Of two entries the one with the smaller key is visited first. -/
theorem toList_split {m : Std.ExtTreeMap K V} {entry other : K × V} (member : entry ∈ m.toList)
    (member' : other ∈ m.toList) (less : compare entry.1 other.1 = .lt) :
    ∃ before between after, m.toList = before ++ entry :: (between ++ other :: after) := by
  have sorted := m.ordered_keys_toList
  obtain ⟨before, rest, split⟩ := List.append_of_mem member
  rw [split] at member' sorted ⊢
  have notBefore : ¬ compare other.1 entry.1 = .lt := by
    intro greater
    have itself := Std.TransCmp.lt_trans less greater
    rw [Std.ReflOrd.compare_self] at itself
    exact nomatch itself
  rcases List.mem_append.mp member' with early | late
  · have greater := (List.pairwise_append.mp sorted).2.2 other early entry List.mem_cons_self
    exact absurd greater notBefore
  · rcases List.mem_cons.mp late with rfl | later
    · exact absurd less notBefore
    · obtain ⟨between, after, split'⟩ := List.append_of_mem later
      exact ⟨before, between, after, by rw [split']⟩

/-- What is made of the entries one by one is made in the order of their keys. -/
theorem filterMap_toList_order {W : Type} {m : Std.ExtTreeMap K V} {f : K × V → Option W}
    {before between after : List W} {w w' : W}
    (made : m.toList.filterMap f = before ++ w :: (between ++ w' :: after)) :
    ∃ entry ∈ m.toList, ∃ other ∈ m.toList, f entry = some w ∧ f other = some w' ∧
      compare entry.1 other.1 = .lt := by
  let R := fun a b => ∃ entry ∈ m.toList, ∃ other ∈ m.toList, f entry = some a ∧
    f other = some b ∧ compare entry.1 other.1 = .lt
  have ordered : (m.toList.filterMap f).Pairwise R := by
    apply List.pairwise_filterMap.mpr
    apply m.ordered_keys_toList.imp_of_mem
    intro entry other member member' less a madeA b madeB
    exact ⟨entry, member, other, member', madeA, madeB, less⟩
  rw [made] at ordered
  have here := (List.pairwise_append.mp ordered).2.1
  exact List.rel_of_pairwise_cons here (List.mem_append_right _ List.mem_cons_self)

variable [Std.LawfulEqOrd K]

/-- The map without its null pointers is what its entries dereference to. -/
theorem live_congr {m m' : PtrMap K V} (same : ∀ key, m'.deref key = m.deref key) :
    m'.live = m.live := by
  apply Std.ExtTreeMap.ext_getElem?
  intro key
  rw [getElem?_live, getElem?_live, same]

theorem mem_live_toList {m : PtrMap K V} {key : K} {v : V} :
    (key, v) ∈ m.live.toList ↔ m.deref key = some v := by
  rw [Std.ExtTreeMap.mem_toList_iff_getElem?_eq_some, getElem?_live]

/-- Bindings of different keys can be made in any order. -/
theorem assign_comm (m : PtrMap K V) {key key' : K} (apart : key ≠ key') (v v' : V) :
    (m.assign key v).assign key' v' = (m.assign key' v').assign key v := by
  apply Std.ExtTreeMap.ext_getElem?
  intro other
  unfold assign
  simp only [Std.ExtTreeMap.getElem?_insert]
  by_cases first : compare key other = .eq
  · have second : ¬ compare key' other = .eq := by
      intro same
      rw [Std.LawfulEqOrd.compare_eq_iff_eq] at first same
      exact apart (first.trans same.symm)
    rw [if_neg second, if_pos first, if_pos first]
  · rw [if_neg first, if_neg first]

variable {W : Type} (f : V → W)

/-- The map with other objects behind its pointers. -/
def mapValues (m : PtrMap K V) : PtrMap K W := m.map fun _ pointer => pointer.map f

theorem deref_mapValues (m : PtrMap K V) (key : K) :
    (m.mapValues f).deref key = (m.deref key).map f := by
  unfold deref mapValues
  rw [Std.ExtTreeMap.getElem?_map]
  cases m[key]? with
  | none => rfl
  | some pointer => rfl

theorem mapValues_assign (m : PtrMap K V) (key : K) (v : V) :
    (m.assign key v).mapValues f = (m.mapValues f).assign key (f v) := by
  apply Std.ExtTreeMap.ext_getElem?
  intro other
  unfold mapValues assign
  rw [Std.ExtTreeMap.getElem?_map, Std.ExtTreeMap.getElem?_insert,
    Std.ExtTreeMap.getElem?_insert, Std.ExtTreeMap.getElem?_map]
  split <;> rfl

theorem mapValues_touch (m : PtrMap K V) (key : K) :
    (m.touch key).mapValues f = (m.mapValues f).touch key := by
  apply Std.ExtTreeMap.ext_getElem?
  intro other
  unfold mapValues touch
  rw [Std.ExtTreeMap.getElem?_map, Std.ExtTreeMap.getElem?_insertIfNew,
    Std.ExtTreeMap.getElem?_insertIfNew, Std.ExtTreeMap.getElem?_map]
  simp only [Std.ExtTreeMap.mem_map]
  split <;> rfl

omit [Std.LawfulEqOrd K] in
theorem next_mapValues (m : PtrMap K V) (last : Option K) :
    (m.mapValues f).next last = (m.next last).map fun entry => (entry.1, entry.2.map f) := by
  unfold next mapValues
  rw [Std.ExtTreeMap.toList_map, List.find?_map]
  rfl

omit [Std.LawfulEqOrd K] in
theorem size_mapValues (m : PtrMap K V) : (m.mapValues f).size = m.size :=
  Std.ExtTreeMap.size_map

end
end JP4Agent.PtrMap
