import JP4Agent.Library.PtrMap

set_option autoImplicit false

namespace JP4Agent.PtrMap

section
variable {K V : Type} [DecidableEq K]

/-- The last value that is given for a key. -/
def lastOf (key : K) : List (K × V) → Option V
  | [] => none
  | e :: rest => (lastOf key rest).or (if e.1 = key then some e.2 else none)

theorem lastOf_eq_none {key : K} {entries : List (K × V)} :
    lastOf key entries = none ↔ key ∉ entries.map Prod.fst := by
  induction entries with
  | nil => simp [lastOf]
  | cons e rest ih =>
      rw [lastOf, Option.or_eq_none_iff, ih, List.map_cons, List.mem_cons, not_or, and_comm]
      by_cases same : e.1 = key
      · simp [same]
      · simp [same, Ne.symm same]

theorem lastOf_mem {key : K} {v : V} {entries : List (K × V)}
    (last : lastOf key entries = some v) : (key, v) ∈ entries := by
  induction entries with
  | nil => exact nomatch last
  | cons e rest ih =>
      rw [lastOf, Option.or_eq_some_iff] at last
      rcases last with later | ⟨_, here⟩
      · exact List.mem_cons_of_mem _ (ih later)
      · rw [Option.ite_none_right_eq_some, Option.some.injEq] at here
        obtain ⟨rfl, rfl⟩ := here
        exact List.mem_cons_self

/-- Nothing of what was there before is found exactly if it was all replaced. -/
theorem lastOf_or_iff {entries : List (K × V)} {before : K → Option V} :
    (∀ key, (lastOf key entries).or (before key) = lastOf key entries) ↔
      ∀ key, before key ≠ none → key ∈ entries.map Prod.fst := by
  constructor
  · intro same key found
    by_contra absent
    have unset := same key
    rw [lastOf_eq_none.mpr absent] at unset
    exact found unset
  · intro replaced key
    cases last : lastOf key entries with
    | some v => rfl
    | none =>
        by_contra found
        exact lastOf_eq_none.mp last (replaced key found)

theorem mem_of_lastOf_or {entries : List (K × V)} {before : K → Option V} {key : K}
    (replaced : ∀ key, before key ≠ none → key ∈ entries.map Prod.fst)
    (found : (lastOf key entries).or (before key) ≠ none) : key ∈ entries.map Prod.fst := by
  rw [lastOf_or_iff.mpr replaced] at found
  by_contra absent
  exact found (lastOf_eq_none.mpr absent)

end

section
variable {K V : Type} [Ord K] [Std.TransOrd K]

/-- The map after these bindings. -/
def assignAll (m : PtrMap K V) (entries : List (K × V)) : PtrMap K V :=
  entries.foldl (fun m e => m.assign e.1 e.2) m

theorem assignAll_append (m : PtrMap K V) (entries others : List (K × V)) :
    m.assignAll (entries ++ others) = (m.assignAll entries).assignAll others := List.foldl_append

variable [Std.LawfulEqOrd K] [DecidableEq K]

theorem getElem?_assignAll (key : K) (entries : List (K × V)) : ∀ m : PtrMap K V,
    (m.assignAll entries)[key]? = ((lastOf key entries).map some).or m[key]? := by
  induction entries with
  | nil => exact fun m => rfl
  | cons e rest ih =>
      intro m
      change ((m.assign e.1 e.2).assignAll rest)[key]? = _
      rw [ih, lastOf, assign, Std.ExtTreeMap.getElem?_insert]
      cases lastOf key rest with
      | some v => rfl
      | none =>
          simp only [Std.LawfulEqOrd.compare_eq_iff_eq]
          by_cases same : e.1 = key
          · simp [same]
          · simp [same]

theorem deref_assignAll (m : PtrMap K V) (key : K) (entries : List (K × V)) :
    (m.assignAll entries).deref key = (lastOf key entries).or (m.deref key) := by
  unfold deref
  rw [getElem?_assignAll]
  cases lastOf key entries <;> rfl

/-- Nothing changes exactly if each key has the last value given for it already. -/
theorem assignAll_eq_self {m : PtrMap K V} {entries : List (K × V)} :
    m.assignAll entries = m ↔ ∀ key v, lastOf key entries = some v → m.deref key = some v := by
  constructor
  · intro same key v last
    rw [← same, deref_assignAll, last]
    rfl
  · intro bound
    apply Std.ExtTreeMap.ext_getElem?
    intro key
    rw [getElem?_assignAll]
    cases last : lastOf key entries with
    | none => rfl
    | some v =>
        have there := (m.deref_eq_some key).mp (bound key v last)
        rw [there]
        rfl

end
end JP4Agent.PtrMap
