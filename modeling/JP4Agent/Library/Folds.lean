import Mathlib.Data.List.Basic
import Mathlib.Data.List.Pairwise

set_option autoImplicit false

namespace JP4Agent

section
variable {α β κ : Type}

/-- The order does not matter to a loop in which any two elements commute. -/
theorem foldlM_perm {f : β → α → Option β} {l l' : List α} (perm : l.Perm l')
    (commute : ∀ x ∈ l, ∀ y ∈ l, x ≠ y → ∀ z,
      ((f z x).bind fun z => f z y) = (f z y).bind fun z => f z x) (init : β) :
    l.foldlM f init = l'.foldlM f init := by
  rw [List.foldlM_eq_foldl, List.foldlM_eq_foldl]
  apply perm.foldl_eq'
  intro x first y second state
  by_cases same : x = y
  · rw [same]
  · cases state with
    | none => rfl
    | some z => exact (commute x first y second same z)

/-- A loop that looks each element up and stops at an unknown one. -/
theorem foldlM_lookup_perm {find : α → Option κ} {step : κ → α → β → β} {l l' : List α}
    (perm : l.Perm l')
    (commute : ∀ x ∈ l, ∀ y ∈ l, x ≠ y → ∀ k k', find x = some k → find y = some k' →
      ∀ z, step k' y (step k x z) = step k x (step k' y z)) (init : β) :
    l.foldlM (fun z x => (find x).map fun k => step k x z) init =
      l'.foldlM (fun z x => (find x).map fun k => step k x z) init := by
  apply foldlM_perm perm
  intro x first y second different z
  cases known : find x with
  | none => cases find y <;> rfl
  | some k =>
      cases known' : find y with
      | none => rfl
      | some k' => exact congrArg some (commute x first y second different k k' known known' z)

/-- Two elements have different keys if the list repeats none. -/
theorem ne_of_nodup_filterMap {key : α → Option κ} {l : List α} (nodup : (l.filterMap key).Nodup)
    {x y : α} (first : x ∈ l) (second : y ∈ l) (different : x ≠ y) {k k' : κ}
    (keyed : key x = some k) (keyed' : key y = some k') : k ≠ k' := by
  have pairwise : l.Pairwise fun a b => ∀ k, key a = some k → ∀ k', key b = some k' → k ≠ k' :=
    List.pairwise_filterMap.mp nodup
  have symmetric : Std.Symm fun a b => ∀ k, key a = some k → ∀ k', key b = some k' → k ≠ k' :=
    ⟨fun _ _ apart k keyed k' keyed' same => apart k' keyed' k keyed same.symm⟩
  exact pairwise.forall first second different k keyed k' keyed'

end
end JP4Agent
