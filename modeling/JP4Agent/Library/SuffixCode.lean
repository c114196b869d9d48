import Mathlib.Data.List.Nodup

set_option autoImplicit false

/- Names made by appending one of a few endings to an arbitrary stem. -/
namespace JP4Agent

section
variable {α : Type} {codes : List (List α)}

/-- No ending ends with another one. -/
def SuffixFree (codes : List (List α)) : Prop := ∀ a ∈ codes, ∀ b ∈ codes, a <:+ b → a = b

instance [DecidableEq α] (codes : List (List α)) : Decidable (SuffixFree codes) :=
  inferInstanceAs (Decidable (∀ a ∈ codes, ∀ b ∈ codes, a <:+ b → a = b))

/-- The name determines its stem and its ending. -/
theorem SuffixFree.append_inj (free : SuffixFree codes) {s t a b : List α} (ha : a ∈ codes)
    (hb : b ∈ codes) (same : s ++ a = t ++ b) : s = t ∧ a = b := by
  have endings : a = b := by
    have ends : a <:+ t ++ b := ⟨s, same⟩
    rcases List.suffix_or_suffix_of_suffix ends (List.suffix_append t b) with shorter | shorter
    · exact free a ha b hb shorter
    · exact (free b hb a ha shorter).symm
  refine ⟨?_, endings⟩
  rw [endings] at same
  exact List.append_cancel_right same

/-- One stem with different endings gives different names. -/
theorem nodup_map_append (codes : List (List α)) (nodup : codes.Nodup) (s : List α) :
    (codes.map (s ++ ·)).Nodup :=
    List.Nodup.map (List.append_right_injective s) nodup

/-- Different stems give disjoint sets of names. -/
theorem SuffixFree.disjoint_map_append (free : SuffixFree codes) {s t : List α} (apart : s ≠ t) :
    List.Disjoint (codes.map (s ++ ·)) (codes.map (t ++ ·)) := by
  intro name first second
  obtain ⟨a, ha, rfl⟩ := List.mem_map.mp first
  obtain ⟨b, hb, same⟩ := List.mem_map.mp second
  exact apart (free.append_inj hb ha same).1.symm

end
end JP4Agent
