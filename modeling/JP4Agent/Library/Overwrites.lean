import Mathlib.Logic.Function.Basic
import Mathlib.Data.List.Basic
import Mathlib.Data.List.Forall2

set_option autoImplicit false

namespace JP4Agent

section
variable {α β : Type} [DecidableEq α]

def overwritten (f : α → Option β) : List (α × β) → α → Option β
  | [] => f
  | w :: rest => overwritten (Function.update f w.1 (some w.2)) rest

theorem overwritten_of_not_mem (writes : List (α × β)) : ∀ {f : α → Option β} {a : α},
    a ∉ writes.map Prod.fst → overwritten f writes a = f a := by
  induction writes with
  | nil => exact fun _ => rfl
  | cons w rest ih =>
      intro f a absent
      rw [List.map_cons, List.mem_cons, not_or] at absent
      rw [overwritten, ih absent.2, Function.update_of_ne absent.1]

/-- A key that is written holds one of the values written to it. -/
theorem overwritten_of_mem (writes : List (α × β)) : ∀ {f : α → Option β} {a : α},
    a ∈ writes.map Prod.fst → ∃ b, (a, b) ∈ writes ∧ overwritten f writes a = some b := by
  induction writes with
  | nil => exact fun member => (List.not_mem_nil member).elim
  | cons w rest ih =>
      intro f a member
      rw [overwritten]
      by_cases later : a ∈ rest.map Prod.fst
      · obtain ⟨b, listed, held⟩ := ih later
        exact ⟨b, List.mem_cons_of_mem _ listed, held⟩
      · rw [List.map_cons, List.mem_cons] at member
        have here := member.resolve_right later
        refine ⟨w.2, ?_, ?_⟩
        · rw [here]
          exact List.mem_cons_self
        · rw [overwritten_of_not_mem rest later, here, Function.update_self]

theorem overwritten_append (writes later : List (α × β)) : ∀ f : α → Option β,
    overwritten f (writes ++ later) = overwritten (overwritten f writes) later := by
  induction writes with
  | nil => exact fun _ => rfl
  | cons w rest ih => exact fun f => ih (Function.update f w.1 (some w.2))

/-- The last write to a key is the one that is found. -/
theorem overwritten_last (f : α → Option β) (earlier : List (α × β)) {later : List (α × β)}
    {a : α} (b : β) (last : a ∉ later.map Prod.fst) :
    overwritten f (earlier ++ (a, b) :: later) a = some b := by
  rw [overwritten_append, overwritten, overwritten_of_not_mem later last, Function.update_self]

/-- What is found was there before, or is the last write to the key. -/
theorem overwritten_found (writes : List (α × β)) : ∀ {f : α → Option β} {a : α} {b : β},
    overwritten f writes a = some b → a ∉ writes.map Prod.fst ∧ f a = some b ∨
      ∃ earlier later, writes = earlier ++ (a, b) :: later ∧ a ∉ later.map Prod.fst := by
  induction writes with
  | nil => exact fun found => Or.inl ⟨List.not_mem_nil, found⟩
  | cons w rest ih =>
      intro f a b found
      rw [overwritten] at found
      rcases ih found with ⟨absent, here⟩ | ⟨earlier, later, rfl, last⟩
      · by_cases same : a = w.1
        · rw [same, Function.update_self, Option.some.injEq] at here
          refine Or.inr ⟨[], rest, ?_, absent⟩
          rw [List.nil_append, same, ← here]
        · rw [Function.update_of_ne same] at here
          refine Or.inl ⟨?_, here⟩
          rw [List.map_cons, List.mem_cons, not_or]
          exact ⟨same, absent⟩
      · exact Or.inr ⟨w :: earlier, later, rfl, last⟩

/-- The source of the write that is found, if a source writes one entry at most. -/
theorem overwritten_filterMap_found {γ : Type} {source : γ → Option (α × β)} {sources : List γ}
    {a : α} {b : β} (found : overwritten (fun _ => none) (sources.filterMap source) a = some b) :
    ∃ pre p post, sources = pre ++ p :: post ∧ source p = some (a, b) ∧
      ∀ q ∈ post, ∀ w, source q = some w → w.1 ≠ a := by
  rcases overwritten_found _ found with ⟨_, wrong⟩ | ⟨earlier, later, listed, last⟩
  · cases wrong
  · obtain ⟨pre, rest, rfl, _, behind⟩ := List.filterMap_eq_append_iff.mp listed
    obtain ⟨skipped, p, post, rfl, _, wrote, behind⟩ := List.filterMap_eq_cons_iff.mp behind
    refine ⟨pre ++ skipped, p, post, (List.append_assoc ..).symm, wrote, ?_⟩
    intro q member w wrote' same
    apply last
    rw [← behind, ← same]
    exact List.mem_map_of_mem (List.mem_filterMap.mpr ⟨q, member, wrote'⟩)

theorem overwritten_filterMap_last {γ : Type} (f : α → Option β) {source : γ → Option (α × β)}
    (pre : List γ) {p : γ} {post : List γ} {a : α} {b : β} (wrote : source p = some (a, b))
    (last : ∀ q ∈ post, ∀ w, source q = some w → w.1 ≠ a) :
    overwritten f ((pre ++ p :: post).filterMap source) a = some b := by
  rw [List.filterMap_append, List.filterMap_cons, wrote]
  apply overwritten_last
  intro member
  obtain ⟨w, listed, same⟩ := List.mem_map.mp member
  obtain ⟨q, member, wrote⟩ := List.mem_filterMap.mp listed
  exact last q member w wrote same

/-- A key that no source writes. -/
theorem overwritten_filterMap_absent {γ : Type} (f : α → Option β) {source : γ → Option (α × β)}
    {sources : List γ} {a : α} (absent : ∀ q ∈ sources, ∀ w, source q = some w → w.1 ≠ a) :
    overwritten f (sources.filterMap source) a = f a := by
  apply overwritten_of_not_mem
  intro member
  obtain ⟨w, listed, same⟩ := List.mem_map.mp member
  obtain ⟨q, member, wrote⟩ := List.mem_filterMap.mp listed
  exact absent q member w wrote same

/-- Lists that agree element by element agree around an element. -/
theorem forall₂_around {γ δ : Type} {R : γ → δ → Prop} (pre : List γ) {p : γ} {post : List γ} :
    ∀ {l : List δ}, List.Forall₂ R (pre ++ p :: post) l →
      ∃ pre' p' post', l = pre' ++ p' :: post' ∧ R p p' ∧ List.Forall₂ R post post' := by
  induction pre with
  | nil =>
      intro l agree
      obtain ⟨p', post', here, behind, rfl⟩ := List.forall₂_cons_left_iff.mp agree
      exact ⟨[], p', post', rfl, here, behind⟩
  | cons first pre ih =>
      intro l agree
      obtain ⟨first', rest, _, behind, rfl⟩ := List.forall₂_cons_left_iff.mp agree
      obtain ⟨pre', p', post', rfl, here, after⟩ := ih behind
      exact ⟨first' :: pre', p', post', rfl, here, after⟩

theorem exists_of_forall₂ {γ δ : Type} {R : γ → δ → Prop} {l : List γ} {l' : List δ}
    (agree : List.Forall₂ R l l') : ∀ p' ∈ l', ∃ p ∈ l, R p p' := by
  induction agree with
  | nil => exact fun p' member => absurd member List.not_mem_nil
  | cons here _ ih =>
      intro p' member
      rcases List.mem_cons.mp member with rfl | behind
      · exact ⟨_, List.mem_cons_self, here⟩
      · obtain ⟨p, listed, same⟩ := ih p' behind
        exact ⟨p, List.mem_cons_of_mem _ listed, same⟩

/-- Two lists of sources that write to the same keys leave the same under a key if the last
to write to it writes the same. -/
theorem overwritten_filterMap_congr {γ : Type} {source : γ → Option (α × β)} {R : γ → γ → Prop}
    {l l' : List γ} (agree : List.Forall₂ R l l')
    (keys : ∀ p p', R p p' → (source p).map Prod.fst = (source p').map Prod.fst) (a : α)
    (values : ∀ pre p post b, l = pre ++ p :: post → source p = some (a, b) →
      (∀ q ∈ post, ∀ w, source q = some w → w.1 ≠ a) → ∀ p', R p p' → source p' = some (a, b)) :
    overwritten (fun _ => none) (l.filterMap source) a =
      overwritten (fun _ => none) (l'.filterMap source) a := by
  have writer {q q' : γ} (same : R q q') {w : α × β} (wrote : source q' = some w) :
      ∃ w', source q = some w' ∧ w'.1 = w.1 := by
    apply Option.map_eq_some_iff.mp
    rw [keys q q' same, wrote]
    rfl
  cases found : overwritten (fun _ => none) (l.filterMap source) a with
  | some b =>
      obtain ⟨pre, p, post, rfl, wrote, last⟩ := overwritten_filterMap_found found
      obtain ⟨pre', p', post', rfl, same, behind⟩ := forall₂_around pre agree
      symm
      apply overwritten_filterMap_last
      · exact values pre p post b rfl wrote last p' same
      · intro q' member w wrote' key
        obtain ⟨q, listed, related⟩ := exists_of_forall₂ behind q' member
        obtain ⟨w', wrote'', key'⟩ := writer related wrote'
        exact last q listed w' wrote'' (key'.trans key)
  | none =>
      symm
      apply overwritten_filterMap_absent
      intro q' member w wrote key
      obtain ⟨q, listed, related⟩ := exists_of_forall₂ agree q' member
      obtain ⟨w', wrote', key'⟩ := writer related wrote
      have written : a ∈ (l.filterMap source).map Prod.fst := by
        rw [← key'.trans key]
        exact List.mem_map_of_mem (List.mem_filterMap.mpr ⟨q, listed, wrote'⟩)
      obtain ⟨b, _, some⟩ := overwritten_of_mem _ (f := fun _ => none) written
      rw [found] at some
      cases some

/-- Every entry is found in the table at the end exactly if entries with the same key have
the same value. -/
theorem overwritten_holds_iff (f : α → Option β) (writes : List (α × β)) :
    (∀ w ∈ writes, overwritten f writes w.1 = some w.2) ↔
      ∀ w ∈ writes, ∀ w' ∈ writes, w.1 = w'.1 → w.2 = w'.2 := by
  constructor
  · intro holds w member w' member' same
    have first := holds w member
    rw [same, holds w' member'] at first
    exact (Option.some.inj first).symm
  · intro agree w member
    obtain ⟨b, listed, held⟩ := overwritten_of_mem writes (f := f) (List.mem_map_of_mem member)
    rw [held, agree w member (w.1, b) listed rfl]

/-- The same for sources that may or may not write an entry: each has written one, and it
is still there at the end. -/
theorem overwritten_filterMap_iff {γ : Type} (f : α → Option β) (source : γ → Option (α × β))
    (sources : List γ) :
    (∀ p ∈ sources, ∃ w, source p = some w ∧
      overwritten f (sources.filterMap source) w.1 = some w.2) ↔
      (∀ p ∈ sources, (source p).isSome) ∧
        ∀ p ∈ sources, ∀ q ∈ sources, ∀ w w', source p = some w → source q = some w' →
          w.1 = w'.1 → w.2 = w'.2 := by
  have holds := overwritten_holds_iff f (sources.filterMap source)
  constructor
  · intro found
    refine ⟨fun p member => ?_, fun p member q member' w w' wrote wrote' same => ?_⟩
    · obtain ⟨w, wrote, _⟩ := found p member
      rw [wrote]
      rfl
    · apply holds.mp _ w (List.mem_filterMap.mpr ⟨p, member, wrote⟩) w'
        (List.mem_filterMap.mpr ⟨q, member', wrote'⟩) same
      intro entry listed
      obtain ⟨r, member, wrote⟩ := List.mem_filterMap.mp listed
      obtain ⟨entry', same, held⟩ := found r member
      rw [wrote, Option.some.injEq] at same
      rw [same, held]
  · rintro ⟨all, agree⟩ p member
    obtain ⟨w, wrote⟩ := Option.isSome_iff_exists.mp (all p member)
    refine ⟨w, wrote, holds.mpr ?_ w (List.mem_filterMap.mpr ⟨p, member, wrote⟩)⟩
    intro first listed second listed' same
    obtain ⟨q, member, wrote⟩ := List.mem_filterMap.mp listed
    obtain ⟨r, member', wrote'⟩ := List.mem_filterMap.mp listed'
    exact agree q member r member' first second wrote wrote' same

end
end JP4Agent
