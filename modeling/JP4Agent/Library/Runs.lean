import Mathlib.Data.List.Basic

set_option autoImplicit false

/- Runs of a system that takes one action after another. An action that is not
possible in a state has no successor there. -/
namespace JP4Agent

section
variable {S A : Type} (step : S → A → Option S)

/-- The state after the actions, if each of them was possible. -/
def run (s : S) : List A → Option S
  | [] => some s
  | a :: rest => (step s a).bind fun s' => run s' rest

/-- `P` holds in every state of the run, the first and the last included. -/
def EveryState (P : S → Prop) (s : S) : List A → Prop
  | [] => P s
  | a :: rest => P s ∧ ∀ s', step s a = some s' → EveryState P s' rest

/-- `C` holds of every step of the run, taken in the state before it. -/
def EveryStep (C : S → A → Prop) (s : S) : List A → Prop
  | [] => True
  | a :: rest => C s a ∧ ∀ s', step s a = some s' → EveryStep C s' rest

/-- What the steps of a run give, each in the state before it. -/
def collect {B : Type} (f : S → A → Option B) (s : S) : List A → List B
  | [] => []
  | a :: rest => (f s a).toList ++ ((step s a).map fun s' => collect f s' rest).getD []

variable {step}

theorem run_cons {s t : S} {a : A} {rest : List A} (ran : run step s (a :: rest) = some t) :
    ∃ s', step s a = some s' ∧ run step s' rest = some t := Option.bind_eq_some_iff.mp ran

theorem run_append (first second : List A) : ∀ s : S,
    run step s (first ++ second) = (run step s first).bind fun t => run step t second := by
  induction first with
  | nil => exact fun _ => rfl
  | cons a rest ih =>
      intro s
      rw [List.cons_append, run, run]
      cases step s a with
      | none => rfl
      | some s' => exact ih s'

/-- What every step keeps holds after every run. -/
theorem run_invariant {Inv : S → Prop}
    (keeps : ∀ s a s', Inv s → step s a = some s' → Inv s') {actions : List A} :
    ∀ {s t : S}, Inv s → run step s actions = some t → Inv t := by
  induction actions with
  | nil =>
      intro s t start ran
      cases ran
      exact start
  | cons a rest ih =>
      intro s t start ran
      obtain ⟨s', taken, more⟩ := run_cons ran
      exact ih (keeps s a s' start taken) more

/-- `P` holds all along a run exactly when every step meets `C`: a step that meets it
keeps `P`, a step that does not breaks `P`. -/
theorem everyState_iff_everyStep {Inv P : S → Prop} {C : S → A → Prop}
    (keeps : ∀ s a s', Inv s → step s a = some s' → Inv s')
    (iff : ∀ s a s', Inv s → P s → step s a = some s' → (P s' ↔ C s a)) {actions : List A} :
    ∀ {s t : S}, Inv s → P s → run step s actions = some t →
      (EveryState step P s actions ↔ EveryStep step C s actions) := by
  induction actions with
  | nil =>
      intro s t _ start _
      exact ⟨fun _ => trivial, fun _ => start⟩
  | cons a rest ih =>
      intro s t inv start ran
      obtain ⟨s', taken, more⟩ := run_cons ran
      have here := iff s a s' inv start taken
      constructor
      · rintro ⟨_, states⟩
        have next := states s' taken
        have good : P s' := by
          cases rest with
          | nil => exact next
          | cons b rest => exact next.1
        refine ⟨here.mp good, fun s'' again => ?_⟩
        cases taken.symm.trans again
        exact (ih (keeps s a s' inv taken) good more).mp next
      · rintro ⟨meets, steps⟩
        have good := here.mpr meets
        refine ⟨start, fun s'' again => ?_⟩
        cases taken.symm.trans again
        exact (ih (keeps s a s' inv taken) good more).mpr (steps s' taken)

/-- `P` holds all along a run whose steps meet `C`, if such steps keep it. -/
theorem everyState_of_everyStep {P : S → Prop} {C : S → A → Prop}
    (keeps : ∀ s a s', P s → C s a → step s a = some s' → P s') {actions : List A} :
    ∀ {s : S}, P s → EveryStep step C s actions → EveryState step P s actions := by
  induction actions with
  | nil => exact fun start _ => start
  | cons a rest ih =>
      rintro s start ⟨meets, steps⟩
      exact ⟨start, fun s' taken => ih (keeps s a s' start meets taken) (steps s' taken)⟩

theorem everyStep_append {C : S → A → Prop} {before after : List A} :
    ∀ {s t : S}, run step s before = some t → EveryStep step C s before →
      EveryStep step C t after → EveryStep step C s (before ++ after) := by
  induction before with
  | nil =>
      rintro s t ⟨⟩ _ steps
      exact steps
  | cons a rest ih =>
      rintro s t ran ⟨meets, steps⟩ more
      obtain ⟨s', taken, ran'⟩ := run_cons ran
      refine ⟨meets, fun s'' again => ?_⟩
      cases taken.symm.trans again
      exact ih ran' (steps s' taken) more

theorem EveryStep.mono {C D : S → A → Prop} (weaker : ∀ s a, C s a → D s a) {actions : List A} :
    ∀ {s : S}, EveryStep step C s actions → EveryStep step D s actions := by
  induction actions with
  | nil => exact fun _ => trivial
  | cons a rest ih =>
      rintro s ⟨meets, steps⟩
      exact ⟨weaker s a meets, fun s' taken => ih (steps s' taken)⟩

theorem EveryState.mono {P Q : S → Prop} (weaker : ∀ s, P s → Q s) {actions : List A} :
    ∀ {s : S}, EveryState step P s actions → EveryState step Q s actions := by
  induction actions with
  | nil => exact fun here => weaker _ here
  | cons a rest ih =>
      intro s states
      exact ⟨weaker s states.1, fun s' taken => ih (states.2 s' taken)⟩

/-- A run all of whose states satisfy `P` ends in `P`. -/
theorem EveryState.last {P : S → Prop} {actions : List A} :
    ∀ {s t : S}, EveryState step P s actions → run step s actions = some t → P t := by
  induction actions with
  | nil =>
      intro s t states ran
      cases ran
      exact states
  | cons a rest ih =>
      intro s t states ran
      obtain ⟨s', taken, more⟩ := run_cons ran
      exact ih (states.2 s' taken) more

section
variable {B C D : Type} {f : S → A → Option B} {s s' t : S}

theorem collect_cons {a : A} (taken : step s a = some s') (rest : List A) :
    collect step f s (a :: rest) = (f s a).toList ++ collect step f s' rest := by
  rw [collect, taken]
  rfl

theorem collect_append {first : List A} (second : List A) : ∀ {s : S},
    run step s first = some t →
      collect step f s (first ++ second) = collect step f s first ++ collect step f t second := by
  induction first with
  | nil =>
      intro s ran
      cases ran
      rfl
  | cons a rest ih =>
      intro s ran
      obtain ⟨s', taken, more⟩ := run_cons ran
      rw [List.cons_append, collect_cons taken, collect_cons taken, ih more, List.append_assoc]

theorem mem_collect {P : B → Prop} {actions : List A} :
    ∀ {s : S}, (∀ s, ∀ a ∈ actions, ∀ b ∈ f s a, P b) → ∀ b ∈ collect step f s actions, P b := by
  induction actions with
  | nil => simp [collect]
  | cons a rest ih =>
      intro s each b member
      rcases List.mem_append.mp member with here | later
      · exact each s a List.mem_cons_self b (Option.mem_toList.mp here)
      · cases taken : step s a with
        | none => simp [taken] at later
        | some s' =>
            rw [taken] at later
            exact ih (fun s a member => each s a (List.mem_cons_of_mem _ member)) b later

/-- What each step adds to the output is what the run adds to it. -/
theorem run_collects {out : S → List B}
    (adds : ∀ s a s', step s a = some s' → out s' = out s ++ (f s a).toList) {actions : List A} :
    ∀ {s t : S}, run step s actions = some t → out t = out s ++ collect step f s actions := by
  induction actions with
  | nil =>
      intro s t ran
      cases ran
      exact (List.append_nil _).symm
  | cons a rest ih =>
      intro s t ran
      obtain ⟨s', taken, more⟩ := run_cons ran
      rw [ih more, adds s a s' taken, collect_cons taken, List.append_assoc]

/-- Two collections that say the same of each step say the same of the run. -/
theorem collect_filterMap {g : B → Option D} {f' : S → A → Option C} {g' : C → Option D}
    (each : ∀ s a, (f s a).bind g = (f' s a).bind g') {actions : List A} : ∀ {s : S},
      (collect step f s actions).filterMap g = (collect step f' s actions).filterMap g' := by
  have single {X Y : Type} (h : X → Option Y) (x : Option X) :
      x.toList.filterMap h = (x.bind h).toList := by
    cases x with
    | none => rfl
    | some x => cases made : h x <;> simp [made]
  induction actions with
  | nil =>
      intro s
      rfl
  | cons a rest ih =>
      intro s
      rw [collect, collect, List.filterMap_append, List.filterMap_append, single, single, each]
      cases step s a with
      | none => rfl
      | some s' => exact congrArg _ ih

end

end
end JP4Agent
