import Mathlib.Data.List.Basic

set_option autoImplicit false

/- Rules for programs that change a state and can fail. A failing program leaves the
state as it was when it failed. -/
namespace JP4Agent

section
variable {ε σ α β : Type}

/-- The state that a program returned in, if it did. -/
def returnedState : EStateM.Result ε σ α → Option σ
  | .ok _ s => some s
  | .error _ _ => none

/-- The state that a program ended in. -/
def endState : EStateM.Result ε σ α → σ
  | .ok _ s => s
  | .error _ s => s

/-- Started in `s` the program returns so that `Q` holds or fails so that `E` holds. -/
def Ends (m : EStateM ε σ α) (s : σ) (Q : α → σ → Prop) (E : ε → σ → Prop) : Prop :=
  match m s with
  | .ok a t => Q a t
  | .error e t => E e t

/-- A program made of two returns exactly if both do. -/
theorem bind_eq_ok {m : EStateM ε σ α} {f : α → EStateM ε σ β} {s t : σ} {b : β} :
    (m >>= f) s = .ok b t ↔ ∃ a s', m s = .ok a s' ∧ f a s' = .ok b t := by
  change EStateM.bind m f s = _ ↔ _
  rw [EStateM.bind]
  split
  · rename_i a s' returned
    constructor
    · exact fun more => ⟨a, s', returned, more⟩
    · rintro ⟨_, _, same, more⟩
      cases returned.symm.trans same
      exact more
  · rename_i e s' failed
    constructor
    · exact fun wrong => nomatch wrong
    · rintro ⟨_, _, returned, _⟩
      cases failed.symm.trans returned

theorem bind_of_ok {m : EStateM ε σ α} {s t : σ} {a : α} (returned : m s = .ok a t)
    (f : α → EStateM ε σ β) : (m >>= f) s = f a t := by
  change EStateM.bind m f s = _
  rw [EStateM.bind, returned]

theorem bind_of_error {m : EStateM ε σ α} {s t : σ} {e : ε} (failed : m s = .error e t)
    (f : α → EStateM ε σ β) : (m >>= f) s = .error e t := by
  change EStateM.bind m f s = _
  rw [EStateM.bind, failed]

theorem get_bind (f : σ → EStateM ε σ α) (s : σ) : (get >>= f) s = f s s := rfl

theorem map_eq_ok {m : EStateM ε σ α} {f : α → β} {s t : σ} {b : β} :
    (f <$> m) s = .ok b t ↔ ∃ a, m s = .ok a t ∧ f a = b := by
  change EStateM.map f m s = _ ↔ _
  rw [EStateM.map]
  split
  · rename_i a s' returned
    constructor
    · rintro ⟨⟩
      exact ⟨a, returned, rfl⟩
    · rintro ⟨_, same, rfl⟩
      cases returned.symm.trans same
      rfl
  · rename_i e s' failed
    constructor
    · exact fun wrong => nomatch wrong
    · rintro ⟨_, returned, _⟩
      cases failed.symm.trans returned

variable {s : σ} {Q : α → σ → Prop} {E : ε → σ → Prop}

theorem Ends.of_ok {m : EStateM ε σ α} {a : α} {t : σ} (ends : Ends m s Q E)
    (returned : m s = .ok a t) : Q a t := by
  rw [Ends, returned] at ends
  exact ends

theorem Ends.of_returnedState {m : EStateM ε σ α} {t : σ} (ends : Ends m s Q E)
    (returned : returnedState (m s) = some t) : ∃ a, Q a t := by
  cases ran : m s with
  | ok a u =>
      rw [ran] at returned
      obtain rfl := Option.some.inj returned
      exact ⟨a, ends.of_ok ran⟩
  | error e u =>
      rw [ran] at returned
      exact nomatch returned

theorem Ends.of_error {m : EStateM ε σ α} {e : ε} {t : σ} (ends : Ends m s Q E)
    (failed : m s = .error e t) : E e t := by
  rw [Ends, failed] at ends
  exact ends

theorem Ends.returns {m : EStateM ε σ α} (ends : Ends m s Q (fun _ _ => False)) :
    ∃ a t, m s = .ok a t ∧ Q a t := by
  cases ran : m s with
  | ok a t => exact ⟨a, t, rfl, ends.of_ok ran⟩
  | error e t => exact (ends.of_error ran).elim

/-- What every return of the program satisfies. -/
theorem Ends.of_returns {m : EStateM ε σ α} (returns : ∀ a t, m s = .ok a t → Q a t) :
    Ends m s Q (fun _ _ => True) := by
  rw [Ends]
  cases ran : m s with
  | ok a t => exact returns a t ran
  | error e t => trivial

theorem ends_pure {a : α} (post : Q a s) : Ends (pure a) s Q E := post

theorem ends_throw {e : ε} (post : E e s) : Ends (throw e) s Q E := post

theorem ends_modify {f : σ → σ} {Q : PUnit → σ → Prop} (post : Q ⟨⟩ (f s)) :
    Ends (modify f) s Q E := post

theorem ends_get {Q : σ → σ → Prop} (post : Q s s) : Ends get s Q E := post

/-- Failures of the first part are failures of the whole. -/
theorem ends_bind {m : EStateM ε σ β} {f : β → EStateM ε σ α}
    (ends : Ends m s (fun b t => Ends (f b) t Q E) E) : Ends (m >>= f) s Q E := by
  change (match EStateM.bind m f s with
    | .ok a t => Q a t
    | .error e t => E e t)
  rw [EStateM.bind]
  cases ran : m s with
  | ok b t => exact ends.of_ok ran
  | error e t => exact ends.of_error ran

theorem ends_map {m : EStateM ε σ β} {f : β → α}
    (ends : Ends m s (fun b t => Q (f b) t) E) : Ends (f <$> m) s Q E := by
  change (match EStateM.map f m s with
    | .ok a t => Q a t
    | .error e t => E e t)
  rw [EStateM.map]
  cases ran : m s with
  | ok b t => exact ends.of_ok ran
  | error e t => exact ends.of_error ran

/-- Two facts about one program. -/
theorem Ends.and {m : EStateM ε σ α} {Q' : α → σ → Prop} {E' : ε → σ → Prop}
    (first : Ends m s Q E) (second : Ends m s Q' E') :
    Ends m s (fun a t => Q a t ∧ Q' a t) (fun e t => E e t ∧ E' e t) := by
  rw [Ends]
  cases ran : m s with
  | ok a t => exact ⟨first.of_ok ran, second.of_ok ran⟩
  | error e t => exact ⟨first.of_error ran, second.of_error ran⟩

theorem Ends.mono {m : EStateM ε σ α} {Q' : α → σ → Prop} {E' : ε → σ → Prop}
    (ends : Ends m s Q E) (returns : ∀ a t, Q a t → Q' a t) (fails : ∀ e t, E e t → E' e t) :
    Ends m s Q' E' := by
  rw [Ends]
  cases ran : m s with
  | ok a t => exact returns a t (ends.of_ok ran)
  | error e t => exact fails e t (ends.of_error ran)

end

section
variable {ε σ τ α β γ δ : Type} {φ : σ → τ} {g : α → β} {h : γ → δ}

/-- What a program returned, as seen from the image of its state. -/
def mapResult (φ : σ → τ) (g : α → β) : EStateM.Result ε σ α → EStateM.Result ε τ β
  | .ok a s => .ok (g a) (φ s)
  | .error e s => .error e (φ s)

/-- Whatever the first program does to a state the second does to the image of the state. -/
def Simulates (φ : σ → τ) (g : α → β) (m : EStateM ε σ α) (m' : EStateM ε τ β) : Prop :=
  ∀ s, m' (φ s) = mapResult φ g (m s)

theorem simulates_pure (a : α) :
    Simulates φ g (pure a : EStateM ε σ α) (pure (g a) : EStateM ε τ β) := fun _ => rfl

theorem simulates_throw (e : ε) :
    Simulates φ g (throw e : EStateM ε σ α) (throw e : EStateM ε τ β) := fun _ => rfl

theorem simulates_modify {f : σ → σ} {f' : τ → τ} (same : ∀ s, f' (φ s) = φ (f s)) :
    Simulates φ id (modify f : EStateM ε σ PUnit) (modify f' : EStateM ε τ PUnit) := by
  intro s
  change EStateM.Result.ok PUnit.unit (f' (φ s)) = .ok PUnit.unit (φ (f s))
  rw [same]

theorem simulates_bind {m : EStateM ε σ α} {m' : EStateM ε τ β} {k : α → EStateM ε σ γ}
    {k' : β → EStateM ε τ δ} (first : Simulates φ g m m')
    (rest : ∀ a, Simulates φ h (k a) (k' (g a))) : Simulates φ h (m >>= k) (m' >>= k') := by
  intro s
  change EStateM.bind m' k' (φ s) = mapResult φ h (EStateM.bind m k s)
  unfold EStateM.bind
  rw [first s]
  cases m s with
  | ok a t => exact rest a t
  | error e t => rfl

theorem simulates_map {m : EStateM ε σ α} {m' : EStateM ε τ β} {f : α → γ} {f' : β → δ}
    (first : Simulates φ g m m') (same : ∀ a, f' (g a) = h (f a)) :
    Simulates φ h (f <$> m) (f' <$> m') := by
  intro s
  change EStateM.map f' m' (φ s) = mapResult φ h (EStateM.map f m s)
  unfold EStateM.map
  rw [first s]
  cases m s with
  | ok a t =>
      change EStateM.Result.ok (f' (g a)) (φ t) = .ok (h (f a)) (φ t)
      rw [same]
  | error e t => rfl

end

section
variable {ε ε' σ α β : Type} (h : ε → ε')

/-- The same program, with other names for its failures. -/
def mapFault (m : EStateM ε σ α) : EStateM ε' σ α := fun s =>
  match m s with
  | .ok a t => .ok a t
  | .error e t => .error (h e) t

theorem mapFault_of_ok {m : EStateM ε σ α} {s t : σ} {a : α} (returned : m s = .ok a t) :
    mapFault h m s = .ok a t := by
  rw [mapFault, returned]

theorem mapFault_of_error {m : EStateM ε σ α} {s t : σ} {e : ε} (failed : m s = .error e t) :
    mapFault h m s = .error (h e) t := by
  rw [mapFault, failed]

theorem mapFault_bind (m : EStateM ε σ α) (f : α → EStateM ε σ β) :
    mapFault h (m >>= f) = (mapFault h m >>= fun a => mapFault h (f a)) := by
  funext s
  cases ran : m s with
  | ok a t =>
      rw [bind_of_ok (mapFault_of_ok h ran), mapFault, bind_of_ok ran]
      rfl
  | error e t =>
      rw [bind_of_error (mapFault_of_error h ran), mapFault_of_error h (bind_of_error ran f)]

theorem mapFault_map (m : EStateM ε σ α) (f : α → β) :
    mapFault h (f <$> m) = f <$> mapFault h m := by
  rw [map_eq_pure_bind, map_eq_pure_bind, mapFault_bind]
  rfl

end
end JP4Agent
