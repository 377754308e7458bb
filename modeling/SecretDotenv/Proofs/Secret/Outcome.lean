import SecretDotenv.Secret.Effect

/-! How effects run one after another. A failure ends the sequence in the state in
which it happened. -/
namespace SecretDotenv.Secret.Effect

variable {σ α β : Type}

@[simp] theorem outcome_pure (a : α) (s : σ) : outcome (pure a) s = (.ok a, s) := rfl

@[simp] theorem outcome_throw (fault : VaultError) (s : σ) :
    outcome (throw fault : Effect σ α) s = (.error fault, s) := rfl

@[simp] theorem outcome_get (s : σ) : outcome (get : Effect σ σ) s = (.ok s, s) := rfl

@[simp] theorem outcome_modify (f : σ → σ) (s : σ) :
    outcome (modify f : Effect σ Unit) s = (.ok (), f s) := rfl

@[simp] theorem outcome_lift (e : Except VaultError α) (s : σ) :
    outcome (lift e : Effect σ α) s = (e, s) := by
  cases e <;> rfl

theorem outcome_eq_error {e : Effect σ α} {s : σ} (h : (outcome e s).1.toOption = none) :
    ∃ fault, outcome e s = (.error fault, (outcome e s).2) := by
  rcases hrun : outcome e s with ⟨result, t⟩
  rw [hrun] at h
  cases result with
  | error fault => exact ⟨fault, rfl⟩
  | ok a => contradiction

theorem eq_ok_of_toOption {ε : Type} {result : Except ε α} {a : α}
    (h : result.toOption = some a) : result = .ok a := by
  cases result with
  | error fault => cases h
  | ok b => rw [Option.some.inj h]

theorem outcome_bind (x : Effect σ α) (f : α → Effect σ β) (s : σ) :
    outcome (x >>= f) s =
      match outcome x s with
      | (.ok a, t) => outcome (f a) t
      | (.error fault, t) => (.error fault, t) := by
  unfold outcome
  simp only [bind, ExceptT.bind, ExceptT.mk, StateT.bind, ExceptT.bindCont]
  rcases x s with ⟨result, t⟩
  cases result <;> rfl

theorem outcome_bind_ok {x : Effect σ α} {s t : σ} {a : α} (f : α → Effect σ β)
    (h : outcome x s = (.ok a, t)) : outcome (x >>= f) s = outcome (f a) t := by
  rw [outcome_bind, h]

theorem outcome_bind_error {x : Effect σ α} {s t : σ} {fault : VaultError} (f : α → Effect σ β)
    (h : outcome x s = (.error fault, t)) : outcome (x >>= f) s = (.error fault, t) := by
  rw [outcome_bind, h]

theorem outcome_bind_cases {x : Effect σ α} {f : α → Effect σ β} {s t : σ}
    {result : Except VaultError β} (h : outcome (x >>= f) s = (result, t)) :
    (∃ fault, outcome x s = (.error fault, t) ∧ result = .error fault) ∨
      ∃ a u, outcome x s = (.ok a, u) ∧ outcome (f a) u = (result, t) := by
  rcases hx : outcome x s with ⟨first, u⟩
  cases first with
  | error fault =>
    rw [outcome_bind_error f hx] at h
    obtain ⟨hresult, hstate⟩ := Prod.mk.inj h
    subst hstate
    exact Or.inl ⟨fault, rfl, hresult.symm⟩
  | ok a =>
    rw [outcome_bind_ok f hx] at h
    exact Or.inr ⟨a, u, rfl, h⟩

variable {aborted : σ → Bool} {mode : Mode} {s t : σ}

theorem outcome_checkAborted (aborted : σ → Bool) (mode : Mode) (s : σ) :
    outcome (checkAborted aborted mode) s =
      (if mode = .cooperative && aborted s then .error .cancelled else .ok (), s) := by
  unfold checkAborted
  rw [outcome_bind_ok _ (outcome_get s)]
  split <;> rfl

theorem outcome_checkAborted_ok (h : ¬(mode = .cooperative ∧ aborted s)) :
    outcome (checkAborted aborted mode) s = (.ok (), s) := by
  rw [outcome_checkAborted, if_neg (by simpa using h)]

/-- What comes behind a check runs in the state in front of it, or the run was told to stop. -/
theorem checked_cases {f : Unit → Effect σ α} {result : Except VaultError α}
    (h : outcome (checkAborted aborted mode >>= f) s = (result, t)) :
    (∃ fault, result = .error fault) ∧ t = s ∨
      ¬(mode = .cooperative ∧ aborted s) ∧ outcome (f ()) s = (result, t) := by
  have hchecked := outcome_checkAborted aborted mode s
  split at hchecked
  · rw [outcome_bind_error f hchecked] at h
    obtain ⟨rfl, rfl⟩ := Prod.mk.inj h
    exact Or.inl ⟨⟨_, rfl⟩, rfl⟩
  · next hgoes =>
    rw [outcome_bind_ok f hchecked] at h
    exact Or.inr ⟨by simpa using hgoes, h⟩

end SecretDotenv.Secret.Effect
