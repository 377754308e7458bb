import SecretDotenv.Machine.Basic

/-! What running a command does to a machine: the command is recorded, and the disk
becomes what the program leaves, if one was started. -/
namespace SecretDotenv.Machine

/-- What no command changes. -/
structure Follows (m n : Machine) : Prop where
  environment : n.environment = m.environment
  directory : n.directory = m.directory
  aborted : m.aborted → n.aborted

theorem Follows.refl (m : Machine) : m.Follows m := ⟨rfl, rfl, id⟩

theorem Follows.trans {m n o : Machine} (hmn : m.Follows n) (hno : n.Follows o) : m.Follows o :=
  ⟨hno.environment.trans hmn.environment, hno.directory.trans hmn.directory,
    hno.aborted ∘ hmn.aborted⟩

variable {programs : Programs} {m n : Machine} {c : Command} {limit : Option Nat}
  {result : Except CommandError Output}

theorem run_cases (h : m.run programs c limit = (result, n)) :
    (∃ reason, result = .error (.start c.program reason) ∧ n = m.record c false) ∨
      ∃ reply, programs m c = some reply ∧
        n = { m.record c true with
          disk := reply.disk, aborted := m.aborted || reply.aborts } ∧
        (result = .ok reply.output ∨
          ∃ ms, limit = some ms ∧ ms ≤ reply.elapsed ∧ result = .error (.timeout c.program ms)) := by
  unfold run at h
  cases hobstacle : m.obstacle? c with
  | some reason =>
    rw [hobstacle] at h
    obtain ⟨rfl, rfl⟩ := Prod.mk.inj h
    exact Or.inl ⟨reason, rfl, rfl⟩
  | none =>
    cases hreply : programs m c with
    | none =>
      rw [hobstacle, hreply] at h
      obtain ⟨rfl, rfl⟩ := Prod.mk.inj h
      exact Or.inl ⟨_, rfl, rfl⟩
    | some reply =>
      rw [hobstacle, hreply] at h
      refine Or.inr ⟨reply, rfl, ?_⟩
      cases limit with
      | none =>
        obtain ⟨rfl, rfl⟩ := Prod.mk.inj h
        exact ⟨rfl, Or.inl rfl⟩
      | some ms =>
        dsimp only at h
        split at h
        · next hlate =>
          obtain ⟨rfl, rfl⟩ := Prod.mk.inj h
          exact ⟨rfl, Or.inr ⟨ms, rfl, hlate, rfl⟩⟩
        · obtain ⟨rfl, rfl⟩ := Prod.mk.inj h
          exact ⟨rfl, Or.inl rfl⟩

theorem run_of_kept {ms : Nat}
    (h : ∀ program ms', (m.run programs c (some ms)).1 ≠ .error (.timeout program ms')) :
    m.run programs c (some ms) = m.run programs c none := by
  unfold run at h ⊢
  cases hobstacle : m.obstacle? c with
  | some reason => rfl
  | none =>
    cases hreply : programs m c with
    | none => rfl
    | some reply =>
      have hkept : ¬ ms ≤ reply.elapsed := fun hlate => by
        simp [hobstacle, hreply, hlate] at h
      simp [hkept]

theorem follows_run (h : m.run programs c limit = (result, n)) : m.Follows n := by
  rcases run_cases h with ⟨reason, -, rfl⟩ | ⟨reply, -, rfl, -⟩
  · exact ⟨rfl, rfl, id⟩
  · refine ⟨rfl, rfl, ?_⟩
    intro habort
    exact Bool.or_eq_true_iff.2 (Or.inl habort)

end SecretDotenv.Machine
