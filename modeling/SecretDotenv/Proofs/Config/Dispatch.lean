import SecretDotenv.Config.Problem
import SecretDotenv.Proofs.Secret.DefaultRequest

/-! Where a configuration sends requests for `default`. If nothing is wrong with it they go
to the vaults that are marked for them, the key vault first, and to no other. -/
namespace SecretDotenv.Config

open Text Secret Machine

variable {c : Config}

theorem KeyVaultSection.isSome_defaultUri {s : KeyVaultSection} (h : s.problems = [])
    (keyword : String) : (s.backend keyword).defaultUri.isSome = s.isDefault := by
  unfold problems at h
  unfold KeyVault.defaultUri backend
  cases hdefault : s.isDefault with
  | false => rfl
  | true =>
    cases hname : s.vaultName with
    | none => simp [hdefault, hname] at h
    | some name =>
      have hblank : isBlankText name = false := by simpa [hdefault, hname] using h
      simp [hblank]

theorem SopsEnvSection.isSome_defaultUri {s : SopsEnvSection} (h : s.problems = [])
    (keyword : String) : (s.backend keyword).defaultUri.isSome = s.isDefault := by
  unfold problems at h
  unfold SopsEnv.defaultUri backend
  cases hdefault : s.isDefault with
  | false => rfl
  | true =>
    cases hpath : s.envPath with
    | none => simp [hdefault, hpath] at h
    | some path => rfl

theorem keyVault_problems (hc : c.problems = []) {s : KeyVaultSection}
    (hs : c.vaults.azureKeyVault = some s) : s.problems = [] := by
  unfold problems at hc
  rw [hs] at hc
  simp only [List.append_eq_nil_iff] at hc
  exact hc.1.2

theorem sopsEnv_problems (hc : c.problems = []) {s : SopsEnvSection}
    (hs : c.vaults.sopsEnv = some s) : s.problems = [] := by
  unfold problems at hc
  rw [hs] at hc
  simp only [List.append_eq_nil_iff] at hc
  exact hc.2

/-- The key vault if it is marked for default requests, and else the vault of files if that is. -/
def defaultVault? (c : Config) (programs : Programs) : Option (Vault Session) :=
  let keyword := c.expansion.secretsExpression
  ((c.vaults.azureKeyVault.filter (·.isDefault)).map fun s =>
      (s.backend keyword).toVault programs).or
    ((c.vaults.sopsEnv.filter (·.isDefault)).map fun s => (s.backend keyword).toVault programs)

theorem isSome_defaultVault? (c : Config) (programs : Programs) :
    (c.defaultVault? programs).isSome ↔
      (∃ s, c.vaults.azureKeyVault = some s ∧ s.isDefault) ∨
        ∃ s, c.vaults.sopsEnv = some s ∧ s.isDefault := by
  unfold defaultVault?
  rw [Option.isSome_or, Option.isSome_map, Option.isSome_map, Option.isSome_filter,
    Option.isSome_filter, Bool.or_eq_true, Option.any_eq_true, Option.any_eq_true]

theorem find?_toList {α : Type} (p : α → Bool) (o : Option α) :
    o.toList.find? p = o.filter p := by
  cases o with
  | none => rfl
  | some a => cases ha : p a <;> simp [ha, Option.filter_some]

theorem filter_congr {α : Type} {p q : α → Bool} {o : Option α} (h : ∀ a, o = some a → p a = q a) :
    o.filter p = o.filter q := by
  cases o with
  | none => rfl
  | some a => rw [Option.filter_some, Option.filter_some, h a rfl]

variable {first more : String} {rest : List String} {programs : Programs}

theorem find?_canHandle_default (hc : c.problems = [])
    (hfirst : sameIgnoringCase first c.expansion.secretsExpression) :
    (c.vaultList programs).find? (·.canHandle (first :: "default" :: more :: rest)) =
      c.defaultVault? programs := by
  unfold vaultList defaultVault?
  rw [List.find?_append, find?_toList, find?_toList, Option.filter_map, Option.filter_map]
  congr 2
  · apply filter_congr
    intro s hs
    rw [← KeyVaultSection.isSome_defaultUri (keyVault_problems hc hs) c.expansion.secretsExpression]
    exact (KeyVault.servesDefault _ programs).takes first more rest hfirst
  · apply filter_congr
    intro s hs
    rw [← SopsEnvSection.isSome_defaultUri (sopsEnv_problems hc hs) c.expansion.secretsExpression]
    exact (SopsEnv.servesDefault _ programs).takes first more rest hfirst

theorem servesDefault_of_mem {v : Vault Session} (hv : v ∈ c.vaultList programs) :
    v.keyword = c.expansion.secretsExpression ∧ ∃ place, v.ServesDefault place := by
  unfold vaultList at hv
  rcases List.mem_append.1 hv with hv | hv
  · obtain ⟨s, -, rfl⟩ := Option.map_eq_some_iff.1 (Option.mem_toList.1 hv)
    exact ⟨rfl, _, KeyVault.servesDefault _ programs⟩
  · obtain ⟨s, -, rfl⟩ := Option.map_eq_some_iff.1 (Option.mem_toList.1 hv)
    exact ⟨rfl, _, SopsEnv.servesDefault _ programs⟩

theorem accepting_avoids {v : Vault Session} (hv : v ∈ c.vaultList programs)
    (hfirst : sameIgnoringCase first c.expansion.secretsExpression)
    (haccepts : v.canHandle (first :: "default" :: more :: rest)) (args : List String) :
    Effect.Avoids (.expression .noDefault) (v.expand args) ∧
      Effect.Avoids (.expression .noDefault) (v.expandAsync args) := by
  obtain ⟨hkeyword, place, hserves⟩ := servesDefault_of_mem hv
  rw [← hkeyword] at hfirst
  rw [hserves.takes _ _ _ hfirst] at haccepts
  exact hserves.avoids haccepts args

/-- Without problems a request for `default` finds a vault exactly if one is marked for it. The
first is the key vault, unless only the vault of files is marked, and whichever takes the
request knows what `default` stands for. -/
theorem default_dispatched (hc : c.problems = [])
    (hfirst : sameIgnoringCase first c.expansion.secretsExpression) (more : String)
    (rest : List String) (programs : Programs) :
    let args := first :: "default" :: more :: rest
    ((∃ v ∈ c.vaultList programs, v.canHandle args) ↔
      (∃ s, c.vaults.azureKeyVault = some s ∧ s.isDefault) ∨
        ∃ s, c.vaults.sopsEnv = some s ∧ s.isDefault) ∧
    (c.vaultList programs).find? (·.canHandle args) = c.defaultVault? programs ∧
    ∀ v ∈ c.vaultList programs, v.canHandle args →
      Effect.Avoids (.expression .noDefault) (v.expand args) ∧
        Effect.Avoids (.expression .noDefault) (v.expandAsync args) := by
  intro args
  have hfind : (c.vaultList programs).find? (·.canHandle args) = c.defaultVault? programs :=
    find?_canHandle_default hc hfirst
  refine ⟨?_, hfind, ?_⟩
  · rw [← isSome_defaultVault? c programs, ← hfind, List.find?_isSome]
  · intro v hv haccepts
    exact accepting_avoids hv hfirst haccepts args

theorem default_dispatched_to_file :
    let c : Config := {
      expansion := { secretsExpression := "Vault" }
      vaults := {
        azureKeyVault := some { vaultName := some "main" }
        sopsEnv := some { envPath := some "/a.env", isDefault := true } } }
    c.problems = [] ∧ sameIgnoringCase "VAULT" c.expansion.secretsExpression ∧
      ∀ programs, ∃ v ∈ c.vaultList programs, v.name = SopsEnv.name ∧
        (c.vaultList programs).find? (·.canHandle ["VAULT", "default", "-C"]) = some v ∧
        Effect.Avoids (.expression .noDefault) (v.expand ["VAULT", "default", "-C"]) := by
  intro c
  have hc : c.problems = [] := by decide
  have hfirst : sameIgnoringCase "VAULT" c.expansion.secretsExpression := by decide
  refine ⟨hc, hfirst, ?_⟩
  intro programs
  obtain ⟨-, hfind, havoids⟩ := default_dispatched hc hfirst "-C" [] programs
  obtain ⟨v, hv⟩ : ∃ v, c.defaultVault? programs = some v := ⟨_, rfl⟩
  rw [hv] at hfind
  have hmem : v ∈ c.vaultList programs := List.mem_of_find?_eq_some hfind
  have hname : v.name = SopsEnv.name := by
    rw [← Option.some.inj hv]
    rfl
  have haccepts : v.canHandle ["VAULT", "default", "-C"] := by
    simpa using List.find?_some hfind
  exact ⟨v, hmem, hname, hfind, (havoids v hmem haccepts).1⟩

end SecretDotenv.Config
