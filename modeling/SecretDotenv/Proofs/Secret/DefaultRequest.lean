import SecretDotenv.Proofs.Secret.Outcome
import SecretDotenv.Secret.Vault

/-! Requests for `default`. A vault takes one exactly if it has a place for it, and then no
request fails for the want of one. -/
namespace SecretDotenv.Secret

open Text Machine Dotenv

namespace Effect

variable {σ τ α β : Type} {fault : VaultError}

def Avoids (fault : VaultError) (e : Effect σ α) : Prop :=
  ∀ s, (outcome e s).1 ≠ .error fault

theorem avoids_pure (a : α) : Avoids fault (pure a : Effect σ α) := by
  intro s h
  contradiction

theorem avoids_get : Avoids fault (get : Effect σ σ) := by
  intro s h
  contradiction

theorem avoids_modify (f : σ → σ) : Avoids fault (modify f : Effect σ Unit) := by
  intro s h
  contradiction

theorem avoids_throw {other : VaultError} (h : other ≠ fault) :
    Avoids fault (throw other : Effect σ α) := by
  intro s heq
  exact h (Except.error.inj heq)

theorem avoids_lift {e : Except VaultError α} (h : e ≠ .error fault) :
    Avoids fault (lift e : Effect σ α) := by
  intro s
  rwa [outcome_lift]

theorem avoids_bind {x : Effect σ α} {f : α → Effect σ β} (hx : Avoids fault x)
    (hf : ∀ a, Avoids fault (f a)) : Avoids fault (x >>= f) := by
  intro s h
  rcases outcome_bind_cases (Prod.ext h rfl) with ⟨first, hfirst, hresult⟩ | ⟨a, u, -, hafter⟩
  · obtain rfl := Except.error.inj hresult
    exact hx s (congrArg Prod.fst hfirst)
  · exact hf a u (congrArg Prod.fst hafter)

theorem avoids_throw_bind {other : VaultError} (h : other ≠ fault) (f : α → Effect σ β) :
    Avoids fault (throw other >>= f) := by
  intro s heq
  rw [outcome_bind_error f (outcome_throw other s)] at heq
  exact h (Except.error.inj heq)

theorem avoids_within {view : τ → σ} {update : σ → τ → τ} {e : Effect σ α} (h : Avoids fault e) :
    Avoids fault (within view update e) :=
  fun t => h (view t)

end Effect

open Effect

section Requests

variable {σ τ α : Type} {fault : ExpressionError}

theorem checkAborted_avoids {aborted : σ → Bool} {mode : Mode} :
    Avoids (.expression fault) (checkAborted aborted mode) := by
  apply avoids_bind avoids_get
  intro s
  split
  · exact avoids_throw nofun
  · exact avoids_pure ()

theorem avoids_request {read : σ → Except ExpressionError Expression}
    {serve : Expression → Effect σ α} (hread : ∀ s, read s ≠ .error fault)
    (hserve : ∀ e, Avoids (.expression fault) (serve e)) :
    Avoids (.expression fault) (do
      let e ← match read (← get) with
        | .ok e => pure e
        | .error fault => throw (.expression fault)
      serve e) := by
  apply avoids_bind avoids_get
  intro s
  have hs := hread s
  cases he : read s with
  | error other =>
    apply avoids_throw_bind
    rintro ⟨⟩
    exact hs he
  | ok e =>
    apply avoids_bind (avoids_pure e)
    exact hserve

theorem avoids_both {view : τ → σ} {update : σ → τ → τ} {aborted : σ → Bool}
    (expand : Mode → Effect σ α) (h : ∀ mode, Avoids (.expression fault) (expand mode)) :
    Avoids (.expression fault) (within view update (expand .blocking)) ∧
      Avoids (.expression fault) (within view update (do
        checkAborted aborted .cooperative
        expand .cooperative)) := by
  refine ⟨avoids_within (h _), avoids_within ?_⟩
  apply avoids_bind checkAborted_avoids
  intro _
  exact h _

end Requests

namespace Expression

theorem readArgument_ne_noDefault (awaited : Awaited) (e : Expression) (part : String) :
    readArgument awaited e part ≠ .error .noDefault := by
  unfold readArgument
  split
  case h_3 | h_5 => split <;> simp
  case h_8 | h_9 => split <;> simp
  all_goals simp

theorem readArguments_ne_noDefault (awaited : Awaited) (e : Expression) (args : List String) :
    readArguments awaited e args ≠ .error .noDefault := by
  induction args generalizing awaited e with
  | nil => cases awaited <;> simp [readArguments, Awaited.missing?]
  | cons part rest ih =>
    have hpart := readArgument_ne_noDefault awaited e part
    unfold readArguments
    cases hread : readArgument awaited e part with
    | ok next => exact ih next.1 next.2
    | error fault =>
      rw [hread] at hpart
      simpa using hpart

theorem parse_ne_noDefault (keyword : String) {defaultUri : Option String} (h : defaultUri.isSome)
    (args : List String) (directory : Path) :
    parse keyword directory defaultUri args ≠ .error .noDefault := by
  obtain ⟨location, rfl⟩ := Option.isSome_iff_exists.1 h
  unfold parse
  split
  · simp
  split
  · simp
  split
  · next hnone => split at hnone <;> contradiction
  split
  · simp
  · exact readArguments_ne_noDefault _ _ _

end Expression

theorem target?_default {first keyword : String} (h : sameIgnoringCase first keyword)
    (more : String) (rest : List String) :
    target? keyword (first :: "default" :: more :: rest) = some "default" :=
  if_pos h

/-- A vault takes requests for `default` exactly if it has a place for it, and then no request
is in want of one. -/
structure Vault.ServesDefault {σ : Type} (v : Vault σ) (place : Option String) : Prop where
  takes : ∀ first more rest, sameIgnoringCase first v.keyword →
    v.canHandle (first :: "default" :: more :: rest) = place.isSome
  avoids : place.isSome → ∀ args, Avoids (.expression .noDefault) (v.expand args) ∧
    Avoids (.expression .noDefault) (v.expandAsync args)

namespace KeyVault

variable {v : KeyVault} {programs : Programs} {mode : Mode} {e : Expression}
  {fault : ExpressionError}

theorem runCommand_avoids (c : Command) : Avoids (.expression fault) (runCommand programs c) := by
  apply avoids_bind avoids_get
  intro m
  rcases m.run programs c none with ⟨result, after⟩
  apply avoids_bind (avoids_modify fun _ => after)
  intro _
  cases result with
  | ok output => exact avoids_pure output
  | error error => exact avoids_throw nofun

theorem runInSession_avoids (loggedIn : Bool) (c : Command) :
    Avoids (.expression fault) (v.runInSession programs mode e loggedIn c) := by
  apply avoids_bind checkAborted_avoids
  intro _
  apply avoids_bind (runCommand_avoids c)
  intro output
  split
  · exact avoids_pure _
  apply avoids_bind checkAborted_avoids
  intro _
  apply avoids_bind avoids_get
  intro m
  apply avoids_bind (runCommand_avoids _)
  intro login
  dsimp only
  split
  · apply avoids_throw_bind
    nofun
  apply avoids_bind checkAborted_avoids
  intro _
  apply avoids_bind (runCommand_avoids c)
  intro again
  exact avoids_pure _

theorem vaultOf_ne_expression (uri : Url) :
    SecretLocation.vaultOf uri ≠ .error (.expression fault) := by
  unfold SecretLocation.vaultOf
  split <;> simp

theorem location_ne_expression (e : Expression) :
    SecretLocation.ofExpression e ≠ .error (.expression fault) := by
  have hvault : SecretLocation.vaultOf e.uri ≠ .error (.expression fault) :=
    vaultOf_ne_expression e.uri
  unfold SecretLocation.ofExpression
  cases hread : SecretLocation.vaultOf e.uri with
  | error other =>
    rw [hread] at hvault
    simpa [bind, Except.bind] using hvault
  | ok parts =>
    simp only [bind, Except.bind]
    split
    all_goals
      dsimp only
      split <;> simp

theorem expand_avoids {args : List String}
    (h : ∀ directory, Expression.parse v.keyword directory v.defaultUri args ≠ .error fault) :
    Avoids (.expression fault) (v.expand programs mode args) := by
  apply avoids_request fun m : Machine => h (v.directory.getD m.directory)
  intro e
  apply avoids_bind (avoids_lift (location_ne_expression e))
  intro l
  apply avoids_bind (runInSession_avoids false _)
  rintro ⟨output, loggedIn⟩
  dsimp only
  split
  · exact avoids_pure _
  split
  · apply avoids_throw_bind
    nofun
  apply avoids_bind avoids_get
  intro n
  apply avoids_bind (avoids_modify _)
  intro _
  apply avoids_bind (runInSession_avoids loggedIn _)
  rintro ⟨stored, _⟩
  dsimp only
  split
  · apply avoids_throw_bind
    nofun
  · exact avoids_pure _

theorem servesDefault (v : KeyVault) (programs : Programs) :
    (v.toVault programs).ServesDefault v.defaultUri where
  takes first more rest h := by
    have htarget : target? v.keyword (first :: "default" :: more :: rest) = some "default" :=
      target?_default h more rest
    change v.canHandle _ = _
    unfold canHandle
    rw [htarget]
    rfl
  avoids hplace args := by
    have hread := Expression.parse_ne_noDefault v.keyword hplace args
    exact avoids_both (v.expand programs · args) fun _ => expand_avoids hread

end KeyVault

namespace SopsEnv

variable {v : SopsEnv} {programs : Programs} {mode : Mode} {e : Expression} {path : Path}
  {fault : ExpressionError}

theorem decrypt_avoids : Avoids (.expression fault) (v.decrypt programs e path) := by
  apply avoids_bind avoids_get
  intro s
  dsimp only
  split
  · apply avoids_throw_bind
    nofun
  rcases s.machine.run programs _ none with ⟨result, m⟩
  apply avoids_bind (avoids_modify _)
  intro _
  cases result with
  | error error => exact avoids_throw nofun
  | ok output =>
    dsimp only
    split
    · apply avoids_throw_bind
      nofun
    split
    · apply avoids_throw_bind
      nofun
    split
    · exact avoids_pure _
    · exact avoids_throw nofun

theorem setMachine_avoids (m : Machine) : Avoids (.expression fault) (setMachine m) :=
  avoids_modify _

theorem encrypt_avoids (document : Document) :
    Avoids (.expression fault) (v.encrypt programs e path document) := by
  unfold encrypt
  extract_lets content
  split
  · apply avoids_throw_bind
    nofun
  apply avoids_bind avoids_get
  intro s
  extract_lets m
  split
  · exact avoids_throw nofun
  next disk _ =>
  rcases v.writeEncrypted programs e path content { m with disk } with ⟨result, n⟩
  dsimp only
  split
  · exact setMachine_avoids _
  split
  · apply avoids_bind (setMachine_avoids _)
    intro _
    exact avoids_throw nofun
  · apply avoids_bind (setMachine_avoids _)
    intro _
    exact avoids_throw nofun

theorem load_avoids : Avoids (.expression fault) (v.load programs mode e path) := by
  apply avoids_bind avoids_get
  intro s
  split
  · exact avoids_pure _
  apply avoids_bind checkAborted_avoids
  intro _
  apply avoids_bind decrypt_avoids
  intro document
  apply avoids_bind (avoids_modify _)
  intro _
  exact avoids_pure document

theorem createEntry_avoids (name : String) (document : Document) :
    Avoids (.expression fault) (v.createEntry programs e path name document) := by
  apply avoids_bind avoids_get
  intro s
  apply avoids_bind (avoids_modify _)
  intro _
  apply avoids_bind (encrypt_avoids _)
  intro _
  apply avoids_bind (avoids_modify _)
  intro _
  exact avoids_pure _

theorem entryName_ne_expression (e : Expression) : entryName e ≠ .error (.expression fault) := by
  unfold entryName
  dsimp only
  split <;> simp

theorem filePath_ne_expression (uri : Url) : filePath uri ≠ .error (.expression fault) := by
  unfold filePath
  split
  · simp
  split <;> simp

theorem expand_avoids {args : List String}
    (h : ∀ directory, Expression.parse v.keyword directory v.defaultUri args ≠ .error fault) :
    Avoids (.expression fault) (v.expand programs mode args) := by
  apply avoids_request fun s : Store => h (v.directory.getD s.machine.directory)
  intro e
  apply avoids_bind (avoids_lift (entryName_ne_expression e))
  intro name
  apply avoids_bind (avoids_lift (filePath_ne_expression e.uri))
  intro path
  apply avoids_bind load_avoids
  intro document
  split
  · exact avoids_pure _
  split
  · apply avoids_throw_bind
    nofun
  apply avoids_bind checkAborted_avoids
  intro _
  exact createEntry_avoids name document

theorem servesDefault (v : SopsEnv) (programs : Programs) :
    (v.toVault programs).ServesDefault v.defaultUri where
  takes first more rest h := by
    have htarget : target? v.keyword (first :: "default" :: more :: rest) = some "default" :=
      target?_default h more rest
    have hother (file : String) : startsWithIgnoringCase "default" (uriOf file) = false := by
      simp [startsWithIgnoringCase, uriOf, name, List.isPrefixOf]
    have hany : startsWithIgnoringCase "default" (name ++ ":///") = false := by decide
    change v.canHandle _ = _
    unfold canHandle defaultUri
    rw [htarget]
    cases v.file with
    | none => simp [hany]
    | some file => cases v.isDefault <;> simp [hother]
  avoids hplace args := by
    have hread := Expression.parse_ne_noDefault v.keyword hplace args
    exact avoids_both (v.expand programs · args) fun _ => expand_avoids hread

end SopsEnv

end SecretDotenv.Secret
