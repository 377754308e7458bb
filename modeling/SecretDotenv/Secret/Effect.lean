import SecretDotenv.Secret.VaultError

/-! What a vault does: it reads and changes a state, and ends with a value or a reason
why there is none. A failure keeps the state as it was when it happened. -/
namespace SecretDotenv.Secret

abbrev Effect (σ α : Type) := ExceptT VaultError (StateM σ) α

/-- How a call treats a run that was told to stop. -/
inductive Mode where
  /-- Goes on. -/
  | blocking
  /-- Stops before the next command. -/
  | cooperative
deriving DecidableEq, Repr

namespace Effect

def lift {σ α : Type} (e : Except VaultError α) : Effect σ α :=
  match e with
  | .ok a => pure a
  | .error e => throw e

def within {σ τ α : Type} (view : τ → σ) (update : σ → τ → τ) (e : Effect σ α) : Effect τ α :=
  fun t =>
    let (result, s) := e (view t)
    (result, update s t)

/-- Ends the call if the run was told to stop and the call cares. -/
def checkAborted {σ : Type} (aborted : σ → Bool) (mode : Mode) : Effect σ Unit := do
  if mode = .cooperative && aborted (← get) then throw .cancelled

/-- The value or failure, and the state behind it. -/
def outcome {σ α : Type} (e : Effect σ α) (s : σ) : Except VaultError α × σ :=
  e s

end Effect

end SecretDotenv.Secret
