import SecretDotenv.Expansion.Template
import SecretDotenv.Secret.Vault

/-! What a run of expansion is given: which constructs are on, and where values come
from. -/
namespace SecretDotenv.Expansion

open SecretDotenv.Machine SecretDotenv.Secret

structure Options where
  /-- `$1` is a positional argument. -/
  unixArgs : Bool := false
  /-- `%NAME%` is a reference. -/
  windowsVariables : Bool := false
  /-- `$(...)` runs a command. -/
  commands : Bool := false
  /-- `$(secret ...)` asks a vault. -/
  secrets : Bool := false
  shell : Bool := false
  /-- Which shell; a blank text stands for `bash`. -/
  useShell : String := "bash"
  keyword : String := defaultKeyword
  /-- Asked after the document and before the environment. -/
  bindings : List (String × String) := []
  args : List String := []
  /-- Milliseconds that a command may take in a run that can be stopped. -/
  limit : Option Nat := some 300000
deriving DecidableEq, Repr

def Options.switches (o : Options) : Switches :=
  { arguments := o.unixArgs, percents := o.windowsVariables, captures := o.commands || o.secrets }

/-- The world that values come from. What it changes in is a state of type `σ`. -/
structure Context (σ : Type) where
  options : Options
  /-- The first that takes a request answers it. -/
  vaults : List (Vault σ)
  environment : Environment
  run : Command → (limit : Option Nat) → σ → Except CommandError Output × σ
  aborted : σ → Bool

end SecretDotenv.Expansion
