import SecretDotenv.Machine.Disk
import SecretDotenv.Text.Ascii

/-! Commands: what is run, what comes of it, and how a script is given to a shell. -/
namespace SecretDotenv.Machine

open SecretDotenv.Text

structure Command where
  program : String
  args : List String := []
  /-- Variables put over those of the environment, later ones over earlier ones. -/
  overrides : List (String × String) := []
  directory : Option Path := none
deriving DecidableEq, Repr

/-- The program and its first argument; the others may be secrets. -/
def Command.summary (c : Command) : String :=
  match c.args with
  | [] => c.program
  | first :: rest => c.program ++ " " ++ first ++ " (+" ++ toString rest.length ++ " args)"

structure Output where
  code : Option Nat := some 0
  stdout : String := ""
  stderr : String := ""
deriving DecidableEq, Repr

def Output.success (o : Output) : Bool :=
  o.code = some 0

def Output.status (o : Output) : String :=
  match o.code with
  | some code => toString code
  | none => "signal"

inductive StartError where
  | disk (error : Disk.Error)
  | zeroByte
deriving DecidableEq, Repr

def StartError.message : StartError → String
  | .disk error => error.message
  | .zeroByte => "nul byte found in provided data"

/-- Why a command has no output. Limits are in milliseconds. -/
inductive CommandError where
  | start (program : String) (reason : StartError)
  | timeout (program : String) (limit : Nat)
deriving DecidableEq, Repr

def CommandError.message : CommandError → String
  | .start program reason => "failed to start '" ++ program ++ "': " ++ reason.message
  | .timeout program limit => "'" ++ program ++ "' timed out after " ++ toString (limit / 1000) ++ "s"

def shellName (shell : String) : String :=
  lower (((Path.ofString shell).stem?).getD "")

def isPowerShell (shell : String) : Bool :=
  shellName shell = "pwsh" || shellName shell = "powershell"

/-- The command that runs a script: no start files, and in `bash` the first failure,
also inside a pipeline, ends it. -/
def shellCommand (shell script : String) : Command :=
  let args :=
    if isPowerShell shell then
      ["-NoLogo", "-NoProfile", "-NonInteractive", "-ExecutionPolicy", "Bypass", "-Command", script]
    else if shellName shell = "bash" then
      ["-noprofile", "--norc", "-e", "-o", "pipefail", "-c", script]
    else ["-c", script]
  { program := shell, args }

end SecretDotenv.Machine
