import SecretDotenv.Arguments
import SecretDotenv.Dotenv.Document
import SecretDotenv.Expansion.Options

/-! Expansion of one value, piece by piece from left to right. Each piece sees what the
pieces before it have done: a default that was assigned, a secret that was made. -/
namespace SecretDotenv.Expansion

open SecretDotenv.Text SecretDotenv.Machine SecretDotenv.Secret SecretDotenv.Dotenv

structure Progress (σ : Type) where
  document : Document
  world : σ

/-- A step can fail; what it has done until then is done. -/
abbrev Step (σ α : Type) := ExceptT Failure.Cause (StateM (Progress σ)) α

inductive Request (σ : Type) where
  | literal (text : String)
  | vault (vault : Vault σ) (args : List String)
  | command (command : Command)

namespace Context

variable {σ : Type}

/-- The document, then the variables of the run, then the environment. -/
def lookup (cx : Context σ) (document : Document) (name : String) : Option String :=
  ((document.get? name).orElse fun _ => (cx.options.bindings.find? (·.1 == name)).map (·.2)).orElse
    fun _ => cx.environment.get? name

def isSecret (cx : Context σ) : List String → Bool
  | first :: _ => sameIgnoringCase first cx.options.keyword
  | [] => false

def shell (cx : Context σ) : String :=
  if isBlankText cx.options.useShell then "bash" else cx.options.useShell

/-- Decides what a capture asks for, without asking. -/
def request (cx : Context σ) (script : String) : Except Failure.Cause (Request σ) :=
  let args := Arguments.split script
  if cx.isSecret args then
    if cx.options.secrets then
      match cx.vaults.find? (·.canHandle args) with
      | some vault => .ok (.vault vault args)
      | none => .error .noVault
    else .error .noVault
  else if !cx.options.commands then .ok (.literal ("$(" ++ script ++ ")"))
  else if cx.options.shell then .ok (.command (shellCommand cx.shell script))
  else
    match args with
    | program :: args => .ok (.command { program, args })
    | [] => .error .noScript

def commandValue (c : Command) : Except CommandError Output → Except Failure.Cause String
  | .error e => .error (.command e)
  | .ok output =>
    if output.success then .ok (trim output.stdout)
    else .error (.exit c.program output.status output.stderr)

def onWorld {ε α : Type} (wrap : ε → Failure.Cause) (act : σ → Except ε α × σ) : Step σ α :=
  fun p =>
    let (result, world) := act p.world
    (result.mapError wrap, { p with world })

def askVault (mode : Mode) (vault : Vault σ) (args : List String) : Step σ String :=
  let act := if mode = .blocking || vault.synchronous then vault.expand args else vault.expandAsync args
  onWorld .vault act.outcome

/-- A limit holds only in runs that can be stopped. -/
def runCommand (cx : Context σ) (mode : Mode) (c : Command) : Step σ String :=
  let limit := if mode = .blocking then none else cx.options.limit
  onWorld id fun world =>
    let (result, world) := cx.run c limit world
    (commandValue c result, world)

/-- In a run that was told to stop, nothing is asked any more. -/
def resolve (cx : Context σ) (mode : Mode) (script : String) : Step σ String := do
  match cx.request script with
  | .error cause => throw cause
  | .ok (.literal text) => return text
  | .ok (.vault vault args) =>
    if mode = .cooperative && cx.aborted (← get).world then throw .cancelled
    askVault mode vault args
  | .ok (.command c) =>
    if mode = .cooperative && cx.aborted (← get).world then throw .cancelled
    cx.runCommand mode c

def withoutValue (name : String) : Otherwise → Step σ String
  | .fail none => throw (.unset name)
  | .fail (some message) => throw (.unsetAs message)
  | .use value => return value
  | .assign value => do
    modify fun p => { p with document := p.document.set name value }
    return value

def argument (cx : Context σ) (digits : String) : Step σ String :=
  match (nat64? digits).bind fun index => cx.options.args[index]? with
  | some value => return value
  | none => throw (.badIndex digits)

def expandPiece (cx : Context σ) (mode : Mode) : Piece → Step σ String
  | .text text => return text
  | .reference name otherwise => do
    match cx.lookup (← get).document name with
    | some value => return value
    | none => withoutValue name otherwise
  | .argument digits => cx.argument digits
  | .capture script => cx.resolve mode script
  | .fault cause => throw cause

/-- Appends the values of pieces to `done`; the first failure ends it, and is placed
where its piece begins. -/
def expandPieces (cx : Context σ) (mode : Mode) (done : String) :
    List Placed → Progress σ → Except Failure String × Progress σ
  | [], p => (.ok done, p)
  | placed :: rest, p =>
    match cx.expandPiece mode placed.piece p with
    | (.ok value, p) => cx.expandPieces mode (done ++ value) rest p
    | (.error cause, p) => (.error { cause, position := placed.position }, p)

def expandValue (cx : Context σ) (mode : Mode) (raw : String) (p : Progress σ) :
    Except Failure String × Progress σ :=
  cx.expandPieces mode "" (pieces cx.options.switches raw) p

end Context

end SecretDotenv.Expansion
