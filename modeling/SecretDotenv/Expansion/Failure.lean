import SecretDotenv.Secret.VaultError

/-! Why a value cannot be expanded, and where. -/
namespace SecretDotenv.Expansion

open SecretDotenv.Text SecretDotenv.Machine SecretDotenv.Secret

inductive Failure.Kind where
  | badSubstitution
  | unsetVariable
  | unterminatedCapture
  | secretVault
  | process
  | cancelled
deriving DecidableEq, Repr

inductive Failure.Cause where
  | unterminated (close : Char) (opened : String)
  | unset (name : String)
  | unsetAs (message : String)
  | noName
  | emptyName
  | badName (name : String)
  | badIndex (digits : String)
  | noScript
  | noVault
  | vault (error : VaultError)
  | command (error : CommandError)
  | exit (program status stderr : String)
  | cancelled
deriving DecidableEq, Repr

def Failure.Cause.kind : Failure.Cause → Failure.Kind
  | .unterminated _ _ => .unterminatedCapture
  | .unset _ | .unsetAs _ => .unsetVariable
  | .noName | .emptyName | .badName _ | .badIndex _ | .noScript => .badSubstitution
  | .vault .cancelled | .cancelled => .cancelled
  | .noVault | .vault _ => .secretVault
  | .command _ | .exit .. => .process

/-- The position is that of the first character of the construct that fails. -/
structure Failure where
  cause : Failure.Cause
  position : Nat
deriving DecidableEq, Repr

namespace Failure

def kind (f : Failure) : Kind :=
  f.cause.kind

def message (f : Failure) : String :=
  match f.cause with
  | .unterminated close opened =>
    "Bad substitution, missing closing token '" ++ close.toString ++ "' for '" ++ opened ++
      "' at position " ++ toString f.position ++ "."
  | .unset name => "Bad substitution, variable " ++ name ++ " is not set."
  | .unsetAs message => message
  | .noName => "$\x7b\x7d is a bad substitution. Variable name not provided."
  | .emptyName => "Bad substitution, empty variable name."
  | .badName name => "Bad substitution, invalid variable name " ++ name ++ "."
  | .badIndex digits => "Bad substitution, invalid index " ++ digits ++ "."
  | .noScript => "$() is a bad substitution. Expression not provided."
  | .noVault => "No secret vault expanders configured."
  | .vault error => error.message
  | .command error => error.message
  | .exit program status stderr =>
    "Command '" ++ program ++ "' exited with status " ++ status ++ ": " ++ trim stderr
  | .cancelled => "Expansion was cancelled."

end Failure

end SecretDotenv.Expansion
