import SecretDotenv.Secret.Effect
import SecretDotenv.Secret.Expression

/-! A vault that holds its secrets in memory, as tests of expansion need one. It
writes down every request, and can end a run when a certain secret is asked for. -/
namespace SecretDotenv.Secret

open SecretDotenv.Machine

structure Table where
  name : String
  keyword : String := defaultKeyword
  scheme : String
  secrets : List (String × String) := []
  synchronous : Bool := false
  isDefault : Bool := false
  /-- The secret that ends the run when it is asked for. -/
  abortOn : Option String := none
deriving DecidableEq, Repr

structure Table.Store where
  log : List String := []
  aborted : Bool := false
deriving DecidableEq, Repr

namespace Table

def canHandle (v : Table) (args : List String) : Bool :=
  match target? v.keyword args with
  | none => false
  | some target =>
    (v.scheme ++ "://").toList.isPrefixOf target.toList || (v.isDefault && target = "default")

def keyOf (args : List String) : String :=
  String.ofList ((args.getD 1 "").toList.reverse.takeWhile (· != '/')).reverse

def expand (v : Table) (args : List String) : Effect Table.Store String := do
  let key := keyOf args
  modify fun s => { s with log := s.log ++ [v.name ++ ":" ++ " ".intercalate args] }
  if v.abortOn = some key then modify fun s => { s with aborted := true }
  match v.secrets.find? (·.1 == key) with
  | some (_, value) => return value
  | none => throw (.absent key)

def expandAsync (v : Table) (args : List String) : Effect Table.Store String := do
  if (← get).aborted then throw .cancelled
  v.expand args

end Table

end SecretDotenv.Secret
