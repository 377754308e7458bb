import SecretDotenv.Machine.Basic
import SecretDotenv.Text.Blank

/-! Random secrets: characters drawn from a pool, and the classes of which a secret
must hold at least one each. -/
namespace SecretDotenv.Secret

open SecretDotenv.Text SecretDotenv.Machine

structure Generator where
  pool : List Char := []
  required : List (List Char) := []
deriving DecidableEq, Repr

namespace Generator

def addChar (pool : List Char) (c : Char) : List Char :=
  if c ∈ pool then pool else pool ++ [c]

def add (g : Generator) (chars : List Char) : Generator :=
  { g with pool := chars.foldl addChar g.pool }

def require (g : Generator) (chars : List Char) : Generator :=
  let g := g.add chars
  if chars.isEmpty then g else { g with required := g.required ++ [chars] }

def satisfies (g : Generator) (candidate : List Char) : Bool :=
  g.required.all fun cls => candidate.any fun c => c ∈ cls

/-- The requirements are checked unless a secret is too short to meet them. -/
def isAcceptable (g : Generator) (candidate : List Char) : Bool :=
  g.required.length > candidate.length || g.satisfies candidate

def candidate (g : Generator) (numbers : List Nat) : List Char :=
  numbers.map fun n => g.pool.getD (n % g.pool.length) '\x00'

/-- A candidate that is always acceptable: one character of each class, then the
first of the pool. -/
def fallback (g : Generator) (size : Nat) : List Char :=
  let first := g.pool.headD '\x00'
  if g.required.length > size then List.replicate size first
  else g.required.map (·.headD first) ++ List.replicate (size - g.required.length) first

/-- Draws candidates until one is acceptable. Each has the same positive chance, so
the bound on their number is out of reach; behind it stands a fixed candidate. -/
def draw (g : Generator) (size : Nat) : (attempts : Nat) → Draws → List Char × Draws
  | 0, draws => (g.fallback size, draws)
  | attempts + 1, draws =>
    let (numbers, draws) := draws.take size
    let candidate := g.candidate numbers
    if g.isAcceptable candidate then (candidate, draws) else g.draw size attempts draws

def generate (g : Generator) (size : Nat) (draws : Draws) : List Char × Draws :=
  if g.pool.isEmpty || size = 0 then ([], draws) else g.draw size 1000000 draws

end Generator

end SecretDotenv.Secret
