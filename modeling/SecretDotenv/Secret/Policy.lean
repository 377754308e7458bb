import SecretDotenv.Secret.Generator

/-! What a generated secret looks like: its length and its classes of characters. -/
namespace SecretDotenv.Secret

open SecretDotenv.Text SecretDotenv.Machine

def upperCase : String := "ABCDEFGHIJKLMNOPQRSTUVWXYZ"
def lowerCase : String := "abcdefghijklmnopqrstuvwxyz"
def digits : String := "0123456789"

def defaultSpecial : String := "@#~\x60_-[]|:^"

def defaultSize : Nat := 16

structure Policy where
  /-- Zero stands for the default size. -/
  size : Nat := defaultSize
  upper : Bool := true
  lower : Bool := true
  digits : Bool := true
  /-- A blank text switches special characters off. -/
  special : String := defaultSpecial
  /-- A pool instead of the classes, unless blank. -/
  chars : Option String := none
deriving DecidableEq, Repr

namespace Policy

def effectiveSize (p : Policy) : Nat :=
  if p.size = 0 then defaultSize else p.size

def pool? (p : Policy) : Option String :=
  p.chars.filter fun chars => !isBlankText chars

def classes (p : Policy) : List (List Char) :=
  (if p.upper then [upperCase.toList] else []) ++
    (if p.lower then [lowerCase.toList] else []) ++
    (if p.digits then [Secret.digits.toList] else []) ++
    (if isBlankText p.special then [] else [p.special.toList])

/-- Every class is on, and then none of them must occur. -/
def isOpen (p : Policy) : Bool :=
  p.upper && p.lower && p.digits && !isBlankText p.special

def generator (p : Policy) : Generator :=
  match p.pool? with
  | some chars => ({} : Generator).add chars.toList
  | none =>
    let g : Generator :=
      if p.isOpen then p.classes.foldl Generator.add {} else p.classes.foldl Generator.require {}
    if g.pool.isEmpty then
      ((g.add upperCase.toList).add lowerCase.toList).add Secret.digits.toList
    else g

def generate (p : Policy) (draws : Draws) : String × Draws :=
  let (chars, draws) := p.generator.generate p.effectiveSize draws
  (String.ofList chars, draws)

end Policy

end SecretDotenv.Secret
