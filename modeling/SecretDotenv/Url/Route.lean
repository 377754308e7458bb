import SecretDotenv.Url.Percent

/-! The way that a URL names behind its host. It is resolved while it is read: a
dot stays where it is, two dots go up, and neither is kept. -/
namespace SecretDotenv.Url

open SecretDotenv.Text

inductive Route where
  | plain (text : String)
  | segments (parts : List String)
deriving DecidableEq, Repr

def Route.text : Route → String
  | .plain text => text
  | .segments parts => String.join (parts.map ("/" ++ ·))

namespace Route

def isHere (part : List Char) : Bool :=
  part.map Char.toLower ∈ [".".toList, "%2e".toList]

def isUp (part : List Char) : Bool :=
  part.map Char.toLower ∈ ["..".toList, ".%2e".toList, "%2e.".toList, "%2e%2e".toList]

def isDrive : List Char → Bool
  | [letter, mark] => letter.isAlpha && (mark = ':' || mark = '|')
  | _ => false

def up (parts : List (List Char)) : List (List Char) :=
  match parts.getLast? with
  | some last => if isDrive last then parts else parts.dropLast
  | none => []

/-- In front of a way on a local disk may stand a drive, and then it ends there. -/
def withDrive : List Char → List (List Char)
  | [letter, mark] => if isDrive [letter, mark] then [[letter, ':']] else [[letter, mark]]
  | letter :: ':' :: rest => if letter.isAlpha then [[letter, ':'], rest] else [letter :: ':' :: rest]
  | part => [part]

def step (isLocal : Bool) (parts : List (List Char)) (part : List Char) : List (List Char) :=
  if isUp part then up parts
  else if isHere part then parts
  else if isLocal && parts.isEmpty then parts ++ withDrive part
  else parts ++ [part]

/-- All parts in order; a way that ends in dots ends in a directory. -/
def walk (isLocal : Bool) (parts : List (List Char)) : List (List Char) → List (List Char)
  | [] => parts
  | [last] =>
    if isUp last || isHere last then step isLocal parts last ++ [[]] else step isLocal parts last
  | part :: rest => walk isLocal (step isLocal parts part) rest

def namesDrive (parts : List (List Char)) : List (List Char) → Bool
  | [] => false
  | part :: rest => (parts.isEmpty && isDrive part) || namesDrive (step true parts part) rest

def withoutEmptyStart (parts : List (List Char)) : List (List Char) :=
  match parts.dropWhile List.isEmpty with
  | [] => [[]]
  | rest => rest

def ofParts (parts : List (List Char)) : Route :=
  .segments (parts.map String.ofList)

end Route

end SecretDotenv.Url
