import SecretDotenv.Calendar.Instant
import SecretDotenv.Secret.Policy
import SecretDotenv.Text.Numeral
import SecretDotenv.Url.Basic

/-! Requests for a secret: a keyword, the URL of the secret, and flags that say what
it is called and how it is made if there is none. -/
namespace SecretDotenv.Secret

open SecretDotenv.Text SecretDotenv.Machine SecretDotenv.Calendar

inductive ExpressionError where
  | empty
  | noDefault
  | url (text : String)
  | size
  | name
  | chars
  | special
  | expiry
deriving DecidableEq, Repr

def ExpressionError.message : ExpressionError → String
  | .empty => "Expression cannot be empty."
  | .noDefault => "Default URI is not set."
  | .url text => "Invalid URL: " ++ text
  | .size => "Invalid size parameter. Expected an integer value."
  | .name => "Invalid name parameter. Expected a string value."
  | .chars => "Invalid chars parameter. Expected a string value."
  | .special => "Invalid special parameter. Expected a string value."
  | .expiry => "Invalid expires-at parameter. Expected a valid date-time value."

structure Expression where
  uri : Url
  name : Option String := none
  /-- A missing secret is to be made. -/
  create : Bool := false
  policy : Policy := {}
  expiresAt : Option Instant := none
  /-- Everything behind the URL, for flags that only a vault knows. -/
  tokens : List String := []
deriving DecidableEq, Repr

def defaultKeyword : String := "secret"

/-- The argument by which vaults recognise their requests: the URL, or `default`, which is the
second of at least three arguments behind the keyword. -/
def target? (keyword : String) : List String → Option String
  | first :: target :: _ :: _ => if sameIgnoringCase first keyword then some target else none
  | _ => none

namespace Expression

def flagValue (e : Expression) (flag : String) : Option String :=
  match e.tokens.dropWhile (· != flag) with
  | _ :: value :: _ => some value
  | _ => none

/-- Puts a directory in place of a word. A slash before the word and the one that the
directory begins with are one slash. -/
def substituteDirectory (word directory text : List Char) : List Char :=
  match piecesAround word 0 text with
  | [] => []
  | first :: rest => rest.foldl (fun out piece =>
      out ++ (if out.getLast? = some '/' then directory.dropWhile (· = '/') else directory) ++ piece)
      first

/-- The text by which a directory is named in URLs: slashes forward, none at the end. -/
def directoryText (directory : Path) : List Char :=
  let slashed := directory.display.toList.map fun c => if c = '\\' then '/' else c
  (slashed.reverse.dropWhile (· = '/')).reverse

def withDirectory (directory : Path) (text : String) : String :=
  let dir := directoryText directory
  String.ofList
    (substituteDirectory "$PWD".toList dir (substituteDirectory "$CWD".toList dir text.toList))

inductive Switch where
  | upper
  | lower
  | digits
  | create
deriving DecidableEq, Repr

def set (e : Expression) (s : Switch) (on : Bool) : Expression :=
  match s with
  | .upper => { e with policy := { e.policy with upper := on } }
  | .lower => { e with policy := { e.policy with lower := on } }
  | .digits => { e with policy := { e.policy with digits := on } }
  | .create => { e with create := on }

def setSpecial (e : Expression) (special : String) : Expression :=
  { e with policy := { e.policy with special } }

inductive Awaited where
  | flag
  | name
  | size
  | chars
  | expiry
  /-- A value for special characters, and as many more. -/
  | specials (more : Nat)
  /-- Whether the switch is on, or another flag. -/
  | switch (s : Switch)
  | special
deriving DecidableEq, Repr

def readLetter (e : Expression) : Char → Expression
  | 'u' => e.set .upper true
  | 'l' => e.set .lower true
  | 'd' => e.set .digits true
  | 'C' => e.set .create true
  | _ => e

/-- A group of short flags such as `-ulC`; each `s` among them takes a value. -/
def readGroup (e : Expression) (letters : List Char) : Awaited × Expression :=
  let e := letters.foldl readLetter e
  match letters.count 's' with
  | 0 => (.flag, e)
  | more + 1 => (.specials more, e)

def readFlag (e : Expression) (flag : String) : Awaited × Expression :=
  match flag with
  | "-n" | "--name" => (.name, e)
  | "--size" => (.size, e)
  | "--no-upper" => (.flag, e.set .upper false)
  | "--no-lower" => (.flag, e.set .lower false)
  | "--no-digits" => (.flag, e.set .digits false)
  | "--no-special" => (.flag, e.setSpecial "")
  | "--upper" => (.switch .upper, e.set .upper true)
  | "--lower" => (.switch .lower, e.set .lower true)
  | "--digits" => (.switch .digits, e.set .digits true)
  | "--create" => (.switch .create, e.set .create true)
  | "--chars" => (.chars, e)
  | "--special" => (.special, e)
  | "--expires-at" => (.expiry, e)
  | _ =>
    match flag.toList with
    | '-' :: '-' :: _ => (.flag, e)
    | '-' :: letters => e.readGroup letters
    | _ => (.flag, e)

def isOperand (part : String) : Bool :=
  part != "" && part.toList.head? != some '-'

def specialOf (value : String) : String :=
  if sameIgnoringCase value "false" then ""
  else if sameIgnoringCase value "true" then defaultSpecial
  else value

def readArgument (awaited : Awaited) (e : Expression) (part : String) :
    Except ExpressionError (Awaited × Expression) :=
  match awaited with
  | .flag => .ok (e.readFlag part)
  | .name => .ok (.flag, { e with name := some part })
  | .size =>
    match int64? part with
    | some n => .ok (.flag, { e with policy := { e.policy with size := n.toNat } })
    | none => .error .size
  | .chars => .ok (.flag, { e with policy := { e.policy with chars := some part } })
  | .expiry =>
    match Instant.ofString? part with
    | some instant => .ok (.flag, { e with expiresAt := some instant })
    | none => .error .expiry
  | .specials 0 => .ok (.flag, e.setSpecial part)
  | .specials (more + 1) => .ok (.specials more, e.setSpecial part)
  | .switch s =>
    if isOperand part then .ok (.flag, e.set s (sameIgnoringCase part "true"))
    else .ok (e.readFlag part)
  | .special =>
    if isOperand part then .ok (.flag, e.setSpecial (specialOf part)) else .ok (e.readFlag part)

def Awaited.missing? : Awaited → Option ExpressionError
  | .name => some .name
  | .size => some .size
  | .chars => some .chars
  | .expiry => some .expiry
  | .specials _ => some .special
  | .flag | .switch _ | .special => none

def readArguments (awaited : Awaited) (e : Expression) :
    List String → Except ExpressionError Expression
  | [] =>
    match awaited.missing? with
    | some fault => .error fault
    | none => .ok e
  | part :: rest =>
    match readArgument awaited e part with
    | .ok (awaited, e) => readArguments awaited e rest
    | .error fault => .error fault

def dropKeyword (keyword : String) : List String → List String
  | first :: rest =>
    if sameIgnoringCase first keyword || sameIgnoringCase first defaultKeyword then rest
    else first :: rest
  | [] => []

/-- Reads an argument vector. `default` stands for `defaultUri`, and `$CWD` and `$PWD`
inside the URL for the working directory. -/
def parse (keyword : String) (directory : Path) (defaultUri : Option String) (args : List String) :
    Except ExpressionError Expression :=
  match dropKeyword keyword args with
  | [] => .error .empty
  | target :: rest =>
    if isBlankText target then .error .empty
    else
      match (if sameIgnoringCase target "default" then defaultUri else some target) with
      | none => .error .noDefault
      | some location =>
        match Url.ofString? (withDirectory directory location) with
        | none => .error (.url target)
        | some uri => readArguments .flag { uri, tokens := rest } rest

end Expression

end SecretDotenv.Secret
