import SecretDotenv.Text.Pieces

/-! The words and operators of a shell script. What stands in quotes is text and
nothing else; variables and captures outside of single quotes are put in later. -/
namespace SecretDotenv.Shell

open SecretDotenv.Text

inductive Part where
  | text (text : List Char) (quoted : Bool)
  | variable (name : String) (otherwise : List Char) (quoted : Bool)
  | capture (script : List Char) (quoted : Bool)
deriving DecidableEq, Repr

abbrev Word := List Part

inductive SyntaxError where
  | openQuote (mark : Char)
  | unexpected (text : String)
  | unexpectedEnd
deriving DecidableEq, Repr

inductive Lexeme where
  | word (word : Word)
  | operator (text : String)
  /-- `>`, `>>`, `<`, `>&` or `&>`, and the number in front of it. -/
  | redirect (stream : Option Nat) (text : String)
  | fault (error : SyntaxError)
deriving DecidableEq, Repr

namespace Lexeme

def isBlank (c : Char) : Bool :=
  c = ' ' || c = '\t'

def endsWord (c : Char) : Bool :=
  isBlank c || c ∈ ['\n', ';', '&', '|', '<', '>', '(', ')']

def isNamePart (c : Char) : Bool :=
  c.isAlphanum || c = '_'

def captureBody (depth : Nat) (quote : Option Char) :
    List Char → Option (List Char × List Char)
  | [] => none
  | c :: rest =>
    let go (depth : Nat) (quote : Option Char) : Option (List Char × List Char) :=
      (captureBody depth quote rest).map fun (body, after) => (c :: body, after)
    match quote with
    | some q => if c = q then go depth none else go depth quote
    | none =>
      if c = '\'' || c = '"' then go depth (some c)
      else if c = '(' then go (depth + 1) none
      else if c = ')' then if depth = 0 then some ([], rest) else go (depth - 1) none
      else go depth none

/-- The inside of `${...}`: a name, and a value for a missing one behind `-` or `:-`. -/
def braced (body : List Char) (quoted : Bool) : Part :=
  let name := body.takeWhile isNamePart
  let otherwise := match body.dropWhile isNamePart with
    | ':' :: '-' :: value => value
    | '-' :: value => value
    | _ => []
  .variable (String.ofList name) otherwise quoted

def afterDollar (quoted : Bool) : List Char → Except SyntaxError (Part × List Char)
  | '(' :: rest =>
    match captureBody 0 none rest with
    | some (body, after) => .ok (.capture body quoted, after)
    | none => .error .unexpectedEnd
  | '\x7b' :: rest =>
    match cut '\x7d' rest with
    | some (body, after) => .ok (braced body quoted, after)
    | none => .error .unexpectedEnd
  | c :: rest =>
    if c.isAlpha || c = '_' then
      .ok (.variable (String.ofList (c :: rest.takeWhile isNamePart)) [] quoted,
        rest.dropWhile isNamePart)
    else if c.isDigit || c ∈ ['$', '?', '#', '@', '*', '!'] then
      .ok (.variable c.toString [] quoted, rest)
    else .ok (.text ['$'] true, c :: rest)
  | [] => .ok (.text ['$'] true, [])

/-- Reads up to the closing double quote. The fuel is at least the length of the text. -/
def doubleQuoted : (fuel : Nat) → List Char → Except SyntaxError (Word × List Char)
  | 0, _ => .error (.openQuote '"')
  | fuel + 1, s => do
    match s with
    | [] => .error (.openQuote '"')
    | '"' :: rest => return ([.text [] true], rest)
    | '\\' :: '\n' :: rest => doubleQuoted fuel rest
    | '\\' :: c :: rest =>
      let (more, after) ← doubleQuoted fuel rest
      let text := if c ∈ ['$', '\x60', '"', '\\'] then [c] else ['\\', c]
      return (.text text true :: more, after)
    | '$' :: rest =>
      let (part, rest) ← afterDollar true rest
      let (more, after) ← doubleQuoted fuel rest
      return (part :: more, after)
    | '\x60' :: rest =>
      match cut '\x60' rest with
      | some (body, rest) =>
        let (more, after) ← doubleQuoted fuel rest
        return (.capture body true :: more, after)
      | none => .error (.openQuote '\x60')
    | c :: rest =>
      let (more, after) ← doubleQuoted fuel rest
      return (.text [c] true :: more, after)

def readWord : (fuel : Nat) → List Char → Except SyntaxError (Word × List Char)
  | 0, s => .ok ([], s)
  | fuel + 1, s => do
    match s with
    | [] => return ([], [])
    | '\\' :: '\n' :: rest => readWord fuel rest
    | '\\' :: c :: rest =>
      let (more, after) ← readWord fuel rest
      return (.text [c] true :: more, after)
    | '\'' :: rest =>
      match cut '\'' rest with
      | some (body, rest) =>
        let (more, after) ← readWord fuel rest
        return (.text body true :: more, after)
      | none => .error (.openQuote '\'')
    | '"' :: rest =>
      let (parts, rest) ← doubleQuoted (fuel + 1) rest
      let (more, after) ← readWord fuel rest
      return (parts ++ more, after)
    | '$' :: rest =>
      let (part, rest) ← afterDollar false rest
      let (more, after) ← readWord fuel rest
      return (part :: more, after)
    | '\x60' :: rest =>
      match cut '\x60' rest with
      | some (body, rest) =>
        let (more, after) ← readWord fuel rest
        return (.capture body false :: more, after)
      | none => .error (.openQuote '\x60')
    | c :: rest =>
      if endsWord c then return ([], c :: rest)
      else
        let (more, after) ← readWord fuel rest
        return (.text [c] false :: more, after)

def merged : Word → Word
  | .text a qa :: rest =>
    match merged rest with
    | .text b qb :: more => if qa = qb then .text (a ++ b) qa :: more else .text a qa :: .text b qb :: more
    | more => .text a qa :: more
  | part :: rest => part :: merged rest
  | [] => []

def all : (fuel : Nat) → List Char → List Lexeme
  | 0, _ => []
  | fuel + 1, s =>
    match s with
    | [] => []
    | '\\' :: '\n' :: rest => all fuel rest
    | '\n' :: rest => .operator "\n" :: all fuel rest
    | '#' :: rest => all fuel (rest.dropWhile (· != '\n'))
    | '&' :: '&' :: rest => .operator "&&" :: all fuel rest
    | '|' :: '|' :: rest => .operator "||" :: all fuel rest
    | '&' :: '>' :: rest => .redirect none "&>" :: all fuel rest
    | '>' :: '>' :: rest => .redirect none ">>" :: all fuel rest
    | '>' :: '&' :: rest => .redirect none ">&" :: all fuel rest
    | '>' :: rest => .redirect none ">" :: all fuel rest
    | '<' :: rest => .redirect none "<" :: all fuel rest
    | c :: rest =>
      if isBlank c then all fuel rest
      else if c ∈ [';', '&', '|', '(', ')'] then .operator c.toString :: all fuel rest
      else
        match readWord (s.length + 1) s with
        | .error e => [.fault e]
        | .ok (w, after) =>
          match merged w, all fuel after with
          | [.text digits false], .redirect none text :: more =>
            if digits.all Char.isDigit && (after.head? = some '>' || after.head? = some '<') then
              .redirect (some (digits.foldl (fun n d => 10 * n + (d.toNat - 48)) 0)) text :: more
            else .word [.text digits false] :: .redirect none text :: more
          | w, more => .word w :: more

def ofScript (script : String) : List Lexeme :=
  all (script.length + 1) script.toList

end Lexeme

end SecretDotenv.Shell
