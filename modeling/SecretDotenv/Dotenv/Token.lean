import SecretDotenv.Text.Ascii
import SecretDotenv.Text.Numeral

/-! The tokens of dotenv text: names, comments and the values that follow
names, each with the position where it starts. -/
namespace SecretDotenv.Dotenv

open SecretDotenv.Text

/-- A place in a text; lines and columns count from one, columns in characters. -/
structure Position where
  line : Nat := 1
  column : Nat := 1
deriving DecidableEq, Repr

def Position.after (p : Position) (c : Char) : Position :=
  if c = '\n' then { line := p.line + 1, column := 1 } else { p with column := p.column + 1 }

def Position.over (p : Position) (text : List Char) : Position :=
  text.foldl Position.after p

inductive Quote where
  | bare
  | double
  | single
  | backtick
deriving DecidableEq, Repr

inductive TokenKind where
  | name
  | string (quote : Quote)
  | number
  | boolean
  | null
  | comment
  | json
  | yaml
deriving DecidableEq, Repr

def TokenKind.isValue : TokenKind → Bool
  | .name | .comment => false
  | _ => true

structure Token where
  kind : TokenKind
  text : String
  position : Position
deriving DecidableEq, Repr

/-- Spelled with the characters of numbers, and a number: the words for infinity
and for no number are strings. -/
def isNumberLiteral (s : List Char) : Bool :=
  s.all (fun c => c.isDigit || c ∈ ['+', '-', '.', 'e', 'E']) && isDecimal s

/-- The kind of an unquoted value: null, then boolean, then number, else string. -/
def scalarKind (text : String) : TokenKind :=
  if sameIgnoringCase text "null" then .null
  else if sameIgnoringCase text "true" || sameIgnoringCase text "false" then .boolean
  else if isNumberLiteral text.toList then .number
  else .string .bare

def Token.scalar (text : String) (position : Position) : Token :=
  { kind := scalarKind text, text, position }

end SecretDotenv.Dotenv
