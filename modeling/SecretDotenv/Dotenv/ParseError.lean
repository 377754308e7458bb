import SecretDotenv.Dotenv.Token

/-! Why dotenv text cannot be read, and the sentences that say so. -/
namespace SecretDotenv.Dotenv

inductive Capture where
  | double
  | single
  | backtick
  | json
  | yaml
deriving DecidableEq, Repr

def Capture.describe : Capture → String
  | .double => "double-quoted"
  | .single => "single-quoted"
  | .backtick => "backtick"
  | .json => "JSON"
  | .yaml => "YAML"

inductive ParseError.Cause where
  | missingName
  | badCharacter (c : Char)
  /-- A name character behind the white space that ended the name. -/
  | nameResumed (c : Char)
  /-- A name that runs into a line break or the end. -/
  | missingAssignment (name : String)
  | orphanValue
  | unterminatedCapture (capture : Capture) (startLine : Nat)
  | unterminatedEscape
deriving DecidableEq, Repr

structure ParseError where
  cause : ParseError.Cause
  position : Position
deriving DecidableEq, Repr

def ParseError.message (e : ParseError) : String :=
  let line := toString e.position.line
  let column := toString e.position.column
  match e.cause with
  | .missingName => "The environment variable name is missing on line " ++ line
  | .badCharacter c =>
    "Unexpected character '" ++ c.toString ++ "' on line " ++ line ++ ", col " ++ column ++
      " for environment variable name"
  | .nameResumed c =>
    "Unexpected character '" ++ c.toString ++ "' on line " ++ line ++ ", col " ++ column ++
      " after environment variable name was terminated with whitespace"
  | .missingAssignment name =>
    "Unexpected " ++ name ++ " token on line " ++ line ++
      ", missing value or assignment token '='"
  | .orphanValue => "Unexpected value token on line " ++ line ++ ", missing name"
  | .unterminatedCapture capture startLine =>
    "Unexpected end of input while capturing " ++ capture.describe ++
      " value that started on line " ++ toString startLine
  | .unterminatedEscape => "Unexpected end of input inside a \\u escape sequence"

def ParseError.display (e : ParseError) : String :=
  e.message ++ " (line " ++ toString e.position.line ++ ", column " ++
    toString e.position.column ++ ")"

end SecretDotenv.Dotenv
