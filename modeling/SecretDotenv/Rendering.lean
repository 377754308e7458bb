import SecretDotenv.Dotenv.Written
import SecretDotenv.Json.Written

/-! What a document is printed as: dotenv text, one JSON object, or commands for
a shell. Comments survive in dotenv text only. -/
namespace SecretDotenv

inductive Rendering where
  | dotenv
  | json
  | exports
deriving DecidableEq, Repr

namespace Rendering

open Dotenv

/-- A literal for a shell. Nothing ends single quotes but a single quote, which is
written outside of them behind a backslash. -/
def shellQuoted (text : List Char) : List Char :=
  '\'' :: text.flatMap (fun c => if c = '\'' then ['\'', '\\', '\'', '\''] else [c]) ++ ['\'']

def exportLine (e : Entry) : List Char :=
  "export ".toList ++ e.name.toList ++ '=' :: shellQuoted e.value.toList ++ ['\n']

/-- The value of each name, in the order of the names; the last entry of a name wins. -/
def valuesByName (d : Document) : List (String × String) :=
  Json.sortedFields d.pairs

def render (d : Document) : Rendering → String
  | .dotenv => d.write
  | .json => (Json.object ((valuesByName d).map fun (k, v) => (k, .string v))).pretty ++ "\n"
  | .exports => String.ofList (d.entries.flatMap exportLine)

end Rendering

end SecretDotenv
