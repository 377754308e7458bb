import SecretDotenv.Text.Blank

/-! Splitting a line into arguments. White space separates them; a quote at the
start of an argument runs to the same quote and neither is part of it; a
backslash or grave accent right before a line break joins two lines. -/
namespace SecretDotenv.Arguments

open SecretDotenv.Text

/-- Ends an argument, read last character first; an empty one is none. -/
def emit (word : List Char) (more : List (List Char)) : List (List Char) :=
  if word.isEmpty then more else word.reverse :: more

/-- The arguments of the rest of a line, `word` of the current one being read and
`quote` open in it. -/
def splitFrom : (quote : Option Char) → (word : List Char) → List Char → List (List Char)
  | _, word, [] => emit word []
  | some q, word, c :: rest =>
    if c = q then emit word (splitFrom none [] rest) else splitFrom (some q) (c :: word) rest
  | none, [], '\\' :: '\n' :: rest => splitFrom none [] rest
  | none, [], '\\' :: '\r' :: '\n' :: rest => splitFrom none [] rest
  | none, [], '\x60' :: '\n' :: rest => splitFrom none [] rest
  | none, [], '\x60' :: '\r' :: '\n' :: rest => splitFrom none [] rest
  | none, word, c :: rest =>
    if isBlank c then emit word (splitFrom none [] rest)
    else if word.isEmpty && (c = '\'' || c = '"') then splitFrom (some c) [] rest
    else splitFrom none (c :: word) rest

def splitChars (text : List Char) : List (List Char) :=
  splitFrom none [] text

def split (text : String) : List String :=
  (splitChars text.toList).map String.ofList

end SecretDotenv.Arguments
