import SecretDotenv.Dotenv.Document

/-! The written form of a document: dotenv text that reads back as the same
document. A value that could be misread stands between double quotes. -/
namespace SecretDotenv.Dotenv

def isBareSafe (c : Char) : Bool :=
  c.isAlphanum || c ∈ ['_', '.', '/', ':', '@', '+', ',', '%', '-']

def escapeChar (c : Char) : List Char :=
  if c = '\\' then ['\\', '\\']
  else if c = '"' then ['\\', '"']
  else if c = '\n' then ['\\', 'n']
  else if c = '\r' then ['\\', 'r']
  else if c = '\t' then ['\\', 't']
  else if c = '\x08' then ['\\', 'b']
  else [c]

def writeValue (value : List Char) : List Char :=
  if value.all isBareSafe then value else '"' :: value.flatMap escapeChar ++ ['"']

def writeNode : Node → List Char
  | .entry e => e.name.toList ++ '=' :: writeValue e.value.toList ++ ['\n']
  | .comment text => '#' :: text.toList ++ ['\n']

def Document.write (d : Document) : String :=
  String.ofList (d.nodes.flatMap writeNode)

end SecretDotenv.Dotenv
