/-! Searching and cutting text: occurrence, splitting at separators, the first
cut. -/
namespace SecretDotenv.Text

def containsList (part : List Char) : List Char → Bool
  | [] => part.isEmpty
  | c :: rest => part.isPrefixOf (c :: rest) || containsList part rest

def contains (text part : String) : Bool :=
  containsList part.toList text.toList

/-- The pieces of a list between separators; one more than there are separators. -/
def splitOn (isSeparator : Char → Bool) : List Char → List (List Char)
  | [] => [[]]
  | c :: rest =>
    if isSeparator c then [] :: splitOn isSeparator rest
    else match splitOn isSeparator rest with
      | [] => [[c]]
      | first :: more => (c :: first) :: more

def cut (separator : Char) : List Char → Option (List Char × List Char)
  | [] => none
  | c :: rest =>
    if c = separator then some ([], rest)
    else (cut separator rest).map fun (front, back) => (c :: front, back)

/-- The pieces of a text around every occurrence of `part`, found from the front.
`skip` characters belong to an occurrence that was found before. -/
def piecesAround (part : List Char) : (skip : Nat) → List Char → List (List Char)
  | _, [] => [[]]
  | skip + 1, _ :: rest => piecesAround part skip rest
  | 0, c :: rest =>
    if part.isPrefixOf (c :: rest) then [] :: piecesAround part (part.length - 1) rest
    else match piecesAround part 0 rest with
      | [] => [[c]]
      | first :: more => (c :: first) :: more

end SecretDotenv.Text
