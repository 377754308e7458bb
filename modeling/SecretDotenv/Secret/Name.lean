import SecretDotenv.Text.Blank

/-! The names that vaults give to secrets, made from the names that people write,
and the preview of a secret that may be shown. -/
namespace SecretDotenv.Secret

open SecretDotenv.Text

/-- Cloud vaults take ASCII letters, digits and hyphens; anything else becomes a hyphen. -/
def vaultName (name : String) : String :=
  String.ofList ((trimChars name.toList).map fun c => if c.isAlphanum || c = '-' then c else '-')

def isSeparator (c : Char) : Bool :=
  c ∈ ['-', ' ', '_', '.', '/', ':', '\\']

/-- Letters in upper case, separators as underscores; `started` is false until the
name has a character, and leading separators are dropped until then. -/
def variableNameFrom (started : Bool) : List Char → List Char
  | [] => []
  | c :: rest =>
    if isSeparator c then
      if started then '_' :: variableNameFrom true rest else variableNameFrom false rest
    else if c.isAlphanum then c.toUpper :: variableNameFrom true rest
    else variableNameFrom started rest

def variableName (name : String) : String :=
  String.ofList (variableNameFrom false name.toList)

def preview (secret : String) : String :=
  let s := secret.toList
  if s.length ≤ 6 then "***"
  else String.ofList (s.take 2) ++ "…" ++ String.ofList (s.drop (s.length - 2))

end SecretDotenv.Secret
