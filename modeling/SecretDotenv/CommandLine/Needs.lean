import SecretDotenv.CommandLine.Outcome

/-! What a command line may look at: files, variables of the environment and random
numbers. A run is told all of it beforehand, so that it is a function. -/
namespace SecretDotenv.CommandLine

open SecretDotenv.Text SecretDotenv.Machine

def knownVariables : List String :=
  ["HOME", "PATH", "DOTVAULT_SHELL", "DOTVAULT_SECRETS_EXPRESSION", "DOTVAULT_ENABLE_COMMANDS",
    "DOTVAULT_ENABLE_SECRETS", "DOTVAULT_ENABLE_SHELL", "DOTVAULT_LOG", "AZURE_CLIENT_ID",
    "AZURE_CLIENT_SECRET", "AZURE_TENANT_ID"]

def namesIn (text : String) : List String :=
  let words := splitOn (fun c => !(c.isAlphanum || c = '_')) text.toList
  let quoted := splitOn (fun c => c = '%' || c = '\n') text.toList
  ((words ++ quoted).filter fun name => !name.isEmpty && !name.contains '=' && !name.contains '\x00').map
    String.ofList

def Request.documents : Request → List String
  | .expand request => filesOf request.files
  | .check _ files => filesOf files
  | _ => []

def Request.inputs (env : Environment) (r : Request) : List Path :=
  (match r.configPath with
    | some path => [Path.ofString path]
    | none => Config.searchPaths env) ++
    r.documents.map Path.ofString

def inputs (env : Environment) (words : List String) : List Path :=
  match Invocation.ofArguments words with
  | .ok invocation => invocation.request.inputs env
  | .error _ => []

/-- How many random numbers are ample for a command line: some hundred candidates if a
secret is short, and for a long one, which hardly ever misses a class, a few. -/
def numbers (words : List String) : Nat :=
  match Invocation.ofArguments words with
  | .ok { request := .generate policy, .. } => 8192 + 2 * policy.size
  | .ok { request := .expand _, .. } => 65536
  | _ => 0

end SecretDotenv.CommandLine
