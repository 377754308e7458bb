import SecretDotenv.Config.Basic
import SecretDotenv.Text.Pieces

/-! What is wrong with a configuration that can be read. -/
namespace SecretDotenv.Config

open SecretDotenv.Text

inductive Problem where
  | noShell
  | noKeyword
  | noVault
  | noFile
  | relativeFile
deriving DecidableEq, Repr

namespace Problem

def path : Problem → String
  | .noShell => "expansion.useShell"
  | .noKeyword => "expansion.secretsExpression"
  | .noVault => "vaults.azureKeyVault.vaultName"
  | .noFile | .relativeFile => "vaults.sopsEnv.envPath"

def message : Problem → String
  | .noShell => "Shell name cannot be empty"
  | .noKeyword => "Secrets keyword cannot be blank"
  | .noVault => "A default key vault requires a vault name"
  | .noFile => "A default sops vault requires an env path"
  | .relativeFile => "Path must be absolute or start with $CWD or $PWD"

def display (p : Problem) : String :=
  p.path ++ ": " ++ p.message

end Problem

def isAnchored (path : String) : Bool :=
  ["$CWD", "$PWD", "/"].any fun start => start.toList.isPrefixOf path.toList

def KeyVaultSection.problems (s : KeyVaultSection) : List Problem :=
  if s.isDefault && ((s.vaultName.map isBlankText).getD true) then [.noVault] else []

def SopsEnvSection.problems (s : SopsEnvSection) : List Problem :=
  match s.envPath with
  | some path => if isAnchored path then [] else [.relativeFile]
  | none => if s.isDefault then [.noFile] else []

def problems (c : Config) : List Problem :=
  (if isBlankText c.expansion.useShell then [.noShell] else []) ++
    (if isBlankText c.expansion.secretsExpression then [.noKeyword] else []) ++
    ((c.vaults.azureKeyVault.map KeyVaultSection.problems).getD []) ++
    ((c.vaults.sopsEnv.map SopsEnvSection.problems).getD [])

def complaint? (c : Config) : Option String :=
  if c.problems.isEmpty then none
  else
    some ("Configuration validation failed:\n" ++
      "\n".intercalate (c.problems.map Problem.display))

end SecretDotenv.Config
