import SecretDotenv.Dotenv.ParseError
import SecretDotenv.Machine.Command
import SecretDotenv.Secret.Expression
import SecretDotenv.Text.Blank

/-! Why a vault has no value for a request. -/
namespace SecretDotenv.Secret

open SecretDotenv.Text SecretDotenv.Machine

inductive EncryptError where
  | write (path : Path) (reason : Disk.Error)
  | start (error : CommandError)
  | exit (status stderr : String)
deriving DecidableEq, Repr

inductive VaultError where
  | cancelled
  | expression (error : ExpressionError)
  | command (error : CommandError)
  | absent (key : String)
  | noVault (uri : Url)
  | noSecretName
  | unreadable (name vault stderr : String)
  | unstorable (name vault stderr : String)
  | noLogin (stderr : String)
  | noEntryName
  | noPath (uri : Url)
  | noFile (path : Path)
  | undecryptable (path : Path) (stderr : String)
  | noContent
  | noDocument (path : Path) (error : Dotenv.ParseError)
  | noEntry (name : String)
  | nothingToEncrypt
  | noBackup (reason : Disk.Error)
  | unencrypted (error : EncryptError)
  /-- The file is damaged, and its backup is what is left. -/
  | unrestored (error : EncryptError) (reason : Disk.Error) (backup : Path)
deriving DecidableEq, Repr

def EncryptError.message : EncryptError → String
  | .write path reason => "failed to write " ++ path.display ++ ": " ++ reason.message
  | .start error => error.message
  | .exit status stderr => "sops exited with status " ++ status ++ ": " ++ trim stderr

def VaultError.message : VaultError → String
  | .cancelled => "Expansion was cancelled."
  | .expression error => "Failed to parse the secret expression: " ++ error.message
  | .command error => error.message
  | .absent key => "secret " ++ key ++ " not found"
  | .noVault uri => "The vault name is missing in " ++ uri.text ++ "."
  | .noSecretName =>
    "Secret name cannot be empty. Either use the --name flag or for akv add the name as a path " ++
      "e.g. akv://vault/secret-name."
  | .unreadable name vault stderr =>
    "Failed to expand secret '" ++ name ++ "' from vault '" ++ vault ++ "': " ++ trim stderr
  | .unstorable name vault stderr =>
    "Failed to set secret '" ++ name ++ "' in vault '" ++ vault ++ "': " ++ trim stderr
  | .noLogin stderr => "Azure CLI login failed: " ++ trim stderr
  | .noEntryName =>
    "Secret name cannot be empty. Use the --name option or the 'name' query parameter e.g. " ++
      "sops-env:///path/to/file?name=secretName."
  | .noPath uri => "The path cannot be empty " ++ uri.text ++ "."
  | .noFile path => "The file does not exist: " ++ path.display
  | .undecryptable path stderr => "Failed to decrypt " ++ path.display ++ ": " ++ trim stderr
  | .noContent => "The env file is empty or not found."
  | .noDocument path error => "Failed to parse decrypted " ++ path.display ++ ": " ++ error.display
  | .noEntry name => "The secret '" ++ name ++ "' was not found in the env file."
  | .nothingToEncrypt => "The content to encrypt is empty."
  | .noBackup reason => "Failed to create backup: " ++ reason.message
  | .unencrypted error => "Failed to encrypt the file: " ++ error.message
  | .unrestored error reason backup =>
    "Failed to encrypt the file: " ++ error.message ++ ". Restoring the previous file also failed (" ++
      reason.message ++ "); backup kept at " ++ backup.display

end SecretDotenv.Secret
