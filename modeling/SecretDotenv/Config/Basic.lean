import SecretDotenv.Config.Level
import SecretDotenv.Dotenv.Reader
import SecretDotenv.Expansion.Options

/-! The configuration of the program and the vaults that it sets up. -/
namespace SecretDotenv

open Dotenv Secret Machine

namespace Config

structure ExpansionSection where
  enableUnixArgs : Bool := false
  enableWindowsVariables : Bool := false
  enableCommandSubstitution : Bool := false
  enableSecretSubstitution : Bool := false
  enableShellExecution : Bool := false
  useShell : String := "bash"
  secretsExpression : String := defaultKeyword
  /-- Seconds that a command may take; zero for no limit. -/
  commandTimeoutSecs : Nat := 300
  bindings : List (String × String) := []
deriving DecidableEq, Repr

structure KeyVaultSection where
  azPath : Option String := none
  vaultName : Option String := none
  isDefault : Bool := false
  autoLogin : Bool := false
  managedIdentity : Bool := false
  useDeviceCode : Bool := false
  clientId : Option String := none
  clientSecret : Option String := none
  tenantId : Option String := none
deriving DecidableEq, Repr

structure SopsEnvSection where
  sopsPath : Option String := none
  envPath : Option String := none
  sopsConfigPath : Option String := none
  ageKeyFile : Option String := none
  ageKey : Option String := none
  ageRecipients : Option String := none
  isDefault : Bool := false
deriving DecidableEq, Repr

structure VaultsSection where
  azureKeyVault : Option KeyVaultSection := none
  sopsEnv : Option SopsEnvSection := none
deriving DecidableEq, Repr

structure LoggingSection where
  level : Level := .info
  json : Bool := false
deriving DecidableEq, Repr

end Config

structure Config where
  expansion : Config.ExpansionSection := {}
  reader : ReaderOptions := {}
  vaults : Config.VaultsSection := {}
  logging : Config.LoggingSection := {}
  source : Option Path := none
deriving DecidableEq, Repr

namespace Config

def KeyVaultSection.backend (s : KeyVaultSection) (keyword : String) : KeyVault :=
  { program := s.azPath.getD "az", keyword, vault := s.vaultName, isDefault := s.isDefault
    autoLogin := s.autoLogin, managedIdentity := s.managedIdentity, deviceCode := s.useDeviceCode
    clientId := s.clientId, clientSecret := s.clientSecret, tenantId := s.tenantId }

def SopsEnvSection.backend (s : SopsEnvSection) (keyword : String) : SopsEnv :=
  { program := s.sopsPath.getD "sops", keyword, file := s.envPath, isDefault := s.isDefault
    config := s.sopsConfigPath, ageKeyFile := s.ageKeyFile, ageKey := s.ageKey
    ageRecipients := s.ageRecipients }

def vaultList (c : Config) (programs : Programs) : List (Vault Session) :=
  let keyword := c.expansion.secretsExpression
  (c.vaults.azureKeyVault.map fun s => (s.backend keyword).toVault programs).toList ++
    (c.vaults.sopsEnv.map fun s => (s.backend keyword).toVault programs).toList

def limit (c : Config) : Option Nat :=
  if c.expansion.commandTimeoutSecs = 0 then none else some (1000 * c.expansion.commandTimeoutSecs)

def options (c : Config) (args : List String) : Expansion.Options :=
  let e := c.expansion
  { unixArgs := e.enableUnixArgs
    windowsVariables := e.enableWindowsVariables
    commands := e.enableCommandSubstitution
    secrets := e.enableSecretSubstitution
    shell := e.enableShellExecution
    useShell := e.useShell
    keyword := e.secretsExpression
    bindings := e.bindings
    args
    limit := c.limit }

end Config

def Expansion.Context.onSession (options : Expansion.Options) (vaults : List (Vault Session))
    (programs : Programs) (environment : Environment) : Expansion.Context Session where
  options
  vaults
  environment
  run c limit s :=
    let (result, machine) := s.machine.run programs c limit
    (result, { s with machine })
  aborted s := s.machine.aborted

end SecretDotenv
