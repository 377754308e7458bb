import SecretDotenv.Config.Basic
import SecretDotenv.Json.Written

/-! Configurations as JSON values: every field in the order of its declaration, null
where there is nothing. -/
namespace SecretDotenv.Config

open SecretDotenv.Dotenv

def ExpansionSection.toJson (s : ExpansionSection) : Json :=
  .object [
    ("enableUnixArgs", .bool s.enableUnixArgs),
    ("enableWindowsVariables", .bool s.enableWindowsVariables),
    ("enableCommandSubstitution", .bool s.enableCommandSubstitution),
    ("enableSecretSubstitution", .bool s.enableSecretSubstitution),
    ("enableShellExecution", .bool s.enableShellExecution),
    ("useShell", .string s.useShell),
    ("secretsExpression", .string s.secretsExpression),
    ("commandTimeoutSecs", .ofNat s.commandTimeoutSecs),
    ("variables", .object (s.bindings.map fun (name, value) => (name, .string value)))]

def readerToJson (o : ReaderOptions) : Json :=
  .object [
    ("allowBackticks", .bool o.allowBackticks),
    ("allowJson", .bool o.allowJson),
    ("allowYaml", .bool o.allowYaml)]

def KeyVaultSection.toJson (s : KeyVaultSection) : Json :=
  .object [
    ("azPath", .ofOption s.azPath),
    ("vaultName", .ofOption s.vaultName),
    ("isDefault", .bool s.isDefault),
    ("autoLogin", .bool s.autoLogin),
    ("managedIdentity", .bool s.managedIdentity),
    ("useDeviceCode", .bool s.useDeviceCode),
    ("clientId", .ofOption s.clientId),
    ("clientSecret", .ofOption s.clientSecret),
    ("tenantId", .ofOption s.tenantId)]

def SopsEnvSection.toJson (s : SopsEnvSection) : Json :=
  .object [
    ("sopsPath", .ofOption s.sopsPath),
    ("envPath", .ofOption s.envPath),
    ("sopsConfigPath", .ofOption s.sopsConfigPath),
    ("ageKeyFile", .ofOption s.ageKeyFile),
    ("ageKey", .ofOption s.ageKey),
    ("ageRecipients", .ofOption s.ageRecipients),
    ("isDefault", .bool s.isDefault)]

def VaultsSection.toJson (s : VaultsSection) : Json :=
  .object [
    ("azureKeyVault", (s.azureKeyVault.map KeyVaultSection.toJson).getD .null),
    ("sopsEnv", (s.sopsEnv.map SopsEnvSection.toJson).getD .null)]

def LoggingSection.toJson (s : LoggingSection) : Json :=
  .object [("level", .string s.level.name), ("json", .bool s.json)]

def toJson (c : Config) : Json :=
  .object [
    ("expansion", c.expansion.toJson),
    ("reader", readerToJson c.reader),
    ("vaults", c.vaults.toJson),
    ("logging", c.logging.toJson)]

def write (c : Config) : String :=
  c.toJson.pretty

end SecretDotenv.Config
