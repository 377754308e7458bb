import SecretDotenv.Secret.KeyVault
import SecretDotenv.Secret.SopsEnv
import SecretDotenv.Text.Shown

/-! Vaults as logs show them. Of a secret it is shown whether there is one. -/
namespace SecretDotenv.Secret

open SecretDotenv.Text SecretDotenv.Machine

def hidden (secret : Option String) : Option String :=
  secret.map fun _ => "<redacted>"

def KeyVault.description (v : KeyVault) : String :=
  shownRecord "AzKeyVaultExpander" [
    ("az_path", shown v.program),
    ("vault_name", shownOption v.vault),
    ("is_default", shownFlag v.isDefault),
    ("auto_login", shownFlag v.autoLogin),
    ("managed_identity", shownFlag v.managedIdentity),
    ("use_device_code", shownFlag v.deviceCode),
    ("client_id", shownOption v.clientId),
    ("client_secret", shownOption (hidden v.clientSecret)),
    ("tenant_id", shownOption v.tenantId)]

def SopsEnv.description (v : SopsEnv) : String :=
  shownRecord "SopsEnvExpander" [
    ("sops_path", shown v.program),
    ("secrets_expression", shown v.keyword),
    ("env_path", shownOption v.file),
    ("sops_config_path", shownOption v.config),
    ("age_key_file", shownOption v.ageKeyFile),
    ("age_key", shownOption (hidden v.ageKey)),
    ("age_recipients", shownOption v.ageRecipients),
    ("working_directory", shownOption (v.directory.map Path.display)),
    ("is_default", shownFlag v.isDefault)]

end SecretDotenv.Secret
