import SecretDotenv.Config.Basic

/-! What the environment changes in a configuration. A value that makes no sense changes
nothing. -/
namespace SecretDotenv.Config

open SecretDotenv.Text SecretDotenv.Machine

def flagOf? (text : String) : Option Bool :=
  let word := lower (trim text)
  if word ∈ ["1", "true", "yes", "on"] then some true
  else if word ∈ ["0", "false", "no", "off"] then some false
  else none

def flag (env : Environment) (name : String) (current : Bool) : Bool :=
  ((env.get? name).bind flagOf?).getD current

def withEnvironment (c : Config) (env : Environment) : Config :=
  let e := c.expansion
  { c with
    expansion := { e with
      useShell := (env.get? "DOTVAULT_SHELL").getD e.useShell
      secretsExpression := (env.get? "DOTVAULT_SECRETS_EXPRESSION").getD e.secretsExpression
      enableCommandSubstitution := flag env "DOTVAULT_ENABLE_COMMANDS" e.enableCommandSubstitution
      enableSecretSubstitution := flag env "DOTVAULT_ENABLE_SECRETS" e.enableSecretSubstitution
      enableShellExecution := flag env "DOTVAULT_ENABLE_SHELL" e.enableShellExecution }
    logging := { c.logging with
      level := ((env.get? "DOTVAULT_LOG").bind Level.ofText?).getD c.logging.level } }

end SecretDotenv.Config
