import SecretDotenv.Secret.Effect
import SecretDotenv.Secret.Expression
import SecretDotenv.Secret.Name

/-! Cloud key vaults, reached through their command line. Nothing is kept: every
request asks the vault. -/
namespace SecretDotenv.Secret

open SecretDotenv.Text SecretDotenv.Machine SecretDotenv.Calendar

structure SecretLocation where
  vault : String
  name : String
  version : Option String := none
deriving DecidableEq, Repr

namespace SecretLocation

def partsOf (uri : Url) : List String :=
  match uri.route with
  | .segments parts => parts.filter (!·.isEmpty)
  | .plain _ => []

/-- The vault: the host, or the first part of the path where there is no host. -/
def vaultOf (uri : Url) : Except VaultError (String × List String) :=
  match uri.host?, partsOf uri with
  | some host, parts => .ok (host.text, parts)
  | none, vault :: parts => .ok (vault, parts)
  | none, [] => .error (.noVault uri)

/-- The other parts are a name, or a version and a name; a URL without a name leaves it
to the flag. -/
def ofExpression (e : Expression) : Except VaultError SecretLocation := do
  let (vault, parts) ← vaultOf e.uri
  let (version, rawName) := match parts with
    | [] => (none, e.name.getD "")
    | [name] => (none, name)
    | version :: rest => (some version, "/".intercalate rest)
  let name := vaultName rawName
  if name.isEmpty then .error .noSecretName else .ok { vault, name, version }

end SecretLocation

structure KeyVault where
  program : String := "az"
  keyword : String := defaultKeyword
  /-- The vault of `default`; without `isDefault` the only one that is served. -/
  vault : Option String := none
  isDefault : Bool := false
  autoLogin : Bool := false
  managedIdentity : Bool := false
  deviceCode : Bool := false
  clientId : Option String := none
  clientSecret : Option String := none
  tenantId : Option String := none
  directory : Option Path := none
deriving DecidableEq, Repr

namespace KeyVault

def name : String := "akv"

def schemes : List String := [name, "azure-key-vault"]

def defaultUri (v : KeyVault) : Option String :=
  if v.isDefault then (v.vault.filter (!isBlankText ·)).map (name ++ "://" ++ ·) else none

def canHandle (v : KeyVault) (args : List String) : Bool :=
  match target? v.keyword args with
  | none => false
  | some target =>
    if target = "default" then v.defaultUri.isSome
    else schemes.any fun scheme =>
      match v.vault with
      | some vault =>
        if v.isDefault then startsWithIgnoringCase target (scheme ++ "://")
        else startsWithIgnoringCase target (scheme ++ "://" ++ vault) ||
          startsWithIgnoringCase target (scheme ++ ":///" ++ vault)
      | none => startsWithIgnoringCase target (scheme ++ "://")

def command (v : KeyVault) (args : List String) : Command :=
  { program := v.program, args, directory := v.directory }

def showCommand (v : KeyVault) (l : SecretLocation) : Command :=
  v.command (["keyvault", "secret", "show", "--vault-name", l.vault, "--name", l.name] ++
    ((l.version.map fun version => ["--version", version]).getD []) ++
    ["-o", "tsv", "--query", "value"])

/-- The value is joined to its flag, so that it is not taken for a flag itself. -/
def setCommand (v : KeyVault) (l : SecretLocation) (value : String) (expiresAt : Option Instant) :
    Command :=
  v.command (["keyvault", "secret", "set", "--vault-name", l.vault, "--name", l.name,
      "--value=" ++ value] ++
    ((expiresAt.map fun instant => ["--expires", instant.text ++ "Z"]).getD []) ++
    ["-o", "none"])

def credential (field : Option String) (e : Expression) (flag : String) (fromEnvironment : Option String) :
    Option String :=
  let given := (e.flagValue flag).filter fun value => value.toList.head? != some '-'
  ((field.orElse fun _ => given).orElse fun _ => fromEnvironment).filter (!isBlankText ·)

def loginCommand (v : KeyVault) (e : Expression) (env : Environment) : Command :=
  let clientId := credential v.clientId e "--client-id" (env.get? "AZURE_CLIENT_ID")
  let clientSecret := credential v.clientSecret e "--client-secret" (env.get? "AZURE_CLIENT_SECRET")
  let tenantId := credential v.tenantId e "--tenant-id" (env.get? "AZURE_TENANT_ID")
  let account :=
    if v.managedIdentity then
      "--identity" :: ((clientId.map fun id => ["--username", id]).getD [])
    else
      match clientId, clientSecret, tenantId with
      | some id, some secret, some tenant =>
        ["--service-principal", "-u", id, "-p", secret, "--tenant", tenant]
      | _, _, _ =>
        (if v.deviceCode then ["--use-device-code"] else []) ++
          ((tenantId.map fun tenant => ["--tenant", tenant]).getD [])
  v.command (["login"] ++ account ++ ["-o", "none"])

def needsLogin (o : Output) : Bool :=
  let said := lower o.stderr
  contains said "az login" || contains said "aadsts" || contains said "not logged in"

def isNotFound (o : Output) : Bool :=
  contains o.stderr "NotFound" || contains o.stdout "NotFound"

abbrev checkAborted (mode : Mode) : Effect Machine Unit :=
  Effect.checkAborted Machine.aborted mode

def runCommand (programs : Programs) (c : Command) : Effect Machine Output := do
  let (result, machine) := Machine.run programs c none (← get)
  set machine
  match result with
  | .ok output => return output
  | .error e => throw (.command e)

/-- Runs a command, and once more after a login if there was no session. Whether there
was a login is returned, for a second one would not help. -/
def runInSession (v : KeyVault) (programs : Programs) (mode : Mode) (e : Expression)
    (loggedIn : Bool) (c : Command) : Effect Machine (Output × Bool) := do
  checkAborted mode
  let output ← runCommand programs c
  if output.success || !v.autoLogin || loggedIn || !needsLogin output then
    return (output, loggedIn)
  else
    checkAborted mode
    let login ← runCommand programs (v.loginCommand e (← get).environment)
    if !login.success then throw (.noLogin login.stderr)
    checkAborted mode
    return (← runCommand programs c, true)

/-- The secret that a request names, made and stored if it is missing and the request
says so. -/
def expand (v : KeyVault) (programs : Programs) (mode : Mode) (args : List String) :
    Effect Machine String := do
  let directory := v.directory.getD (← get).directory
  let e ← match Expression.parse v.keyword directory v.defaultUri args with
    | .ok e => pure e
    | .error fault => throw (.expression fault)
  let l ← Effect.lift (SecretLocation.ofExpression e)
  let (output, loggedIn) ← v.runInSession programs mode e false (v.showCommand l)
  if output.success then return trim output.stdout
  if !(isNotFound output && e.create) then throw (.unreadable l.name l.vault output.stderr)
  let (value, draws) := e.policy.generate (← get).draws
  modify fun m => { m with draws }
  let (stored, _) ← v.runInSession programs mode e loggedIn (v.setCommand l value e.expiresAt)
  if !stored.success then throw (.unstorable l.name l.vault stored.stderr)
  return value

/-- A run that was told to stop does not even read the request. -/
def expandAsync (v : KeyVault) (programs : Programs) (args : List String) :
    Effect Machine String := do
  checkAborted .cooperative
  v.expand programs .cooperative args

end KeyVault

end SecretDotenv.Secret
