import SecretDotenv.Config.Basic
import SecretDotenv.Json.Value

/-! Configurations from JSON values. A section is an object, whose unknown fields do
not count, or an array of its fields in order. -/
namespace SecretDotenv.Config

open SecretDotenv.Dotenv

inductive Fields where
  | named (fields : List (String × Json))
  | ordered (items : List Json)

abbrev Decoder (α : Type) := StateT Fields Option α

namespace Decoder

/-- The field that comes next: none if an object lacks it or an array has ended. -/
def next? (name : String) : Decoder (Option Json) := do
  match ← get with
  | .named fields => return (fields.find? (·.1 == name)).map (·.2)
  | .ordered [] => return none
  | .ordered (item :: rest) =>
    set (Fields.ordered rest)
    return some item

def field {α : Type} (name : String) (read : Json → Option α) (default : α) : Decoder α := do
  match ← next? name with
  | some j => read j
  | none => return default

/-- A field that may be null. An object may leave it out, an array may not. -/
def optional {α : Type} (name : String) (read : Json → Option α) : Decoder (Option α) := do
  match ← next? name with
  | some .null => return none
  | some j => return some (← read j)
  | none =>
    match ← get with
    | .named _ => return none
    | .ordered _ => failure

/-- Reads a whole section; an array must have nothing left. -/
def run? {α : Type} (d : Decoder α) : Json → Option α
  | .object fields => (StateT.run d (.named fields)).map (·.1)
  | .array items =>
    match StateT.run d (.ordered items) with
    | some (a, .ordered []) => some a
    | _ => none
  | _ => none

end Decoder

def bool? : Json → Option Bool
  | .bool b => some b
  | _ => none

def string? : Json → Option String
  | .string s => some s
  | _ => none

def nat? : Json → Option Nat
  | .number (.integer n) => if 0 ≤ n && n < (Text.bound64 : Int) then some n.toNat else none
  | _ => none

def strings? : Json → Option (List (String × String))
  | .object fields => fields.mapM fun (name, value) => (string? value).map fun s => (name, s)
  | _ => none

def Level.ofJson? : Json → Option Level
  | .string name => Level.ofName? name
  | .object [(name, .null)] => Level.ofName? name
  | _ => none

open Decoder

def ExpansionSection.ofJson? : Json → Option ExpansionSection :=
  run? do
    return {
      enableUnixArgs := ← field "enableUnixArgs" bool? false
      enableWindowsVariables := ← field "enableWindowsVariables" bool? false
      enableCommandSubstitution := ← field "enableCommandSubstitution" bool? false
      enableSecretSubstitution := ← field "enableSecretSubstitution" bool? false
      enableShellExecution := ← field "enableShellExecution" bool? false
      useShell := ← field "useShell" string? "bash"
      secretsExpression := ← field "secretsExpression" string? Secret.defaultKeyword
      commandTimeoutSecs := ← field "commandTimeoutSecs" nat? 300
      bindings := ← field "variables" strings? [] }

def readerOfJson? : Json → Option ReaderOptions :=
  run? do
    return {
      allowBackticks := ← field "allowBackticks" bool? true
      allowJson := ← field "allowJson" bool? false
      allowYaml := ← field "allowYaml" bool? false }

def KeyVaultSection.ofJson? : Json → Option KeyVaultSection :=
  run? do
    return {
      azPath := ← optional "azPath" string?
      vaultName := ← optional "vaultName" string?
      isDefault := ← field "isDefault" bool? false
      autoLogin := ← field "autoLogin" bool? false
      managedIdentity := ← field "managedIdentity" bool? false
      useDeviceCode := ← field "useDeviceCode" bool? false
      clientId := ← optional "clientId" string?
      clientSecret := ← optional "clientSecret" string?
      tenantId := ← optional "tenantId" string? }

def SopsEnvSection.ofJson? : Json → Option SopsEnvSection :=
  run? do
    return {
      sopsPath := ← optional "sopsPath" string?
      envPath := ← optional "envPath" string?
      sopsConfigPath := ← optional "sopsConfigPath" string?
      ageKeyFile := ← optional "ageKeyFile" string?
      ageKey := ← optional "ageKey" string?
      ageRecipients := ← optional "ageRecipients" string?
      isDefault := ← field "isDefault" bool? false }

def VaultsSection.ofJson? : Json → Option VaultsSection :=
  run? do
    return {
      azureKeyVault := ← optional "azureKeyVault" KeyVaultSection.ofJson?
      sopsEnv := ← optional "sopsEnv" SopsEnvSection.ofJson? }

def LoggingSection.ofJson? : Json → Option LoggingSection :=
  run? do
    return {
      level := ← field "level" Level.ofJson? .info
      json := ← field "json" bool? false }

def ofJson? : Json → Option Config :=
  run? do
    return {
      expansion := ← field "expansion" ExpansionSection.ofJson? {}
      reader := ← field "reader" readerOfJson? {}
      vaults := ← field "vaults" VaultsSection.ofJson? {}
      logging := ← field "logging" LoggingSection.ofJson? {} }

end SecretDotenv.Config
