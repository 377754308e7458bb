import SecretDotenv.Config.Decoded
import SecretDotenv.Config.Encoded
import SecretDotenv.Config.Override
import SecretDotenv.Json.Json5
import SecretDotenv.Json.Toml
import SecretDotenv.Json.Yaml

/-! Configuration files: where they are looked for, how they are read and written. -/
namespace SecretDotenv.Config

open SecretDotenv.Machine

inductive LoadError where
  | missing (path : Path)
  /-- The file is a link; what it leads to may not be ours. -/
  | link (path : Path)
  | large (path : Path) (size : Nat)
  | unreadable (path : Path)
  | malformed
  | invalid (path : Path)
deriving DecidableEq, Repr

def sizeLimit : Nat := 1024 * 1024

namespace LoadError

def message : LoadError → String
  | .missing path => "Config file '" ++ path.display ++ "' does not exist"
  | .link path => "Config file '" ++ path.display ++ "' is a symlink, refusing to follow it"
  | .large path size =>
    "Config file '" ++ path.display ++ "' is " ++ toString size ++ " bytes, exceeds limit of " ++
      toString sizeLimit ++ " bytes"
  | .unreadable path => "Failed to read config file '" ++ path.display ++ "'"
  | .malformed => ""
  | .invalid path => "Invalid configuration in '" ++ path.display ++ "'"

end LoadError

inductive Format where
  | json5
  | yaml
  | toml
deriving DecidableEq, Repr

def formatOf (path : Path) : Format :=
  match path.extension? with
  | some "yaml" | some "yml" => .yaml
  | some "toml" => .toml
  | _ => .json5

def Format.read? (text : String) : Format → Option Json
  | .json5 => Json.ofJson5? text
  | .yaml => Json.ofYaml? text
  | .toml => Json.ofToml? text

def readFile (m : Machine) (path : Path) : Except LoadError Config := do
  if m.disk.isLink m.directory path then throw (.link path)
  match m.disk.read m.directory path with
  | .error _ => throw (.unreadable path)
  | .ok text =>
    if text.utf8ByteSize > sizeLimit then throw (.large path text.utf8ByteSize)
    match (formatOf path).read? text with
    | none => throw .malformed
    | some value =>
      match ofJson? value with
      | none => throw (.invalid path)
      | some c => return { c with source := some path }

def fileNames : List String :=
  ["dotvault.json", "dotvault.yaml", "dotvault.yml", "dotvault.toml"]

def searchPaths (env : Environment) : List Path :=
  fileNames.map Path.ofString ++
    (((env.get? "HOME").filter (!·.isEmpty)).map fun home =>
      ((Path.ofString home).join ".dotvault").join "config.json").toList

/-- The configuration of a run: of the file that is named, else of the first that is
found, else the usual one; the environment has the last word. -/
def load (m : Machine) (path : Option String) : Except LoadError Config := do
  let c ← match path with
    | some text =>
      let path := Path.ofString text
      if m.disk.isPresent m.directory path then readFile m path else throw (.missing path)
    | none =>
      match (searchPaths m.environment).find? (m.disk.isPresent m.directory) with
      | some path => readFile m path
      | none => pure {}
  return c.withEnvironment m.environment

def writeError (path : Path) : String :=
  "Failed to write config file '" ++ path.display ++ "'"

def writeFile (c : Config) (m : Machine) (path : Path) : Except Disk.Error Disk :=
  m.disk.write m.directory path c.write

end SecretDotenv.Config
