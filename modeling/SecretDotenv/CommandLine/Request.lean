import SecretDotenv.CommandLine.Given
import SecretDotenv.Rendering
import SecretDotenv.Secret.Policy
import SecretDotenv.Text.Numeral

/-! What the program can be asked for, and how that is said on its command line. -/
namespace SecretDotenv.CommandLine

open SecretDotenv.Text SecretDotenv.Secret

/-- Documents to be expanded, one after the other as if they were one. What is switched
on here comes on top of the configuration. -/
structure ExpandRequest where
  files : List String := []
  config : Option String := none
  commands : Bool := false
  secrets : Bool := false
  shell : Bool := false
  shellName : Option String := none
  windowsVariables : Bool := false
  unixArgs : Bool := false
  jsonValues : Bool := false
  yamlValues : Bool := false
  bindings : List (String × String) := []
  timeout : Option Nat := none
  format : Rendering := .dotenv
  args : List String := []
deriving DecidableEq, Repr

inductive ConfigAction where
  | print
  | validate
  | init
deriving DecidableEq, Repr

inductive Request where
  | expand (request : ExpandRequest)
  | check (config : Option String) (files : List String)
  | split (text : String)
  | generate (policy : Policy)
  | config (path : Option String) (action : ConfigAction)
  | version
deriving DecidableEq, Repr

structure Invocation where
  logLevel : Option String := none
  logJson : Bool := false
  request : Request
deriving DecidableEq, Repr

def assignment? (text : String) : Option (String × String) :=
  match cut '=' text.toList with
  | some (name, value) =>
    let name := trim (String.ofList name)
    if name.isEmpty then none else some (name, String.ofList value)
  | none => none

def format? : String → Option Rendering
  | "dotenv" => some .dotenv
  | "json" => some .json
  | "export" => some .exports
  | _ => none

def switch (name : String) : OptionForm := { name }

def text (name : String) : OptionForm := { name, accepts := some fun _ => true }

def valued {α : Type} (name : String) (read? : String → Option α) : OptionForm :=
  { name, accepts := some fun value => (read? value).isSome }

def logging : List OptionForm := [text "log-level", switch "log-json"]

def configOption : OptionForm := { text "config" with short := some 'c' }

def program : Grammar where
  options := logging
  commands := ["expand", "check", "args", "generate", "config", "version", "help"]
  showsVersion := true

def expandGrammar : Grammar where
  options := logging ++ [configOption, switch "commands", switch "secrets", switch "shell",
    text "shell-name", switch "windows-vars", switch "unix-args", switch "json-values",
    switch "yaml-values", { valued "var" assignment? with repeatable := true },
    valued "timeout" nat64?, { valued "format" format? with short := some 'f' }]
  operands := .files
  hasRest := true

def checkGrammar : Grammar where
  options := configOption :: logging
  operands := .files

def splitGrammar : Grammar where
  options := logging
  operands := .one

def generateGrammar : Grammar where
  options := logging ++ [valued "size" nat64?, switch "no-upper", switch "no-lower",
    switch "no-digits", text "special", switch "no-special", text "chars"]

def configGrammar : Grammar where
  options := configOption :: logging
  commands := ["show", "validate", "init", "help"]

def plainGrammar : Grammar where
  options := logging

def ExpandRequest.ofGiven (g : Given) : ExpandRequest where
  files := g.operands
  config := g.value? "config"
  commands := g.has "commands"
  secrets := g.has "secrets"
  shell := g.has "shell"
  shellName := g.value? "shell-name"
  windowsVariables := g.has "windows-vars"
  unixArgs := g.has "unix-args"
  jsonValues := g.has "json-values"
  yamlValues := g.has "yaml-values"
  bindings := (g.values "var").filterMap assignment?
  timeout := (g.value? "timeout").bind nat64?
  format := ((g.value? "format").bind format?).getD .dotenv
  args := g.rest

def policyOf (g : Given) : Policy where
  size := ((g.value? "size").bind nat64?).getD defaultSize
  upper := !g.has "no-upper"
  lower := !g.has "no-lower"
  digits := !g.has "no-digits"
  special := if g.has "no-special" then "" else (g.value? "special").getD defaultSpecial
  chars := g.value? "chars"

def readAll (grammar : Grammar) (words : List String) : Except Stop Given :=
  (grammar.read none {} words).map (·.1)

def explain (known : List String) (words : List String) : Stop :=
  match words with
  | [] => .help
  | [name] => if name ∈ known then .help else .misuse
  | ["config", name] => if "config" ∈ known && name ∈ configGrammar.commands then .help else .misuse
  | _ => .misuse

def configAction? : String → Option ConfigAction
  | "show" => some .print
  | "validate" => some .validate
  | "init" => some .init
  | _ => none

def Request.ofWords (command : String) (words : List String) : Except Stop (Request × List Given) :=
  match command with
  | "expand" => do
    let g ← readAll expandGrammar words
    return (.expand (.ofGiven g), [g])
  | "check" => do
    let g ← readAll checkGrammar words
    return (.check (g.value? "config") g.operands, [g])
  | "args" => do
    let g ← readAll splitGrammar words
    match g.operands with
    | [text] => return (.split text, [g])
    | _ => throw .misuse
  | "generate" => do
    let g ← readAll generateGrammar words
    if g.has "special" && g.has "no-special" then throw .misuse
    return (.generate (policyOf g), [g])
  | "config" => do
    let (g, handover) ← configGrammar.read none {} words
    match handover with
    | some ("help", names) => throw (explain configGrammar.commands names)
    | some (name, words) =>
      let inner ← readAll plainGrammar words
      match configAction? name with
      | some action => return (.config (g.value? "config") action, [g, inner])
      | none => throw .misuse
    | none => throw .misuse
  | "version" => do
    let g ← readAll plainGrammar words
    return (.version, [g])
  | "help" => throw (explain program.commands words)
  | _ => throw .misuse

/-- Reads a whole command line. Of options for logging the innermost counts. -/
def Invocation.ofArguments (words : List String) : Except Stop Invocation := do
  let (outer, handover) ← program.read none {} words
  match handover with
  | none => throw .misuse
  | some (command, words) =>
    let (request, inner) ← Request.ofWords command words
    let given := inner.reverse ++ [outer]
    return {
      logLevel := given.findSome? (·.value? "log-level")
      logJson := given.any (·.has "log-json")
      request }

def Request.configPath : Request → Option String
  | .expand request => request.config
  | .check path _ | .config path _ => path
  | _ => none

end SecretDotenv.CommandLine
