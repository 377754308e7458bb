import SecretDotenv.CommandLine.Request
import SecretDotenv.Config.File
import SecretDotenv.Config.Problem
import SecretDotenv.Expansion.Pass
import SecretDotenv.Secret.Vault

/-! What comes of a command line: text on the two streams, a code, messages for the log,
and the machine as the run leaves it. -/
namespace SecretDotenv.CommandLine

open SecretDotenv.Dotenv SecretDotenv.Machine SecretDotenv.Secret

structure Note where
  level : Config.Level
  text : String
deriving DecidableEq, Repr

structure Outcome where
  /-- Zero for success, one for a failure, two for a command line that makes no sense. -/
  code : Nat := 0
  stdout : String := ""
  stderr : String := ""
  notes : List Note := []
  level : Config.Level := .info
  json : Bool := false
deriving DecidableEq, Repr

structure Complaint where
  text : String
  cause : Option String := none
deriving DecidableEq, Repr

namespace Complaint

def message (c : Complaint) : String :=
  "Error: " ++ c.text ++ "\n" ++
    (c.cause.map fun cause => "\nCaused by:\n    " ++ cause ++ "\n").getD ""

end Complaint

namespace Outcome

def failed (c : Complaint) (printed : String := "") : Outcome :=
  { code := 1, stdout := printed, stderr := c.message }

end Outcome

def defaultFile : String := ".env"

def filesOf (files : List String) : List String :=
  if files.isEmpty then [defaultFile] else files

def readDocument (m : Machine) (options : ReaderOptions) (file : String) :
    Except Complaint Document :=
  match m.disk.read m.directory (Path.ofString file) with
  | .error e => .error { text := "Failed to read " ++ file, cause := some e.message }
  | .ok text =>
    match Document.parse text options with
    | .error e => .error { text := "Failed to parse " ++ file, cause := some e.display }
    | .ok document => .ok document

def readDocuments (m : Machine) (options : ReaderOptions) (files : List String) :
    Except Complaint Document := do
  let documents ← files.mapM (readDocument m options)
  return documents.foldl Document.append {}

def ExpandRequest.configure (r : ExpandRequest) (c : Config) : Config :=
  let e := c.expansion
  { c with
    expansion := { e with
      enableCommandSubstitution := e.enableCommandSubstitution || r.commands
      enableSecretSubstitution := e.enableSecretSubstitution || r.secrets
      enableShellExecution := e.enableShellExecution || r.shell
      enableWindowsVariables := e.enableWindowsVariables || r.windowsVariables
      enableUnixArgs := e.enableUnixArgs || r.unixArgs
      useShell := r.shellName.getD e.useShell
      commandTimeoutSecs := r.timeout.getD e.commandTimeoutSecs
      bindings := r.bindings.reverse ++ e.bindings }
    reader := { c.reader with
      allowJson := c.reader.allowJson || r.jsonValues
      allowYaml := c.reader.allowYaml || r.yamlValues } }

/-- Expands and prints the documents. Entries that fail are printed as they were. -/
def expand (programs : Programs) (m : Machine) (c : Config) (r : ExpandRequest) :
    Outcome × Machine :=
  let c := r.configure c
  match readDocuments m c.reader (filesOf r.files) with
  | .error complaint => (.failed complaint, m)
  | .ok document =>
    let context := Expansion.Context.onSession (c.options r.args) (c.vaultList programs) programs
      m.environment
    let (summary, session) := context.expand .cooperative document { machine := m }
    ({  code := if summary.isError then 1 else 0
        stdout := Rendering.render summary.document r.format
        notes := summary.failures.map fun failure => { level := .error, text := failure.display } },
      session.machine)

/-- Counts the entries of files one after the other, up to the first that is no document.
`printed` was said of the files before. -/
def check (m : Machine) (options : ReaderOptions) : (printed : String) → List String → Outcome
  | printed, [] => { stdout := printed }
  | printed, file :: rest =>
    match readDocument m options file with
    | .error complaint => .failed complaint printed
    | .ok document =>
      let line := file ++ ": " ++ toString document.entries.length ++ " entries\n"
      check m options (printed ++ line) rest

def validate (c : Config) : Outcome :=
  match c.complaint? with
  | some text =>
    { Outcome.failed { text } with
      notes := c.problems.map fun problem => { level := .error, text := problem.display } }
  | none => { notes := [{ level := .info, text := "Configuration is valid" }] }

def initialFile : String := "dotvault.json"

def init (m : Machine) (path : Option String) : Outcome × Machine :=
  let name := path.getD initialFile
  let path := Path.ofString name
  match ({} : Config).writeFile m path with
  | .error e => (.failed { text := Config.writeError path, cause := some e.message }, m)
  | .ok disk =>
    ({ notes := [{ level := .info, text := "Configuration file created at " ++ name }] },
      { m with disk })

def programVersion : String := "dotvault 0.1.0"

def perform (programs : Programs) (m : Machine) (c : Config) : Request → Outcome × Machine
  | .expand request => expand programs m c request
  | .check _ files => (check m c.reader "" (filesOf files), m)
  | .split text => ({ stdout := (Json.ofStrings (Arguments.split text)).compact ++ "\n" }, m)
  | .generate policy =>
    let (secret, draws) := policy.generate m.draws
    ({ stdout := secret ++ "\n" }, { m with draws })
  | .config _ .print => ({ stdout := c.write ++ "\n" }, m)
  | .config _ .validate => (validate c, m)
  | .config path .init => init m path
  | .version => ({ stdout := programVersion ++ "\n" }, m)

def usage : String :=
  "Usage: dotvault [--log-level LEVEL] [--log-json] COMMAND\n\n" ++
    "  expand [OPTIONS] [FILE]... [-- ARG...]  expand and print dotenv files\n" ++
    "  check [-c FILE] [FILE]...               parse dotenv files\n" ++
    "  args TEXT                               split a text into arguments\n" ++
    "  generate [OPTIONS]                      print a generated secret\n" ++
    "  config [-c FILE] show|validate|init     show, check or write the configuration\n" ++
    "  version                                 print the version\n"

/-- How a run ends that was not asked for anything. Help is for people, so it goes
where no program reads it. -/
def Stop.outcome : Stop → Outcome
  | .help => { stderr := usage }
  | .version => { stdout := programVersion ++ "\n" }
  | .misuse => { code := 2, stderr := usage }

def Invocation.run (i : Invocation) (programs : Programs) (m : Machine) : Outcome × Machine :=
  match Config.load m i.request.configPath with
  | .error e => (.failed { text := e.message }, m)
  | .ok c =>
    let (outcome, after) := perform programs m c i.request
    let level := (i.logLevel.bind Config.Level.ofText?).getD c.logging.level
    ({ outcome with level, json := i.logJson || c.logging.json }, after)

/-- The whole program: what a command line does to a machine. -/
def run (programs : Programs) (words : List String) (m : Machine) : Outcome × Machine :=
  match Invocation.ofArguments words with
  | .error stop => (stop.outcome, m)
  | .ok invocation => invocation.run programs m

def rank : Config.Level → Nat
  | .silent => 0
  | .error => 1
  | .warn => 2
  | .info => 3
  | .debug => 4
  | .trace => 5

def Note.line (n : Note) (json : Bool) : String :=
  if json then
    (Json.object [("level", .string n.level.name), ("message", .string n.text)]).compact ++ "\n"
  else n.level.name ++ ": " ++ n.text ++ "\n"

def Outcome.log (o : Outcome) : String :=
  String.join ((o.notes.filter fun n => rank n.level ≤ rank o.level).map (·.line o.json))

end SecretDotenv.CommandLine
