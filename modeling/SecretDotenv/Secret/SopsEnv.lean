import SecretDotenv.Dotenv.Written
import SecretDotenv.Secret.Effect
import SecretDotenv.Secret.Expression
import SecretDotenv.Secret.Name

/-! Encrypted dotenv files as vaults. A file is decrypted once and then kept; a new
secret writes the whole file anew, and a failure on the way puts the old one back. -/
namespace SecretDotenv.Secret

open SecretDotenv.Text SecretDotenv.Machine SecretDotenv.Dotenv

structure SopsEnv where
  program : String := "sops"
  keyword : String := defaultKeyword
  /-- The file of `default`; where it is given, the only one that is served. -/
  file : Option String := none
  isDefault : Bool := false
  config : Option String := none
  ageKeyFile : Option String := none
  ageKey : Option String := none
  ageRecipients : Option String := none
  directory : Option Path := none
deriving DecidableEq, Repr

abbrev Cache := List (String × Document)

namespace Cache

def get? (c : Cache) (key : String) : Option Document :=
  (c.find? (·.1 == key)).map (·.2)

def insert (key : String) (document : Document) : Cache → Cache
  | [] => [(key, document)]
  | (k, d) :: rest => if k = key then (key, document) :: rest else (k, d) :: insert key document rest

end Cache

structure SopsEnv.Store where
  cache : Cache := []
  machine : Machine := {}

namespace SopsEnv

def name : String := "sops-env"

def uriOf (file : String) : String :=
  name ++ ":///" ++ String.ofList (file.toList.dropWhile (· = '/'))

def defaultUri (v : SopsEnv) : Option String :=
  if v.isDefault then v.file.map uriOf else none

def canHandle (v : SopsEnv) (args : List String) : Bool :=
  match target? v.keyword args with
  | none => false
  | some target =>
    (v.isDefault && target = "default" && v.file.isSome) ||
      startsWithIgnoringCase target ((v.file.map uriOf).getD (name ++ ":///"))

/-- The name of the entry: of the flag, unless blank, else of the query. -/
def entryName (e : Expression) : Except VaultError String :=
  let given := (e.name.filter (!isBlankText ·)).orElse fun _ =>
    (e.uri.pairs.find? (·.1 == "name")).map (·.2)
  let name := variableName (given.getD "")
  if name.isEmpty then .error .noEntryName else .ok name

/-- The file that a URL names: its path, read once more as the path of a local file. -/
def filePath (uri : Url) : Except VaultError Path :=
  if uri.path.toList.all (· = '/') then .error (.noPath uri)
  else
    match (Url.ofString? ("file://" ++ uri.path)).bind Url.filePath? with
    | some path => .ok path
    | none => .error (.noPath uri)

/-- One slot for a file: the URL without query and fragment. -/
def cacheKey (uri : Url) : String :=
  uri.front

structure Settings where
  config : Option String
  overrides : List (String × String)
deriving DecidableEq, Repr

def queryValue (e : Expression) (key : String) : Option String :=
  (e.uri.pairs.reverse.find? (·.1 == key)).map (·.2)

/-- A setting: of the flag, else of the query, else of the vault. -/
def pick (e : Expression) (key : String) (field : Option String) : Option String :=
  ((((e.flagValue ("--" ++ key)).filter Expression.isOperand).orElse fun _ =>
    (queryValue e key).filter (!isBlankText ·)).orElse fun _ => field.filter (!isBlankText ·))

def configBeside (m : Machine) (path : Path) : Option String :=
  match path.parent? with
  | none => none
  | some parent =>
    let beside := parent.join ".sops.yaml"
    if m.disk.isFile m.directory beside then some beside.display else none

/-- The key itself never stands in a request, only the variable that holds it. -/
def ageKeyOf (v : SopsEnv) (e : Expression) (env : Environment) : Option String :=
  let holder := ((e.flagValue "--age-key").filter fun value => value.toList.head? != some '-').orElse
    fun _ => queryValue e "age-key"
  ((holder.bind env.get?).orElse fun _ => v.ageKey).filter (!isBlankText ·)

def settings (v : SopsEnv) (m : Machine) (e : Expression) (path : Path) : Settings :=
  let set (name : String) (value : Option String) : List (String × String) :=
    (value.map fun value => [(name, value)]).getD []
  { config := (pick e "sops-config" v.config).orElse fun _ => configBeside m path
    overrides :=
      set "SOPS_AGE_KEY_FILE" (pick e "age-key-file" v.ageKeyFile) ++
      set "SOPS_AGE_KEY" (v.ageKeyOf e m.environment) ++
      set "SOPS_AGE_RECIPIENTS" (pick e "age-recipients" v.ageRecipients) }

def directoryOf (path : Path) : Option Path :=
  path.parent?.filter fun parent => !parent.bytes.isEmpty

def command (v : SopsEnv) (s : Settings) (flags : List String) (path : Path) : Command :=
  { program := v.program
    args := ((s.config.map fun config => ["--config", config]).getD []) ++
      ["--input-type", "dotenv", "--output-type", "dotenv"] ++ flags ++ [path.display]
    overrides := s.overrides
    directory := directoryOf path }

abbrev checkAborted (mode : Mode) : Effect Store Unit :=
  Effect.checkAborted (·.machine.aborted) mode

def setMachine (machine : Machine) : Effect Store Unit :=
  modify fun s => { s with machine }

def decrypt (v : SopsEnv) (programs : Programs) (e : Expression) (path : Path) :
    Effect Store Document := do
  let m := (← get).machine
  if !m.disk.isFile m.directory path then throw (.noFile path)
  let (result, m) := m.run programs (v.command (v.settings m e path) ["-d"] path) none
  setMachine m
  match result with
  | .error error => throw (.command error)
  | .ok output =>
    if !output.success then throw (.undecryptable path output.stderr)
    if isBlankText output.stdout then throw .noContent
    match Document.parse output.stdout with
    | .ok document => return document
    | .error error => throw (.noDocument path error)

def writeEncrypted (v : SopsEnv) (programs : Programs) (e : Expression) (path : Path)
    (content : String) (m : Machine) : Except EncryptError Unit × Machine :=
  let c := v.command (v.settings m e path) ["-e", "-i"] path
  match m.disk.write m.directory path content with
  | .error reason => (.error (.write path reason), m)
  | .ok disk =>
    match Machine.run programs c none { m with disk } with
    | (.error error, m) => (.error (.start error), m)
    | (.ok output, m) =>
      if output.success then (.ok (), m) else (.error (.exit output.status output.stderr), m)

/-- Encrypts a document over a file. A copy of the old file lies beside it until this
is done, and is put back if it fails. -/
def encrypt (v : SopsEnv) (programs : Programs) (e : Expression) (path : Path)
    (document : Document) : Effect Store Unit := do
  let content := document.write
  if isBlankText content then throw .nothingToEncrypt
  let m := (← get).machine
  let beside := (directoryOf path).getD (Path.ofString ".")
  let backup := m.disk.freshPath m.directory beside ".dotvault-backup-"
  match m.disk.copy m.directory path backup with
  | .error reason => throw (.noBackup reason)
  | .ok disk =>
    let (result, m) := v.writeEncrypted programs e path content { m with disk }
    match result with
    | .ok () => setMachine { m with disk := m.disk.remove m.directory backup }
    | .error error =>
      match m.disk.copy m.directory backup path with
      | .ok disk =>
        setMachine { m with disk := disk.remove m.directory backup }
        throw (.unencrypted error)
      | .error reason =>
        setMachine m
        throw (.unrestored error reason backup)

def load (v : SopsEnv) (programs : Programs) (mode : Mode) (e : Expression) (path : Path) :
    Effect Store Document := do
  match (← get).cache.get? (cacheKey e.uri) with
  | some document => return document
  | none =>
    checkAborted mode
    let document ← v.decrypt programs e path
    modify fun s => { s with cache := s.cache.insert (cacheKey e.uri) document }
    return document

/-- Makes a secret and stores it. It is kept only when the file has it. -/
def createEntry (v : SopsEnv) (programs : Programs) (e : Expression) (path : Path) (name : String)
    (document : Document) : Effect Store String := do
  let (value, draws) := e.policy.generate (← get).machine.draws
  modify fun s => { s with machine := { s.machine with draws } }
  let updated := document.set name value
  v.encrypt programs e path updated
  modify fun s => { s with cache := s.cache.insert (cacheKey e.uri) updated }
  return value

/-- The secret that a request names, made if it is missing and the request says so. -/
def expand (v : SopsEnv) (programs : Programs) (mode : Mode) (args : List String) :
    Effect Store String := do
  let directory := v.directory.getD (← get).machine.directory
  let e ← match Expression.parse v.keyword directory v.defaultUri args with
    | .ok e => pure e
    | .error fault => throw (.expression fault)
  let name ← Effect.lift (entryName e)
  let path ← Effect.lift (filePath e.uri)
  let document ← v.load programs mode e path
  match document.get? name with
  | some value => return value
  | none =>
    if !e.create then throw (.noEntry name)
    checkAborted mode
    v.createEntry programs e path name document

def expandAsync (v : SopsEnv) (programs : Programs) (args : List String) :
    Effect Store String := do
  checkAborted .cooperative
  v.expand programs .cooperative args

end SopsEnv

end SecretDotenv.Secret
