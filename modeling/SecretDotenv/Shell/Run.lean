import SecretDotenv.Machine.Basic
import SecretDotenv.Shell.Script
import SecretDotenv.Shell.Tool

/-! Running scripts, as `sh` and `bash` do it. -/
namespace SecretDotenv.Shell

open SecretDotenv.Text SecretDotenv.Machine

inductive Sink where
  | nowhere
  | buffer (number : Nat)
  | file (path : Path)
deriving DecidableEq, Repr

structure Streams where
  input : List UInt8 := []
  out : Sink := .buffer 0
  err : Sink := .buffer 1

structure Variable where
  value : String
  exported : Bool

inductive Ending where
  | exit
  | killed (signal : Nat)
deriving DecidableEq, Repr

structure State where
  bindings : List (String × Variable) := []
  directory : Path
  disk : Disk
  buffers : List (List UInt8) := [[], []]
  status : Nat := 0
  ending : Option Ending := none
  elapsed : Nat := 0
  /-- Ends at the first failure. -/
  strict : Bool := false
  /-- A pipeline fails when any part of it does. -/
  pipefail : Bool := false

structure Frame where
  dialect : Dialect
  /-- `$0` -/
  name : String
  args : List String := []

abbrev Run (α : Type) := StateM State α

namespace Run

def setStatus (status : Nat) : Run Unit :=
  modify fun s => { s with status }

def setVariable (name value : String) (exported : Bool := false) : Run Unit :=
  modify fun s =>
    let before := ((s.bindings.find? (·.1 == name)).map (·.2.exported)).getD false
    { s with bindings := (name, { value, exported := exported || before }) ::
        s.bindings.filter (·.1 != name) }

def valueOf? (name : String) : Run (Option String) := do
  return ((← get).bindings.find? (·.1 == name)).map (·.2.value)

def environmentOf (s : State) : Environment :=
  (s.bindings.filter (·.2.exported)).map fun (name, v) => (name, v.value)

def write (sink : Sink) (bytes : List UInt8) : Run Unit :=
  match sink with
  | .nowhere => return
  | .buffer n => modify fun s => { s with buffers := s.buffers.modify n (· ++ bytes) }
  | .file path => modify fun s =>
      let text := match s.disk.read s.directory path with
        | .ok text => text
        | .error _ => ""
      match s.disk.write s.directory path (text ++ ofUtf8 bytes) with
      | .ok disk => { s with disk }
      | .error _ => s

def newBuffer : Run Nat := do
  let n := (← get).buffers.length
  modify fun s => { s with buffers := s.buffers ++ [[]] }
  return n

def bufferOf (n : Nat) : Run (List UInt8) := do
  return (← get).buffers.getD n []

/-- Runs in a shell of its own: afterwards variables and directory are as before, and
`exit` has ended this shell only. -/
def isolated (act : Run Unit) : Run Unit := do
  let before ← get
  act
  modify fun s =>
    { s with
      bindings := before.bindings, directory := before.directory
      strict := before.strict, pipefail := before.pipefail
      ending := if s.ending = some .exit then none else s.ending }

def complain (f : Frame) (line : Nat) (streams : Streams) (dash bash : String) : Run Unit :=
  let text := match f.dialect with
    | .bash => f.name ++ ": line " ++ toString line ++ ": " ++ bash
    | _ => f.name ++ ": " ++ toString line ++ ": " ++ dash
  write streams.err (Tool.bytesOf (text ++ "\n"))

def reasonOf (e : Disk.Error) : String :=
  (e.message.splitOn " (os error").headD ""

def redirect (f : Frame) (line : Nat) (streams : Streams) (stream : Option Nat) (text target : String) :
    Run (Option Streams) := do
  let s ← get
  let path := Path.ofString target
  let refuse (e : Disk.Error) (reading : Bool) : Run (Option Streams) := do
    let dash :=
      if reading then "cannot open " ++ target ++ ": " ++ (if e = .notFound then "No such file" else reasonOf e)
      else "cannot create " ++ target ++ ": " ++
        (if e = .notFound then "Directory nonexistent" else reasonOf e)
    complain f line streams dash (target ++ ": " ++ reasonOf e)
    setStatus (if f.dialect = .bash then 1 else 2)
    return none
  let put (sink : Sink) : Streams :=
    if text = "&>" then { streams with out := sink, err := sink }
    else if stream = some 2 then { streams with err := sink }
    else if stream.isNone || stream = some 1 then { streams with out := sink }
    else streams
  if text = ">&" && (target = "1" || target = "2") then
    let sink := if target = "1" then streams.out else streams.err
    return some (if stream = some 2 then { streams with err := sink } else { streams with out := sink })
  else if text = "<" then
    if target = "/dev/null" then return some { streams with input := [] }
    else
      match s.disk.read s.directory path with
      | .ok content => return some { streams with input := Tool.bytesOf content }
      | .error e => refuse e true
  else if target = "/dev/null" then return some (put .nowhere)
  else if target = "/dev/stderr" then return some (put streams.err)
  else if target = "/dev/stdout" then return some (put streams.out)
  else
    let old := match s.disk.read s.directory path with
      | .ok content => content
      | .error _ => ""
    match s.disk.write s.directory path (if text = ">>" then old else "") with
    | .ok disk =>
      set { s with disk }
      return some (put (.file path))
    | .error e => refuse e false

def signalOf (text : String) : Nat :=
  match text with
  | "KILL" | "SIGKILL" | "9" => 9
  | "INT" | "SIGINT" | "2" => 2
  | "HUP" | "SIGHUP" | "1" => 1
  | "0" => 0
  | _ => 15

/-- The status that `exit` is given, in one byte; `bash` takes signs as well. -/
def exitStatus? (d : Dialect) (text : String) : Option Nat :=
  let digits := if d = .bash then (signOf text.toList).2 else text.toList
  if digits.isEmpty || !digits.all Char.isDigit then none
  else some (Tool.integerOf text % 256).toNat

def processNumber : String := "4242"

def kill (args : List String) : Run Unit := do
  let (signal, targets) := match args with
    | "-s" :: name :: rest => (signalOf name, rest)
    | first :: rest =>
      if "-".toList.isPrefixOf first.toList then (signalOf (String.ofList (first.toList.drop 1)), rest)
      else (15, first :: rest)
    | [] => (15, [])
  setStatus 0
  if targets.contains processNumber && signal != 0 then
    modify fun s => { s with ending := some (.killed signal) }

def setOptions : List String → Run Unit
  | "-e" :: rest => do
    modify fun s => { s with strict := true }
    setOptions rest
  | "+e" :: rest => do
    modify fun s => { s with strict := false }
    setOptions rest
  | "-o" :: "pipefail" :: rest => do
    modify fun s => { s with pipefail := true }
    setOptions rest
  | "-eo" :: "pipefail" :: rest => do
    modify fun s => { s with strict := true, pipefail := true }
    setOptions rest
  | _ :: rest => setOptions rest
  | [] => return

def exportAll : List String → Run Unit
  | [] => return
  | arg :: rest => do
    match cut '=' arg.toList with
    | some (name, value) => setVariable (String.ofList name) (String.ofList value) true
    | none =>
      match ← valueOf? arg with
      | some value => setVariable arg value true
      | none => pure ()
    exportAll rest

def changeDirectory (f : Frame) (line : Nat) (streams : Streams) (target : String) : Run Unit := do
  let s ← get
  match s.disk.locate s.directory (Path.ofString target) with
  | .ok place =>
    if s.disk.item? place = some .directory then
      let bytes := if place.isEmpty then [Path.slash] else place.flatMap (Path.slash :: ·)
      modify fun s => { s with directory := { bytes }, status := 0 }
    else
      complain f line streams ("cd: can't cd to " ++ target) ("cd: " ++ target ++ ": No such file or directory")
      setStatus (if f.dialect = .bash then 1 else 2)
  | .error _ =>
    complain f line streams ("cd: can't cd to " ++ target) ("cd: " ++ target ++ ": No such file or directory")
    setStatus (if f.dialect = .bash then 1 else 2)

def condition (s : State) : List String → Bool
  | "!" :: rest => !condition s rest
  | ["-n", a] => a != ""
  | ["-z", a] => a = ""
  | ["-f", a] => s.disk.isFile s.directory (Path.ofString a)
  | ["-e", a] => s.disk.isPresent s.directory (Path.ofString a)
  | ["-d", a] => s.disk.isPresent s.directory (Path.ofString a) && !s.disk.isFile s.directory (Path.ofString a)
  | [a, "=", b] | [a, "==", b] => a = b
  | [a, "!=", b] => a != b
  | [a, "-eq", b] => Tool.integerOf a = Tool.integerOf b
  | [a, "-ne", b] => Tool.integerOf a != Tool.integerOf b
  | [a, "-lt", b] => Tool.integerOf a < Tool.integerOf b
  | [a, "-le", b] => Tool.integerOf a ≤ Tool.integerOf b
  | [a, "-gt", b] => Tool.integerOf a > Tool.integerOf b
  | [a, "-ge", b] => Tool.integerOf a ≥ Tool.integerOf b
  | [a] => a != ""
  | _ => false

def insideBrackets (args : List String) : List String :=
  if args.getLast? = some "]" then args.dropLast else args

def toolName (program : String) : String :=
  match [ "/usr/bin/", "/bin/" ].find? fun dir => dir.toList.isPrefixOf program.toList with
  | some dir => String.ofList (program.toList.drop dir.length)
  | none => program

def runTool (d : Dialect) (name : String) (args : List String) (streams : Streams) : Run Bool := do
  let s ← get
  match Tool.run? d name args streams.input s.disk s.directory with
  | none => return false
  | some r =>
    write streams.out r.stdout
    write streams.err r.stderr
    modify fun s => { s with status := r.status, elapsed := s.elapsed + r.elapsed }
    return true

def missing (f : Frame) (line : Nat) (streams : Streams) (name : String) : Run Unit := do
  let s ← get
  let found := s.disk.lookup s.directory (Path.ofString name)
  if name.toList.contains '/' then
    match found with
    | .ok .directory =>
      complain f line streams (name ++ ": Permission denied") (name ++ ": Is a directory")
      setStatus 126
    | .ok _ =>
      complain f line streams (name ++ ": Permission denied") (name ++ ": Permission denied")
      setStatus 126
    | .error _ =>
      complain f line streams (name ++ ": not found") (name ++ ": No such file or directory")
      setStatus 127
  else
    complain f line streams (name ++ ": not found") (name ++ ": command not found")
    setStatus 127

def faultText (f : Frame) (line : Nat) (e : SyntaxError) : String :=
  match f.dialect with
  | .bash =>
    f.name ++ ": -c: line " ++ toString line ++ ": " ++
      match e with
      | .openQuote mark => "unexpected EOF while looking for matching \x60" ++ mark.toString ++ "'"
      | .unexpected text => "syntax error near unexpected token \x60" ++ text ++ "'"
      | .unexpectedEnd => "syntax error: unexpected end of file"
  | _ =>
    f.name ++ ": " ++ toString line ++ ": Syntax error: " ++
      match e with
      | .openQuote '\x60' => "EOF in backquote substitution"
      | .openQuote _ => "Unterminated quoted string"
      | .unexpected "newline" => "newline unexpected"
      | .unexpected "redirection" => "redirection unexpected"
      | .unexpected text => "\"" ++ text ++ "\" unexpected"
      | .unexpectedEnd => "end of file unexpected"

def shellArguments : List String → List String × Option (String × List String)
  | "-c" :: script :: args => ([], some (script, args))
  | "-o" :: name :: rest =>
    let (options, script) := shellArguments rest
    ("-o" :: name :: options, script)
  | arg :: rest =>
    if arg = "-ec" || arg = "-xc" || arg = "-euc" then
      match rest with
      | script :: args => ([if arg = "-xc" then "" else "-e"], some (script, args))
      | [] => ([], none)
    else if "-".toList.isPrefixOf arg.toList then
      let (options, script) := shellArguments rest
      (arg :: options, script)
    else ([], none)
  | [] => ([], none)

/-- A shell that is given no script: it has nothing to do, or does not know what to do. -/
def withoutScript (dialect : Dialect) (name : String) (streams : Streams) (args : List String) :
    Run Unit := do
  if args.isEmpty then setStatus 0
  else if args.getLast? = some "-c" then
    let text := if dialect = .bash then ": -c: option requires an argument\n"
      else ": 0: -c requires an argument\n"
    write streams.err (Tool.bytesOf (name ++ text))
    setStatus 2
  else setStatus 127

def dialectOf? (name : String) : Option Dialect :=
  match toolName name with
  | "sh" | "dash" => some .dash
  | "bash" => some .bash
  | _ => none

def parameter (f : Frame) (name : String) : Run String := do
  match name with
  | "$" => return processNumber
  | "?" => return toString (← get).status
  | "#" => return toString f.args.length
  | "@" | "*" => return " ".intercalate f.args
  | "0" => return f.name
  | "!" => return ""
  | _ =>
    match nat64? name with
    | some n => return f.args.getD (n - 1) ""
    | none => return (← valueOf? name).getD ""

def trimNewlines (bytes : List UInt8) : List UInt8 :=
  (bytes.reverse.dropWhile (· = 10)).reverse

mutual

/-- The fields that a word stands for. Quoted parts are never split. -/
def expandWord (f : Frame) (streams : Streams) : (fuel : Nat) → (split : Bool) → Word → Run (List String)
  | 0, _, _ => return []
  | fuel + 1, split, word => do
    let words ← expandParts f streams fuel split [] word
    return (words.filterMap fun (text, kept) =>
      if text.isEmpty && !kept then none else some (String.ofList text))

/-- Adds parts to the words so far, each with whether it stays when empty. -/
def expandParts (f : Frame) (streams : Streams) :
    (fuel : Nat) → (split : Bool) → List (List Char × Bool) → Word → Run (List (List Char × Bool))
  | 0, _, words, _ => return words
  | fuel + 1, split, words, parts => do
    let append (text : List Char) (kept : Bool) : List (List Char × Bool) :=
      match words.getLast? with
      | some (last, was) => words.dropLast ++ [(last ++ text, was || kept)]
      | none => [(text, kept)]
    let place (value : List Char) (quoted : Bool) : List (List Char × Bool) :=
      if quoted || !split then append value quoted
      else
        match splitOn (fun c => c = ' ' || c = '\t' || c = '\n') value with
        | [] => words
        | first :: more => append first false ++ more.map fun field => (field, false)
    match parts with
    | [] => return words
    | .text text quoted :: rest => expandParts f streams fuel split (append text quoted) rest
    | .variable name otherwise quoted :: rest =>
      let value ← parameter f name
      let value := if value.isEmpty then otherwise else value.toList
      expandParts f streams fuel split (place value quoted) rest
    | .capture script quoted :: rest =>
      let n ← newBuffer
      isolated (runScript f { streams with out := .buffer n } fuel (String.ofList script))
      let value := decodeUtf8 (trimNewlines (← bufferOf n))
      expandParts f streams fuel split (place value quoted) rest

def expandWords (f : Frame) (streams : Streams) : (fuel : Nat) → List Word → Run (List String)
  | 0, _ => return []
  | _, [] => return []
  | fuel + 1, word :: rest => do
    let fields ← expandWord f streams fuel true word
    return fields ++ (← expandWords f streams fuel rest)

def applyRedirects (f : Frame) (line : Nat) : (fuel : Nat) → Streams → List Redirect → Run (Option Streams)
  | 0, _, _ => return none
  | _, streams, [] => return some streams
  | fuel + 1, streams, r :: rest => do
    let fields ← expandWord f streams fuel false r.target
    match ← redirect f line streams r.stream r.text (fields.headD "") with
    | some streams => applyRedirects f line fuel streams rest
    | none => return none

def assignAll (f : Frame) (streams : Streams) (exported : Bool) : (fuel : Nat) → List (String × Word) → Run Unit
  | 0, _ => return
  | _, [] => return
  | fuel + 1, (name, word) :: rest => do
    let fields ← expandWord f streams fuel false word
    setVariable name (fields.headD "") exported
    assignAll f streams exported fuel rest

def runCommand (f : Frame) (line : Nat) (streams : Streams) : (fuel : Nat) → List String → Run Unit
  | 0, _ => return
  | _, [] => return
  | fuel + 1, name :: args => do
    match name with
    | ":" => setStatus 0
    | "exit" =>
      match args.head? with
      | none => pure ()
      | some text =>
        match exitStatus? f.dialect text with
        | some status => setStatus status
        | none =>
          complain f line streams ("exit: Illegal number: " ++ text)
            ("exit: " ++ text ++ ": numeric argument required")
          setStatus 2
      modify fun s => { s with ending := some .exit }
    | "kill" => kill args
    | "cd" => changeDirectory f line streams (args.headD "/")
    | "export" =>
      setStatus 0
      exportAll args
    | "unset" => modify fun s =>
        { s with status := 0, bindings := s.bindings.filter fun v => !args.contains v.1 }
    | "set" =>
      setStatus 0
      setOptions args
    | "eval" => runScript f streams fuel (" ".intercalate args)
    | "exec" =>
      runCommand f line streams fuel args
      modify fun s => { s with ending := s.ending.orElse fun _ => some .exit }
    | "test" => modify fun s => { s with status := if condition s args then 0 else 1 }
    | "[" | "[[" =>
      let args := if name = "[" then insideBrackets args
        else if args.getLast? = some "]]" then args.dropLast else args
      modify fun s => { s with status := if condition s args then 0 else 1 }
    | "env" | "printenv" =>
      match args with
      | [wanted] =>
        if name = "printenv" then
          match (environmentOf (← get)).get? wanted with
          | some value =>
            write streams.out (Tool.bytesOf (value ++ "\n"))
            setStatus 0
          | none => setStatus 1
        else runCommand f line streams fuel args
      | [] => setStatus 0
      | _ => runCommand f line streams fuel args
    | _ =>
      match dialectOf? name with
      | some dialect => runShell dialect name streams fuel args
      | none =>
        if !(← runTool f.dialect name args streams) then
          if !(← runTool .system (toolName name) args streams) then missing f line streams name

def runShell (dialect : Dialect) (name : String) (streams : Streams) : (fuel : Nat) → List String → Run Unit
  | 0, _ => return
  | fuel + 1, args => do
    let before ← get
    match shellArguments args with
    | (options, some (script, args)) =>
      modify fun s => { s with bindings := s.bindings.filter (·.2.exported), strict := false, pipefail := false }
      setOptions options
      runScript { dialect, name := args.headD name, args := args.drop 1 } streams fuel script
      modify fun s =>
        { s with
          bindings := before.bindings, directory := before.directory
          strict := before.strict, pipefail := before.pipefail
          ending := none
          status := match s.ending with
            | some (.killed signal) => 128 + signal
            | _ => s.status }
    | (_, none) => withoutScript dialect name streams args

/-- Runs a part of a script. In a condition, failures end nothing. -/
def runPart (f : Frame) (streams : Streams) : (fuel : Nat) → (tested : Bool) → Script → Run Unit
  | 0, _, _ => return
  | fuel + 1, tested, script => do
    if (← get).ending.isSome then return
    match script with
    | .empty => return
    | .simple c line =>
      let before ← get
      let words ← expandWords f streams fuel c.words
      match ← applyRedirects f line fuel streams c.redirects with
      | none => pure ()
      | some streams =>
        if words.isEmpty then
          setStatus 0
          assignAll f streams false fuel c.assignments
        else
          let bindings := (← get).bindings
          assignAll f streams true fuel c.assignments
          runCommand f line streams fuel words
          if !c.assignments.isEmpty then modify fun s => { s with bindings }
      if !tested && before.strict && (← get).status != 0 && (← get).ending.isNone then
        modify fun s => { s with ending := some .exit }
    | .sequence first second =>
      runPart f streams fuel tested first
      runPart f streams fuel tested second
    | .both first second =>
      runPart f streams fuel true first
      if (← get).status = 0 then runPart f streams fuel tested second
    | .either first second =>
      runPart f streams fuel true first
      if (← get).status != 0 then runPart f streams fuel tested second
    | .negated body =>
      runPart f streams fuel true body
      modify fun s => { s with status := if s.status = 0 then 1 else 0 }
    | .pipe left right =>
      let n ← newBuffer
      isolated (runPart f { streams with out := .buffer n } fuel tested left)
      let leftStatus := (← get).status
      let input ← bufferOf n
      isolated (runPart f { streams with input } fuel tested right)
      let s ← get
      if s.pipefail && s.status = 0 then setStatus leftStatus
      if !tested && s.strict && (← get).status != 0 && s.ending.isNone then
        modify fun s => { s with ending := some .exit }
    | .branch test yes no =>
      runPart f streams fuel true test
      if (← get).ending.isSome then return
      if (← get).status = 0 then runPart f streams fuel tested yes
      else
        setStatus 0
        runPart f streams fuel tested no
    | .group body redirects =>
      match ← applyRedirects f 1 fuel streams redirects with
      | none => return
      | some streams => runPart f streams fuel tested body
    | .nested body redirects =>
      match ← applyRedirects f 1 fuel streams redirects with
      | none => return
      | some streams =>
        isolated (runPart f streams fuel tested body)
        let s ← get
        if !tested && s.strict && s.status != 0 && s.ending.isNone then
          modify fun s => { s with ending := some .exit }

def runLines (f : Frame) (streams : Streams) :
    (fuel : Nat) → List (Except (SyntaxError × Nat) Script) → Run Unit
  | 0, _ => return
  | _, [] => return
  | fuel + 1, line :: rest => do
    if (← get).ending.isSome then return
    match line with
    | .ok script =>
      runPart f streams fuel false script
      runLines f streams fuel rest
    | .error (e, line) =>
      write streams.err (Tool.bytesOf (faultText f line e ++ "\n"))
      setStatus 2
      modify fun s => { s with ending := some .exit }

def runScript (f : Frame) (streams : Streams) : (fuel : Nat) → String → Run Unit
  | 0, _ => return
  | fuel + 1, script => runLines f streams fuel (Script.linesOf script)

end

end Run

end SecretDotenv.Shell
