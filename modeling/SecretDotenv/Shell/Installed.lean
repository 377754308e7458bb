import SecretDotenv.Shell.Run

/-! The programs that every machine has: shells, and the small programs that need
nothing but their arguments and input. -/
namespace SecretDotenv.Shell

open SecretDotenv.Text SecretDotenv.Machine

/-- Far more steps in depth than any script is nested. -/
def depth : Nat := 1000000

def outputOf (s : State) : Output :=
  let code := match s.ending with
    | some (.killed _) => none
    | _ => some s.status
  { code, stdout := ofUtf8 (s.buffers.getD 0 []), stderr := ofUtf8 (s.buffers.getD 1 []) }

def replyOf (s : State) : Reply :=
  { output := outputOf s, disk := s.disk, elapsed := s.elapsed + 1 }

/-- A shell as the first process: a signal ends it and is seen. -/
def startShell (dialect : Dialect) (program : String) (args : List String) : Run Unit :=
  match Run.shellArguments args with
  | (options, some (script, args)) => do
    Run.setOptions options
    Run.runScript { dialect, name := args.headD program, args := args.drop 1 } {} depth script
  | (_, none) => Run.withoutScript dialect program {} args

def start? (program : String) (args : List String) (s : State) : Option State :=
  let name := Run.toolName program
  match Run.dialectOf? program with
  | some dialect => some (startShell dialect program args s).2
  | none =>
    if name ∈ ["test", "[", "printenv", "env"] then
      some (Run.runCommand { dialect := .system, name } 1 {} depth (name :: args) s).2
    else
      match Run.runTool .system name args {} s with
      | (true, s) => some s
      | (false, _) => none

def installed : Programs := fun m c =>
  let bindings := (m.environmentOf c).map fun (name, value) => (name, { value, exported := true })
  (start? c.program c.args { bindings, directory := m.directoryOf c, disk := m.disk }).map replyOf

end SecretDotenv.Shell
