import SecretDotenv.Machine.Command

/-! The machine that commands run on: environment, files, the commands started so
far, a source of random numbers, and whether the run was told to stop. -/
namespace SecretDotenv.Machine

/-- Variables and their values; of two entries for a variable the first counts. -/
abbrev Environment := List (String × String)

def Environment.get? (e : Environment) (name : String) : Option String :=
  (e.find? (·.1 == name)).map (·.2)

/-- An endless sequence of random numbers, and how many were used. -/
structure Draws where
  value : Nat → Nat
  used : Nat := 0

def Draws.next (d : Draws) : Nat × Draws :=
  (d.value d.used, { d with used := d.used + 1 })

def Draws.take (n : Nat) (d : Draws) : List Nat × Draws :=
  ((List.range n).map fun i => d.value (d.used + i), { d with used := d.used + n })

structure Call where
  command : Command
  started : Bool
  disk : Disk

end Machine

structure Machine where
  environment : Machine.Environment := []
  directory : Machine.Path := Machine.Path.ofString "/"
  disk : Machine.Disk := {}
  calls : List Machine.Call := []
  draws : Machine.Draws := { value := fun n => n }
  aborted : Bool := false

namespace Machine

structure Reply where
  output : Output
  disk : Disk
  /-- Milliseconds until the program ends. -/
  elapsed : Nat := 1
  /-- The run is told to stop before the program ends. -/
  aborts : Bool := false

/-- The programs that are installed: what starting a command does, or nothing if its
program is not among them. -/
abbrev Programs := Machine → Command → Option Reply

def Programs.orElse (first second : Programs) : Programs :=
  fun m c => (first m c).orElse fun _ => second m c

def directoryOf (m : Machine) (c : Command) : Path :=
  match c.directory with
  | none => m.directory
  | some p => if p.isAbsolute then p else { bytes := m.directory.bytes ++ Path.slash :: p.bytes }

def environmentOf (m : Machine) (c : Command) : Environment :=
  c.overrides.reverse ++ m.environment

def hasZero (s : String) : Bool :=
  s.toList.contains '\x00'

def obstacle? (m : Machine) (c : Command) : Option StartError :=
  if hasZero c.program || c.args.any hasZero || c.overrides.any (fun v => hasZero v.1 || hasZero v.2) ||
      (c.directory.map (·.bytes.contains 0)).getD false then
    some .zeroByte
  else
    match m.disk.lookup m.directory (m.directoryOf c) with
    | .ok .directory => none
    | .ok _ => some (.disk .notDirectory)
    | .error e => some (.disk e)

/-- Why a program that is not installed does not start: a file or directory of its name
cannot be executed, else there is nothing. -/
def missingProgram (m : Machine) (c : Command) : StartError :=
  if c.program.toList.contains '/' then
    match m.disk.lookup (m.directoryOf c) (Path.ofString c.program) with
    | .ok _ => .disk .denied
    | .error e => .disk e
  else .disk .notFound

def record (m : Machine) (c : Command) (started : Bool) : Machine :=
  { m with calls := m.calls ++ [{ command := c, started, disk := m.disk }] }

/-- Starts a command and waits for its end, at most `limit` milliseconds. -/
def run (programs : Programs) (c : Command) (limit : Option Nat) (m : Machine) :
    Except CommandError Output × Machine :=
  match m.obstacle? c with
  | some reason => (.error (.start c.program reason), m.record c false)
  | none =>
    match programs m c with
    | none => (.error (.start c.program (m.missingProgram c)), m.record c false)
    | some reply =>
      let after := { m.record c true with
        disk := reply.disk, aborted := m.aborted || reply.aborts }
      match limit with
      | some ms =>
        if ms ≤ reply.elapsed then (.error (.timeout c.program ms), after)
        else (.ok reply.output, after)
      | none => (.ok reply.output, after)

end Machine

end SecretDotenv
