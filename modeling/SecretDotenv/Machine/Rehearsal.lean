import SecretDotenv.Machine.Basic

/-! Programs that answer from a list prepared beforehand, whatever they are asked. With
them a run can be tried without the vaults themselves. -/
namespace SecretDotenv.Machine

structure Response where
  code : Nat := 0
  stdout : String := ""
  stderr : String := ""
  /-- What the file to be encrypted holds afterwards. -/
  replace : Option String := none
  signal : Bool := false
deriving DecidableEq, Repr

structure Rehearsal where
  tools : List Place
  /-- One answer for each call, whichever program is called. -/
  responses : List Response

namespace Rehearsal

def exhausted : Response :=
  { code := 97, stderr := "no scripted response" }

def tool? (r : Rehearsal) (disk : Disk) (directory : Path) (program : String) : Option Place :=
  if program.toList.contains '/' then
    match disk.locate directory (Path.ofString program) with
    | .ok place => if place ∈ r.tools then some place else none
    | .error _ => none
  else none

/-- The file that is encrypted in place, if the arguments say so. -/
def target? (c : Command) : Option Path :=
  if "-e" ∈ c.args then c.args.getLast?.map Path.ofString else none

structure Seen where
  tool : String
  args : List String
  directory : Path
  environment : Environment
  /-- The text of the file to be encrypted, if there is such a file and it can be read. -/
  file : Option (Option String)

def pathOf (place : Place) : Path :=
  { bytes := if place.isEmpty then [Path.slash] else place.flatMap (Path.slash :: ·) }

def seen? (r : Rehearsal) (m : Machine) (call : Call) : Option Seen :=
  let c := call.command
  let directory := m.directoryOf c
  if !call.started then none
  else (r.tool? call.disk directory c.program).map fun place =>
    { tool := Text.ofUtf8 (place.getLast?.getD [])
      args := c.args
      directory := match call.disk.locate m.directory directory with
        | .ok place => pathOf place
        | .error _ => directory
      environment := m.environmentOf c
      file := (target? c).map fun path => (call.disk.read directory path).toOption }

def seen (r : Rehearsal) (m : Machine) : List Seen :=
  m.calls.filterMap (r.seen? m)

def programs (r : Rehearsal) : Programs := fun m c =>
  let directory := m.directoryOf c
  match r.tool? m.disk directory c.program with
  | none => none
  | some _ =>
    let response := r.responses.getD (r.seen m).length exhausted
    let replaced := match target? c, response.replace with
      | some path, some text => (m.disk.write directory path text).toOption
      | _, _ => none
    some {
      output := {
        code := if response.signal then none else some (response.code % 256)
        stdout := response.stdout
        stderr := response.stderr }
      disk := replaced.getD m.disk }

end Rehearsal

end SecretDotenv.Machine
