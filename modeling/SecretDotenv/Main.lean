import SecretDotenv.CommandLine.Needs
import SecretDotenv.Shell.Installed

/-! The program: it gathers what a command line may look at, runs it, prints what
comes of it and writes the files that have changed. -/
namespace SecretDotenv.Main

open SecretDotenv.Machine

def environment (names : List String) : IO Environment := do
  let values ← names.mapM fun name => do return (name, ← IO.getEnv name)
  return values.filterMap fun (name, value) => value.map fun value => (name, value)

def gather (directory : Path) (disk : Disk) (path : Path) : IO Disk := do
  let whole := if path.isAbsolute then path else directory.join path.display
  try
    return disk.add whole (.file (← IO.FS.readFile path.display))
  catch
    | .noFileOrDirectory .. => return disk
    | _ => return disk.makeDirectories (Disk.placeOf whole)

def randomNumbers (count : Nat) : IO Draws := do
  let bytes ← IO.getRandomBytes (USize.ofNat (8 * max count 1))
  let value (n : Nat) : Nat :=
    (List.range 8).foldl (fun total i => 256 * total + ((bytes.data[8 * (n % max count 1) + i]?).getD 0).toNat) 0
  return { value }

def store (before after : Disk) : IO Unit :=
  for (place, item) in after.items do
    match item with
    | .file text =>
      if before.item? place ≠ some item then
        let path : Path := { bytes := place.flatMap (Path.slash :: ·) }
        IO.FS.writeFile path.display text
    | _ => pure ()

def run (words : List String) : IO UInt32 := do
  let directory := Path.ofString (← IO.currentDir).toString
  let known ← environment CommandLine.knownVariables
  let start := Disk.makeDirectories {} (Disk.placeOf directory)
  let disk ← (CommandLine.inputs known words).foldlM (gather directory) start
  let texts := disk.items.filterMap fun (_, item) =>
    match item with
    | .file text => some text
    | _ => none
  let names := ((words ++ texts).flatMap CommandLine.namesIn).eraseDups
  let machine : Machine := {
    environment := known ++ (← environment names)
    directory
    disk
    draws := ← randomNumbers (CommandLine.numbers words) }
  let (outcome, after) := CommandLine.run Shell.installed words machine
  store disk after.disk
  (← IO.getStderr).putStr (outcome.log ++ outcome.stderr)
  (← IO.getStdout).putStr outcome.stdout
  return UInt32.ofNat outcome.code

end SecretDotenv.Main

def main (args : List String) : IO UInt32 :=
  SecretDotenv.Main.run args
