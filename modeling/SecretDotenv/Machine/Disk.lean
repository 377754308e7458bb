import SecretDotenv.Machine.Path

/-! The files that a program can reach: a tree of directories, files and links,
given by the place of each item. -/
namespace SecretDotenv.Machine

/-- The parts of the way from the root, first part first. -/
abbrev Place := List (List UInt8)

inductive Disk.Item where
  | directory
  | file (text : String)
  | link (target : Path)
deriving DecidableEq, Repr

structure Disk where
  items : List (Place × Disk.Item) := []
deriving Repr, Inhabited

inductive Disk.Error where
  | notFound
  | notDirectory
  | isDirectory
  | tooManyLinks
  | denied
  | irregular
deriving DecidableEq, Repr

def Disk.Error.message : Disk.Error → String
  | .notFound => "No such file or directory (os error 2)"
  | .notDirectory => "Not a directory (os error 20)"
  | .isDirectory => "Is a directory (os error 21)"
  | .tooManyLinks => "Too many levels of symbolic links (os error 40)"
  | .denied => "Permission denied (os error 13)"
  | .irregular => "the source path is neither a regular file nor a symlink to a regular file"

namespace Disk

/-- The item at a place; the root is always a directory. -/
def item? (d : Disk) (place : Place) : Option Item :=
  if place.isEmpty then some .directory else (d.items.find? (·.1 == place)).map (·.2)

def putItems (place : Place) (item : Item) : List (Place × Item) → List (Place × Item)
  | [] => [(place, item)]
  | (p, i) :: rest => if p = place then (p, item) :: rest else (p, i) :: putItems place item rest

def put (d : Disk) (place : Place) (item : Item) : Disk :=
  { items := putItems place item d.items }

def erase (d : Disk) (place : Place) : Disk :=
  { items := d.items.filter (·.1 != place) }

/-- Follows the parts of a path from a directory. `follow` goes on behind a link; a link
at the end is followed only if `followLast`. -/
def walkBy (d : Disk) (followLast : Bool)
    (follow : Place → List (List UInt8) → Except Error Place) (here : Place) :
    (todo : List (List UInt8)) → Except Error Place
  | [] => .ok here
  | part :: todo =>
    if part.isEmpty || part = [Path.dot] then d.walkBy followLast follow here todo
    else if part = [Path.dot, Path.dot] then d.walkBy followLast follow here.dropLast todo
    else
      let next := here ++ [part]
      match d.item? next with
      | some .directory => d.walkBy followLast follow next todo
      | some (.file _) => if todo.isEmpty then .ok next else .error .notDirectory
      | none => if todo.isEmpty then .ok next else .error .notFound
      | some (.link target) =>
        if todo.isEmpty && !followLast then .ok next
        else follow (if target.isAbsolute then [] else here) (target.pieces ++ todo)

def walk (d : Disk) (followLast : Bool) :
    (links : Nat) → (here : Place) → (todo : List (List UInt8)) → Except Error Place
  | 0 => d.walkBy followLast fun _ _ => .error .tooManyLinks
  | more + 1 => d.walkBy followLast (d.walk followLast more)

def locate (d : Disk) (directory path : Path) (followLast : Bool := true) : Except Error Place :=
  if path.bytes.isEmpty then .error .notFound
  else if path.bytes.contains 0 then .error .notFound
  else if path.isAbsolute then d.walk followLast 40 [] path.pieces
  else do
    let here ← d.walk true 40 [] directory.pieces
    d.walk followLast 40 here path.pieces

def lookup (d : Disk) (directory path : Path) : Except Error Item := do
  match d.item? (← d.locate directory path) with
  | some item => .ok item
  | none => .error .notFound

def isFile (d : Disk) (directory path : Path) : Bool :=
  match d.lookup directory path with
  | .ok (.file _) => true
  | _ => false

def isPresent (d : Disk) (directory path : Path) : Bool :=
  match d.lookup directory path with
  | .ok _ => true
  | .error _ => false

def isLink (d : Disk) (directory path : Path) : Bool :=
  match d.locate directory path false with
  | .ok place => match d.item? place with
    | some (.link _) => true
    | _ => false
  | .error _ => false

def read (d : Disk) (directory path : Path) : Except Error String := do
  match ← d.lookup directory path with
  | .file text => .ok text
  | _ => .error .isDirectory

def write (d : Disk) (directory path : Path) (text : String) : Except Error Disk := do
  let place ← d.locate directory path
  match d.item? place with
  | some .directory => .error .isDirectory
  | _ =>
    match d.item? place.dropLast with
    | some .directory => .ok (d.put place (.file text))
    | some _ => .error .notDirectory
    | none => .error .notFound

def copy (d : Disk) (directory source target : Path) : Except Error Disk := do
  match ← d.lookup directory source with
  | .file text => d.write directory target text
  | _ => .error .irregular

def remove (d : Disk) (directory path : Path) : Disk :=
  match d.locate directory path false with
  | .ok place => d.erase place
  | .error _ => d

def makeDirectories (d : Disk) (place : Place) : Disk :=
  (List.range place.length).foldl (fun d n =>
    let above := place.take (n + 1)
    if (d.item? above).isSome then d else d.put above .directory) d

def placeOf (path : Path) : Place :=
  path.pieces.filter fun part => !part.isEmpty

def add (d : Disk) (path : Path) (item : Item) : Disk :=
  let place := placeOf path
  (d.makeDirectories place.dropLast).put place item

/-- A name in a directory that nothing has: `stem` and the least number that is free. -/
def freshPath (d : Disk) (directory parent : Path) (stem : String) : Path :=
  let candidates := (List.range (d.items.length + 1)).map fun n => parent.join (stem ++ toString n)
  (candidates.find? fun p => !d.isPresent directory p && !d.isLink directory p).getD
    (parent.join stem)

end Disk

end SecretDotenv.Machine
