import SecretDotenv.Text.Utf8
import SecretDotenv.Text.Pieces

/-! File paths. A path is bytes, for file names need not be text; it is shown as
text. The parts of a path are what stands between slashes, except empty parts
and single dots. -/
namespace SecretDotenv.Machine

open SecretDotenv.Text

structure Path where
  bytes : List UInt8
deriving DecidableEq, Repr, Inhabited

namespace Path

def slash : UInt8 := 0x2F
def dot : UInt8 := 0x2E

def ofString (s : String) : Path :=
  { bytes := utf8 s.toList }

/-- The path as text, bytes that are no text replaced. -/
def display (p : Path) : String :=
  ofUtf8 p.bytes

def isAbsolute (p : Path) : Bool :=
  p.bytes.head? = some slash

def splitBytes : List UInt8 → List (List UInt8)
  | [] => [[]]
  | b :: rest =>
    if b = slash then [] :: splitBytes rest
    else match splitBytes rest with
      | [] => [[b]]
      | first :: more => (b :: first) :: more

def pieces (p : Path) : List (List UInt8) :=
  splitBytes p.bytes

/-- A path, last byte first, without the slashes and dots that add no part at its
end; the slash of the root stays. -/
def trimEndReversed : List UInt8 → List UInt8
  | b :: c :: rest =>
    if b = slash then trimEndReversed (c :: rest)
    else if b = dot && c = slash then trimEndReversed (c :: rest)
    else b :: c :: rest
  | short => short

def trimmed (p : Path) : Path :=
  { bytes := (trimEndReversed p.bytes.reverse).reverse }

/-- The path without its last part; the root and the empty path have none to lose. -/
def parent? (p : Path) : Option Path :=
  let whole := p.trimmed
  if whole.bytes.isEmpty || whole.bytes = [slash] then none
  else
    let front := (whole.bytes.reverse.dropWhile (· != slash)).reverse
    some (Path.trimmed { bytes := front })

def join (p : Path) (name : String) : Path :=
  let tail := utf8 name.toList
  if tail.head? = some slash || p.bytes.isEmpty then { bytes := tail }
  else if p.bytes.getLast? = some slash then { bytes := p.bytes ++ tail }
  else { bytes := p.bytes ++ slash :: tail }

def fileName? (p : Path) : Option (List UInt8) :=
  let last := (p.trimmed.bytes.reverse.takeWhile (· != slash)).reverse
  if last.isEmpty || last = [dot] || last = [dot, dot] then none else some last

/-- The part of a file name before its last dot and the part behind it. A dot in
front of the name does not count. -/
def splitExtension (name : List UInt8) : List UInt8 × Option (List UInt8) :=
  let after := (name.reverse.takeWhile (· != dot)).reverse
  let before := name.take (name.length - after.length - 1)
  if after.length = name.length || before.isEmpty then (name, none) else (before, some after)

def stem? (p : Path) : Option String :=
  p.fileName?.map fun name => ofUtf8 (splitExtension name).1

def extension? (p : Path) : Option String :=
  p.fileName?.bind fun name => (splitExtension name).2.map ofUtf8

end Path

end SecretDotenv.Machine
