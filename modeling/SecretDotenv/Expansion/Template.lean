import SecretDotenv.Expansion.Failure
import SecretDotenv.Text.Pieces

/-! A raw value as what it consists of: text, references and captures, in order. What
is a reference is seen in the raw value alone, so nothing that is put in is read again. -/
namespace SecretDotenv.Expansion

open SecretDotenv.Text

inductive Otherwise where
  | fail (message : Option String)
  | use (value : String)
  /-- The value, which becomes the value of the variable as well. -/
  | assign (value : String)
deriving DecidableEq, Repr

inductive Piece where
  | text (text : String)
  | reference (name : String) (otherwise : Otherwise)
  | argument (digits : String)
  | capture (script : String)
  | fault (cause : Failure.Cause)
deriving DecidableEq, Repr

structure Placed where
  position : Nat
  piece : Piece
deriving DecidableEq, Repr

structure Switches where
  /-- `$1` -/
  arguments : Bool := false
  /-- `%NAME%` -/
  percents : Bool := false
  /-- `$(...)` -/
  captures : Bool := false
deriving DecidableEq, Repr

namespace Piece

def isNameStart (c : Char) : Bool :=
  c.isAlpha

def isNamePart (c : Char) : Bool :=
  c.isAlphanum || c = '_'

def isName : List Char → Bool
  | [] => false
  | c :: rest => isNameStart c && rest.all isNamePart

/-- `%NAME%`; two percent signs are text, and a name that is not set is nothing. -/
def ofPercent : List Char → Piece × List Char
  | '%' :: rest => (.text "%%", rest)
  | rest =>
    match cut '%' rest with
    | some (name, after) => (.reference (String.ofList name) (.use ""), after)
    | none => (.fault (.unterminated '%' "%"), [])

def otherwiseOf : List Char → Otherwise
  | '-' :: value => .use (String.ofList value)
  | '=' :: value => .assign (String.ofList value)
  | '?' :: message => .fail (if message.isEmpty then none else some (String.ofList message))
  | value => .use (String.ofList value)

def ofBraces (body : List Char) : Piece :=
  if body.isEmpty then .fault .noName
  else
    let (name, otherwise) := match cut ':' body with
      | some (name, rest) => (name, otherwiseOf rest)
      | none => (body, .fail none)
    if name.isEmpty then .fault .emptyName
    else if isName name then .reference (String.ofList name) otherwise
    else .fault (.badName (String.ofList name))

def ofCapture (script : List Char) : Piece :=
  if script.all isBlank then .fault .noScript else .capture (String.ofList script)

/-- A backslash that only ends a name. -/
def dropMark : List Char → List Char
  | '\\' :: rest => rest
  | rest => rest

/-- Reads one piece from a text that begins with `c`, and returns what follows it. -/
def read (switches : Switches) (c : Char) (rest : List Char) : Piece × List Char :=
  match c, rest with
  | '\\', '$' :: rest => (.text "$", rest)
  | '%', rest => if switches.percents then ofPercent rest else (.text "%", rest)
  | '$', '\x7b' :: rest =>
    match cut '\x7d' rest with
    | some (body, after) => (ofBraces body, after)
    | none => (.fault (.unterminated '\x7d' "$\x7b"), [])
  | '$', n :: rest =>
    if n = '(' && switches.captures then
      match cut ')' rest with
      | some (script, after) => (ofCapture script, after)
      | none => (.fault (.unterminated ')' "$("), [])
    else if isNameStart n then
      (.reference (String.ofList (n :: rest.takeWhile isNamePart)) (.fail none),
        dropMark (rest.dropWhile isNamePart))
    else if n.isDigit && switches.arguments then
      (.argument (String.ofList (n :: rest.takeWhile Char.isDigit)),
        dropMark (rest.dropWhile Char.isDigit))
    else (.text "$", n :: rest)
  | c, rest => (.text c.toString, rest)

theorem length_of_cut {mark : Char} {s before after : List Char}
    (h : cut mark s = some (before, after)) : after.length < s.length := by
  induction s generalizing before after with
  | nil => simp [cut] at h
  | cons c rest ih =>
    simp only [cut] at h
    split at h
    · simp only [Option.some.injEq, Prod.mk.injEq] at h
      simp [← h.2]
    · obtain ⟨⟨front, back⟩, found, h⟩ := Option.map_eq_some_iff.1 h
      simp only [Prod.mk.injEq] at h
      have := ih found
      simp only [List.length_cons, ← h.2]
      omega

theorem length_dropMark (s : List Char) : (dropMark s).length ≤ s.length := by
  unfold dropMark
  split <;> simp

theorem length_dropWhile (p : Char → Bool) (s : List Char) :
    (s.dropWhile p).length ≤ s.length :=
  (List.dropWhile_suffix p).length_le

theorem length_ofPercent (rest : List Char) : (ofPercent rest).2.length ≤ rest.length := by
  unfold ofPercent
  split
  · simp
  · split
    · exact Nat.le_of_lt (length_of_cut ‹_›)
    · simp

theorem length_read (switches : Switches) (c : Char) (rest : List Char) :
    (read switches c rest).2.length ≤ rest.length := by
  unfold read
  split
  · simp
  · split
    · exact length_ofPercent _
    · simp
  · split
    · have := length_of_cut ‹_›
      simp only [List.length_cons]
      omega
    · simp
  · rename_i n rest _
    have names := Nat.le_trans (length_dropMark _) (length_dropWhile isNamePart rest)
    have digits := Nat.le_trans (length_dropMark _) (length_dropWhile Char.isDigit rest)
    split
    · split
      · have := length_of_cut ‹_›
        simp only [List.length_cons]
        omega
      · simp
    · split
      · simp only [List.length_cons]
        omega
      · split
        · simp only [List.length_cons]
          omega
        · simp
  · simp

end Piece

def piecesFrom (switches : Switches) (position : Nat) : List Char → List Placed
  | [] => []
  | c :: rest =>
    let found := Piece.read switches c rest
    { position, piece := found.1 } ::
      piecesFrom switches (position + 1 + (rest.length - found.2.length)) found.2
  termination_by raw => raw.length
  decreasing_by exact Nat.lt_succ_of_le (Piece.length_read switches c rest)

def pieces (switches : Switches) (raw : String) : List Placed :=
  piecesFrom switches 0 raw.toList

end SecretDotenv.Expansion
