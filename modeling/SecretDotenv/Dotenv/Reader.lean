import SecretDotenv.Text.Blank
import SecretDotenv.Dotenv.ParseError

/-! The reader of dotenv text. It alternates between a name (or comment) and
the value behind `=`; the first character of a value that is not blank decides
how the value ends. Every function here works on what is left of the text, so
that what a token took and where the next one starts are plain facts about lists. -/
namespace SecretDotenv.Dotenv

open SecretDotenv.Text

structure ReaderOptions where
  allowBackticks : Bool := true
  allowJson : Bool := false
  allowYaml : Bool := false
deriving DecidableEq, Repr

structure Cursor where
  rest : List Char
  position : Position := {}
deriving DecidableEq, Repr

def Cursor.skip (c : Cursor) (taken rest : List Char) : Cursor :=
  { rest, position := c.position.over taken }

/-- What a step yields, and where it leaves the reader even when it fails. -/
abbrev Step (α : Type) := Except ParseError α × Cursor

def fail {α : Type} (cause : ParseError.Cause) (c : Cursor) : Step α :=
  (.error { cause, position := c.position }, c)

/-- A line feed, or a carriage return before one, comes next. -/
def atLineBreak : List Char → Bool
  | '\n' :: _ => true
  | '\r' :: '\n' :: _ => true
  | _ => false

def isNameChar (c : Char) : Bool :=
  c.isAlphanum || c == '_'

def Cursor.skipWhile (p : Char → Bool) (c : Cursor) : Cursor :=
  c.skip (c.rest.takeWhile p) (c.rest.dropWhile p)

def takeLine (c : Cursor) : List Char × Cursor :=
  let line := c.rest.takeWhile (· != '\n')
  let text := if line.getLast? = some '\r' then line.dropLast else line
  match c.rest.dropWhile (· != '\n') with
  | [] => (text, c.skip line [])
  | _ :: rest => (text, c.skip (line ++ ['\n']) rest)

/-- The characters of a name up to and with `=`; `name` holds those read, last
first, and `ended` says that white space followed them. -/
def readName (start : Position) :
    (rest : List Char) → Position → (name : List Char) → (ended : Bool) → Step Token
  | [], p, name, _ => fail (.missingAssignment (String.ofList name.reverse)) ⟨[], p⟩
  | c :: rest, p, name, ended =>
    if c = '=' then
      if name.isEmpty then fail .missingName ⟨c :: rest, p⟩
      else (.ok { kind := .name, text := String.ofList name.reverse, position := start },
        ⟨rest, p.after c⟩)
    else if atLineBreak (c :: rest) then
      fail (.missingAssignment (String.ofList name.reverse)) ⟨c :: rest, p⟩
    else if isNameChar c then
      if ended then fail (.nameResumed c) ⟨c :: rest, p⟩
      else readName start rest (p.after c) (c :: name) ended
    else if isBlank c then readName start rest (p.after c) name (ended || !name.isEmpty)
    else fail (.badCharacter c) ⟨c :: rest, p⟩

def readNameOrComment (c : Cursor) : Step (Option Token) :=
  let c := c.skipWhile isBlank
  match c.rest with
  | [] => (.ok none, c)
  | '#' :: rest =>
    let (text, after) := takeLine (c.skip ['#'] rest)
    (.ok (some { kind := .comment, text := String.ofList text, position := c.position }), after)
  | _ =>
    let (token, after) := readName c.position c.rest c.position [] false
    (token.map some, after)

def escaped? (quote c : Char) : Option Char :=
  if c = 'n' then some '\n'
  else if c = 'r' then some '\r'
  else if c = 't' then some '\t'
  else if c = 'b' then some '\x08'
  else if c = '\\' || c = '"' || c = '\'' || c = quote then some c
  else none

def hexRun (s : List Char) : List Char :=
  (s.take 4).takeWhile isHexDigit

theorem length_hexRun_le (s : List Char) : (hexRun s).length ≤ s.length := by
  exact ((List.takeWhile_sublist _).trans (List.take_sublist 4 s)).length_le

/-- What a `\u` escape with these digits stands for. Digits that are not four, or
that name no character, leave the escape as it was written. -/
def unicodeEscape (digits : List Char) : List Char :=
  let n := hexNumber digits
  if digits.length = 4 && n.isValidChar then [Char.ofNat n] else '\\' :: 'u' :: digits

/-- The body of a capture with escapes, behind its opening `quote`; `text` holds
what was read, last first. An unknown escape keeps its backslash, and the
character behind it is read as any other. -/
def readEscaped (quote : Char) (unterminated : ParseError.Cause) (token : String → Token) :
    (rest : List Char) → Position → (text : List Char) → Step Token
  | [], p, _ => fail unterminated ⟨[], p⟩
  | c :: rest, p, text =>
    if c = quote then (.ok (token (String.ofList text.reverse)), ⟨rest, p.after c⟩)
    else if c = '\\' then
      match rest with
      | [] => fail unterminated ⟨[], p.after c⟩
      | 'u' :: more =>
        let digits := hexRun more
        let p := (p.after c).after 'u'
        if digits.length < 4 && more.length = digits.length then
          fail .unterminatedEscape ⟨[], p.over digits⟩
        else
          readEscaped quote unterminated token (more.drop digits.length) (p.over digits)
            ((unicodeEscape digits).reverse ++ text)
      | next :: more =>
        match escaped? quote next with
        | some e =>
          readEscaped quote unterminated token more ((p.after c).after next) (e :: text)
        | none => readEscaped quote unterminated token (next :: more) (p.after c) ('\\' :: text)
    else readEscaped quote unterminated token rest (p.after c) (c :: text)
  termination_by rest => rest.length

/-- The body of a single-quoted value: only the quote itself can be escaped. -/
def readSingleQuoted (start : Position) :
    (rest : List Char) → Position → (text : List Char) → Step Token
  | [], p, _ => fail (.unterminatedCapture .single start.line) ⟨[], p⟩
  | '\\' :: '\'' :: rest, p, text =>
    readSingleQuoted start rest ((p.after '\\').after '\'') ('\'' :: text)
  | c :: rest, p, text =>
    if c = '\'' then
      (.ok { kind := .string .single, text := String.ofList text.reverse, position := start },
        ⟨rest, p.after c⟩)
    else readSingleQuoted start rest (p.after c) (c :: text)

/-- A block that ends with a `}` at the start of a line; `text` holds what was
read, last first. -/
def readJson (start : Position) : (rest : List Char) → Position → (text : List Char) → Step Token
  | [], p, _ => fail (.unterminatedCapture .json start.line) ⟨[], p⟩
  | c :: rest, p, text =>
    if c = '}' && text.head? = some '\n' then
      (.ok { kind := .json, text := String.ofList (c :: text).reverse, position := start },
        ⟨rest, p.after c⟩)
    else readJson start rest (p.after c) (c :: text)

def atFrontMatter : List Char → Bool
  | '-' :: '-' :: '-' :: rest => atLineBreak rest
  | _ => false

theorem length_takeLine_lt {c : Cursor} (h : c.rest ≠ []) :
    (takeLine c).2.rest.length < c.rest.length := by
  have hd : (c.rest.dropWhile (· != '\n')).length ≤ c.rest.length :=
    (List.dropWhile_sublist _).length_le
  unfold takeLine
  split
  · simpa [Cursor.skip] using List.length_pos_iff.2 h
  · next rest hr =>
    rw [hr, List.length_cons] at hd
    simp only [Cursor.skip]
    omega

/-- The lines of front matter up to a line of three dashes, whose end is not part
of the text; `text` holds the lines read. -/
def readYaml (start : Position) (c : Cursor) (text : List Char) : Step Token :=
  if _ : c.rest = [] then fail (.unterminatedCapture .yaml start.line) c
  else
    let line := takeLine c
    if line.1 = ['-', '-', '-'] then
      let body := if text.getLast? = some '\n' then text.dropLast else text
      (.ok { kind := .yaml, text := String.ofList body, position := start }, line.2)
    else readYaml start line.2 (text ++ line.1 ++ ['\n'])
  termination_by c.rest.length
  decreasing_by exact length_takeLine_lt ‹_›

/-- An unquoted value ends before a line break, or before a `#` that is not its
first character. -/
def scalarRun : (first : Bool) → List Char → List Char × List Char
  | _, [] => ([], [])
  | first, c :: rest =>
    if atLineBreak (c :: rest) || (c == '#' && !first) then ([], c :: rest)
    else
      let (taken, left) := scalarRun false rest
      (c :: taken, left)

/-- The value behind `=`; empty if the line or the text ends there. -/
def readValue (options : ReaderOptions) (c : Cursor) : Step Token :=
  let c := c.skipWhile fun x => isBlank x && x != '\n' && x != '\r'
  let start := c.position
  if c.rest.isEmpty || atLineBreak c.rest then
    (.ok { kind := .string .bare, text := "", position := start }, c)
  else
    match c.rest with
    | '"' :: rest =>
      readEscaped '"' (.unterminatedCapture .double start.line)
        (fun text => { kind := .string .double, text, position := start }) rest (start.after '"') []
    | '\'' :: rest => readSingleQuoted start rest (start.after '\'') []
    | rest =>
      if rest.head? = some '\x60' && options.allowBackticks then
        readEscaped '\x60' (.unterminatedCapture .backtick start.line)
          (fun text => { kind := .string .backtick, text, position := start })
          rest.tail (start.after '\x60') []
      else if rest.head? = some '{' && options.allowJson then
        readJson start rest start []
      else if atFrontMatter rest && options.allowYaml then
        readYaml start (takeLine c).2 []
      else
        let (text, left) := scalarRun true rest
        (.ok (Token.scalar (String.ofList (trimEnd text)) start), c.skip text left)

structure Reader where
  options : ReaderOptions
  cursor : Cursor
  /-- A name was read and its value was not. -/
  expectsValue : Bool := false
deriving DecidableEq, Repr

def Reader.ofText (text : String) (options : ReaderOptions) : Reader :=
  { options, cursor := { rest := text.toList } }

/-- Reads one token, or nothing at the end. Behind a value, read or failed, the
reader expects a name. -/
def Reader.next (r : Reader) : Except ParseError (Option Token) × Reader :=
  if r.expectsValue then
    let (token, cursor) := readValue r.options r.cursor
    (token.map some, { r with cursor, expectsValue := false })
  else
    let (token, cursor) := readNameOrComment r.cursor
    let expectsValue := match token with
      | .ok (some t) => t.kind == .name
      | _ => false
    (token, { r with cursor, expectsValue })

end SecretDotenv.Dotenv
