import SecretDotenv.Json.Value
import SecretDotenv.Text.Ascii

/-! YAML as JSON: one document of mappings with plain keys, sequences and scalars, in
block and in flow style, with anchors. Words are resolved by the core schema. -/
namespace SecretDotenv.Json.Yaml

open SecretDotenv.Text

/-- What is left of the text, the column in which that starts, and the named nodes. -/
structure State where
  column : Nat := 0
  rest : List Char
  anchors : List (String × Json) := []

abbrev Reader (α : Type) := StateT State Option α

/-! ## Words -/

def isPaddedNumber (s : List Char) : Bool :=
  let digits := (signOf s).2
  digits.length > 1 && digits.head? = some '0' && digits.all Char.isDigit

def baseOf? : List Char → Option (Nat × (Char → Bool) × List Char)
  | '0' :: 'x' :: rest => some (16, isHexDigit, rest)
  | '0' :: 'o' :: rest => some (8, fun c => '0' ≤ c && c ≤ '7', rest)
  | '0' :: 'b' :: rest => some (2, fun c => c = '0' || c = '1', rest)
  | _ => none

def integer? (s : List Char) : Option Int :=
  let (negative, body) := signOf s
  let (base, isDigit, digits) := (baseOf? body).getD (10, Char.isDigit, body)
  if digits.isEmpty || !digits.all isDigit || isPaddedNumber s then none
  else
    let n : Nat := digits.foldl (fun n d => base * n + hexValue d) 0
    if negative then (if n ≤ bound63 then some (-(n : Int)) else none)
    else if n < bound64 then some n
    else none

def resolve (word : List Char) : Json :=
  let text := String.ofList word
  if text ∈ ["", "~", "null", "Null", "NULL"] then .null
  else if text ∈ ["true", "True", "TRUE"] then .bool true
  else if text ∈ ["false", "False", "FALSE"] then .bool false
  else if String.ofList (signOf word).2 ∈ [".inf", ".Inf", ".INF"] || text ∈ [".nan", ".NaN", ".NAN"] then
    .null
  else
    match integer? word with
    | some n => .number (.integer n)
    | none =>
      if isDecimal word && !isPaddedNumber word && isFinite (ofDecimal word) then
        .number (.binary64 (ofDecimal word))
      else .string text

def resolveAs? (tag : String) (word : List Char) : Option Json :=
  match tag, resolve word with
  | "!!str", _ | "!", _ => some (.string (String.ofList word))
  | "!!null", .null => some .null
  | "!!bool", .bool b => some (.bool b)
  | "!!int", .number (.integer n) => some (.number (.integer n))
  | "!!float", .number (.integer n) =>
    let bits := nearest n.natAbs 0
    some (.number (.binary64 (if n < 0 then negated bits else bits)))
  | "!!float", .number n => some (.number n)
  | _, _ => none

/-! ## Moving on -/

def isBlank (c : Char) : Bool :=
  c = ' ' || c = '\t'

def isBreak (c : Char) : Bool :=
  c = '\n'

def endsToken : List Char → Bool
  | [] => true
  | c :: _ => isBlank c || isBreak c

def isFlowMark (c : Char) : Bool :=
  c ∈ [',', '[', ']', '\x7b', '\x7d']

def moved (column : Nat) : List Char → Nat
  | [] => column
  | c :: rest => moved (if isBreak c then 0 else column + 1) rest

def take (n : Nat) : Reader Unit :=
  modify fun s => { s with column := moved s.column (s.rest.take n), rest := s.rest.drop n }

def rest : Reader (List Char) := do
  return (← get).rest

def column : Reader Nat := do
  return (← get).column

/-- Where a tab is a blank. In block style it is none where a key may begin, since it
does not say how far a line is indented. -/
inductive Tabs where
  | blank
  | blankInLine
  | refused
  deriving DecidableEq

/-- Skips blanks and a comment. A tab that is refused stays, and no node begins with it. -/
def skipInLine (tabs : Tabs) : Reader Unit := do
  let skipped (c : Char) : Bool := if tabs = .refused then c = ' ' else isBlank c
  take ((← rest).takeWhile skipped).length
  match ← rest with
  | '#' :: comment => take (1 + (comment.takeWhile (!isBreak ·)).length)
  | _ => return

/-- Skips blanks, comments and line ends; tells whether there was a line end. -/
def skip (tabs : Tabs) : (fuel : Nat) → Reader Bool
  | 0 => return false
  | fuel + 1 => do
    skipInLine tabs
    match ← rest with
    | '\n' :: _ =>
      take 1
      let _ ← skip (if tabs = .blank then .blank else .refused) fuel
      return true
    | _ => return false

def atMarker : Reader Bool := do
  let s ← get
  let marks := ["---".toList, "...".toList]
  return s.column = 0 && marks.any fun m => m.isPrefixOf s.rest && endsToken (s.rest.drop 3)

def atEnd : Reader Bool := do
  return (← rest).isEmpty || (← atMarker)

/-! ## Scalars -/

def letterEscape? : Char → Option Char
  | '0' => some '\x00'
  | 'a' => some '\x07'
  | 'b' => some '\x08'
  | 't' | '\t' => some '\t'
  | 'n' => some '\n'
  | 'v' => some '\x0b'
  | 'f' => some '\x0c'
  | 'r' => some '\r'
  | 'e' => some '\x1b'
  | ' ' => some ' '
  | '"' => some '"'
  | '/' => some '/'
  | '\\' => some '\\'
  | 'N' => some '\u0085'
  | '_' => some '\u00a0'
  | 'L' => some '\u2028'
  | 'P' => some '\u2029'
  | _ => none

def digitCount? : Char → Option Nat
  | 'x' => some 2
  | 'u' => some 4
  | 'U' => some 8
  | _ => none

def dropTrailingBlanks (s : List Char) : List Char :=
  (s.reverse.dropWhile isBlank).reverse

/-- One line end is a blank, more are one less. -/
def foldedBreaks (count : Nat) : List Char :=
  if count = 1 then [' '] else List.replicate (count - 1) '\n'

/-- Blank lines in front of a text: how many, and the text without its own blanks. -/
def leadingBreaks : (fuel : Nat) → List Char → Nat × List Char
  | 0, s => (0, s)
  | fuel + 1, s =>
    match s.dropWhile isBlank with
    | '\n' :: rest =>
      let (n, rest) := leadingBreaks fuel rest
      (n + 1, rest)
    | rest => (0, rest)

/-- The rest of a quoted text: its characters, and how much of the source they take.
`done` is what was read so far, last character first, up to blanks that may go. -/
def quoted? (double : Bool) : (fuel : Nat) → (done : List Char) → List Char → Option (List Char × List Char)
  | 0, _, _ => none
  | fuel + 1, done, s =>
    match s with
    | [] => none
    | '\n' :: _ =>
      let (count, rest) := leadingBreaks (s.length + 1) s
      quoted? double fuel ((foldedBreaks count).reverse ++ done.dropWhile isBlank) rest
    | '\'' :: '\'' :: rest =>
      if double then quoted? double fuel ('\'' :: '\'' :: done) rest
      else quoted? double fuel ('\'' :: done) rest
    | '\\' :: c :: rest =>
      if !double then quoted? double fuel ('\\' :: done) (c :: rest)
      else if c = '\n' then quoted? double fuel done (rest.dropWhile isBlank)
      else
        match digitCount? c with
        | some n =>
          let digits := rest.take n
          if digits.length = n && digits.all isHexDigit && (hexNumber digits).isValidChar then
            quoted? double fuel (Char.ofNat (hexNumber digits) :: done) (rest.drop n)
          else none
        | none =>
          match letterEscape? c with
          | some c => quoted? double fuel (c :: done) rest
          | none => none
    | c :: rest =>
      if c = (if double then '"' else '\'') then some (done.reverse, rest)
      else quoted? double fuel (c :: done) rest

def readQuoted (double : Bool) : Reader (List Char) := do
  let s ← rest
  match quoted? double (s.length + 1) [] (s.drop 1) with
  | some (text, after) =>
    take (s.length - after.length)
    return text
  | none => failure

/-- The part of a word on one line. A colon ends it in front of a blank; in flow style
brackets and commas do as well. -/
def plainLine (inFlow : Bool) : (afterBlank : Bool) → List Char → List Char
  | _, [] => []
  | afterBlank, c :: rest =>
    let colonEnds := c = ':' &&
      (endsToken rest || (inFlow && ((rest.head?.map isFlowMark).getD false)))
    if isBreak c || colonEnds || (c = '#' && afterBlank) || (inFlow && isFlowMark c) then []
    else c :: plainLine inFlow (isBlank c) rest

def beginsPlain (inFlow : Bool) : List Char → Bool
  | [] => false
  | c :: rest =>
    if c = '-' then !endsToken rest
    else if c = '?' || c = ':' then !inFlow && !endsToken rest
    else c ∉ [',', '[', ']', '\x7b', '\x7d', '#', '&', '*', '!', '|', '>', '\'', '"', '%', '@', '\x60'] &&
      !isBlank c && !isBreak c

/-- Whether a line in front of `after` begins with a tab where indentation is expected. -/
def hasEarlyTab (minColumn : Nat) (blanks : List Char) : Bool :=
  (blanks.splitOn '\n').any fun line => '\t' ∈ line.take minColumn

def beginsBareColon : List Char → Bool
  | ':' :: c :: _ => isFlowMark c || c = '?'
  | _ => false

/-- Further lines of a word that are indented far enough. Blank lines behind the last of
them belong to the word. -/
def plainMore (inFlow : Bool) (minColumn : Nat) : (fuel : Nat) → Reader (List Char)
  | 0 => return []
  | fuel + 1 => do
    let s ← rest
    let next := s.dropWhile isBlank
    if inFlow && beginsBareColon next then failure
    match next with
    | '\n' :: _ =>
      let (count, after) := leadingBreaks (s.length + 1) s
      let blanks := s.take (s.length - after.length)
      if hasEarlyTab minColumn (blanks.dropWhile (!isBreak ·)) then failure
      take blanks.length
      let line := dropTrailingBlanks (plainLine inFlow false after)
      if (← atEnd) || (!inFlow && (← column) < minColumn) || line.isEmpty || after.head? = some '#' then
        return []
      else
        take line.length
        return foldedBreaks count ++ line ++ (← plainMore inFlow minColumn fuel)
    | [] | '#' :: _ => return []
    | _ => if inFlow then return [] else failure

def readPlain (inFlow : Bool) (minColumn : Nat) : Reader (List Char) := do
  let s ← rest
  if !beginsPlain inFlow s then failure
  let line := dropTrailingBlanks (plainLine inFlow false s)
  take line.length
  return line ++ (← plainMore inFlow minColumn (s.length + 1))

/-! ## Block scalars -/

inductive Chomping where
  | clip
  | strip
  | keep

structure BlockStyle where
  folded : Bool
  chomping : Chomping := .clip
  indentation : Option Nat := none

def blockHeader? (style : BlockStyle) : List Char → Option BlockStyle
  | [] => some style
  | c :: rest =>
    if c = '+' then blockHeader? { style with chomping := .keep } rest
    else if c = '-' then blockHeader? { style with chomping := .strip } rest
    else if c.isDigit && c != '0' then
      blockHeader? { style with indentation := some (c.toNat - 48) } rest
    else none

def blockLines (indent : Nat) : (fuel : Nat) → List Char → List (List Char) × List Char
  | 0, s => ([], s)
  | fuel + 1, s =>
    match s with
    | [] => ([], [])
    | s =>
      let line := s.takeWhile (!isBreak ·)
      let isDeep := indent ≤ (line.takeWhile (· = ' ')).length
      if line.all (· = ' ') || isDeep then
        let (more, rest) := blockLines indent fuel ((s.drop line.length).drop 1)
        (line.drop indent :: more, rest)
      else ([], s)

def joinBlock (folded : Bool) : List (List Char) → List Char
  | [] => []
  | [line] => line
  | line :: rest =>
    if !folded then line ++ '\n' :: joinBlock folded rest
    else
      let blanks := rest.takeWhile List.isEmpty
      let after := rest.drop blanks.length
      let isDeep (l : List Char) : Bool := (l.head?.map isBlank).getD false
      match after with
      | [] => line ++ List.replicate rest.length '\n'
      | next :: _ =>
        if line.isEmpty || isDeep line || isDeep next then line ++ '\n' :: joinBlock folded rest
        else
          let gap := if blanks.isEmpty then [' '] else List.replicate blanks.length '\n'
          line ++ gap ++ joinBlock folded after
  termination_by lines => lines.length
  decreasing_by
    · exact Nat.lt_succ_self _
    · exact Nat.lt_succ_self _
    · exact Nat.lt_succ_of_le (List.drop_suffix _ _).length_le

def readBlock (minColumn : Nat) : Reader Json := do
  let s ← rest
  let header := (s.drop 1).takeWhile fun c => !isBlank c && !isBreak c
  let style ← match blockHeader? { folded := s.head? = some '>' } header with
    | some style => pure style
    | none => failure
  take (1 + header.length)
  skipInLine .blankInLine
  match ← rest with
  | '\n' :: _ => take 1
  | [] => return .string ""
  | _ => failure
  let body ← rest
  let firstLine := (leadingBreaks (body.length + 1) body).2
  let lead := body.take (body.length - firstLine.length)
  if style.indentation.isNone && '\t' ∈ lead then failure
  let found := ((lead.splitOn '\n').map List.length).foldl max 1
  let indent := match style.indentation with
    | some n => (minColumn - 1) + n
    | none => max found minColumn
  let (lines, after) := blockLines indent (body.length + 1) body
  take (body.length - after.length)
  let kept := (lines.reverse.dropWhile List.isEmpty).reverse
  let text := joinBlock style.folded kept
  return .string (String.ofList (match style.chomping with
    | .strip => text
    | .clip => if kept.isEmpty then [] else text ++ ['\n']
    | .keep => if kept.isEmpty then List.replicate lines.length '\n'
        else text ++ List.replicate (lines.length - kept.length + 1) '\n'))

/-! ## Nodes -/

structure Properties where
  anchor : Option String := none
  tag : Option String := none

def readName : Reader String := do
  let name := (← rest).takeWhile fun c => c.isAlphanum || c = '_' || c = '-'
  take name.length
  let next ← rest
  let isWhole := endsToken next ||
    next.head?.any (· ∈ ['?', ':', ',', ']', '\x7d', '%', '@', '\x60'])
  if name.isEmpty || !isWhole then failure
  return String.ofList name

def readTag : Reader String := do
  let tag := (← rest).takeWhile fun c => !isBlank c && !isBreak c && !isFlowMark c
  take tag.length
  return String.ofList tag

def readProperties : (fuel : Nat) → Properties → Reader Properties
  | 0, p => return p
  | fuel + 1, p => do
    match ← rest with
    | '&' :: _ =>
      take 1
      let anchor := some (← readName)
      skipInLine .blankInLine
      readProperties fuel { p with anchor }
    | '!' :: _ =>
      let tag := some (← readTag)
      skipInLine .blankInLine
      readProperties fuel { p with tag }
    | _ => return p

def finish (p : Properties) (j : Json) : Reader Json := do
  match p.anchor with
  | some name => modify fun s => { s with anchors := (name, j) :: s.anchors }
  | none => pure ()
  return j

def finishWord (p : Properties) (word : List Char) : Reader Json := do
  match p.tag with
  | none => finish p (resolve word)
  | some tag =>
    match resolveAs? tag word with
    | some j => finish p j
    | none => failure

def finishText (p : Properties) (text : List Char) : Reader Json := do
  match p.tag with
  | none | some "!" | some "!!str" => finish p (.string (String.ofList text))
  | some _ => failure

def readAlias : Reader Json := do
  take 1
  let name ← readName
  match (← get).anchors.find? (·.1 == name) with
  | some (_, j) => return j
  | none => failure

def readKey? : Reader (Option String) := do
  let before ← get
  let key ← match before.rest with
    | '"' :: _ =>
      match quoted? true (before.rest.length + 1) [] (before.rest.drop 1) with
      | some (text, after) =>
        take (before.rest.length - after.length)
        pure (some text)
      | none => pure none
    | '\'' :: _ =>
      match quoted? false (before.rest.length + 1) [] (before.rest.drop 1) with
      | some (text, after) =>
        take (before.rest.length - after.length)
        pure (some text)
      | none => pure none
    | s =>
      if beginsPlain false s then
        let line := dropTrailingBlanks (plainLine false false s)
        take line.length
        pure (some line)
      else pure none
  let isLine := (before.rest.take (before.rest.length - (← rest).length)).all (!isBreak ·)
  let blanks := (← rest).takeWhile isBlank
  match key, (← rest).drop blanks.length with
  | some key, ':' :: after =>
    if isLine && endsToken after then
      take (blanks.length + 1)
      return some (String.ofList key)
    else
      set before
      return none
  | _, _ =>
    set before
    return none

mutual

def flowNode : (fuel : Nat) → Reader Json
  | 0 => failure
  | fuel + 1 => do
    let p ← readProperties 3 {}
    let _ ← skip .blank fuel
    match ← rest with
    | '[' :: _ =>
      take 1
      if p.tag.isSome then failure
      finish p (.array (← flowItems fuel))
    | '\x7b' :: _ =>
      take 1
      if p.tag.isSome then failure
      finish p (.object (sortedFields (← flowFields fuel)))
    | '"' :: _ => finishText p (← readQuoted true)
    | '\'' :: _ => finishText p (← readQuoted false)
    | '*' :: _ => readAlias
    | s => if beginsPlain true s then finishWord p (← readPlain true 0) else finishWord p []

/-- Items up to the bracket; a pair among them is a mapping of its own. -/
def flowItems : (fuel : Nat) → Reader (List Json)
  | 0 => failure
  | fuel + 1 => do
    let _ ← skip .blank fuel
    match ← rest with
    | ']' :: _ =>
      take 1
      return []
    | ',' :: _ | ':' :: _ => failure
    | s =>
      let item ← flowNode fuel
      let _ ← skip .blank fuel
      let source := s.take (s.length - (← rest).length)
      let item ← match ← rest with
        | ':' :: _ =>
          if source.any isBreak then failure
          take 1
          let _ ← skip .blank fuel
          match item with
          | .string key => pure (Json.object [(key, ← flowNode fuel)])
          | _ => pure (Json.object [(String.ofList (dropTrailingBlanks source), ← flowNode fuel)])
        | _ => pure item
      let _ ← skip .blank fuel
      match ← rest with
      | ',' :: _ =>
        take 1
        return item :: (← flowItems fuel)
      | ']' :: _ =>
        take 1
        return [item]
      | _ => failure

def flowFields : (fuel : Nat) → Reader (List (String × Json))
  | 0 => failure
  | fuel + 1 => do
    let _ ← skip .blank fuel
    match ← rest with
    | '\x7d' :: _ =>
      take 1
      return []
    | s =>
      let key ← match s with
        | '"' :: _ => readQuoted true
        | '\'' :: _ => readQuoted false
        | s => if beginsPlain true s then readPlain true 0 else failure
      let _ ← skip .blank fuel
      let source := s.take (s.length - (← rest).length)
      let value ← match ← rest with
        | ':' :: _ =>
          if source.any isBreak then failure
          take 1
          let _ ← skip .blank fuel
          flowNode fuel
        | _ => pure .null
      let _ ← skip .blank fuel
      match ← rest with
      | ',' :: _ =>
        take 1
        return (String.ofList key, value) :: (← flowFields fuel)
      | '\x7d' :: _ =>
        take 1
        return [(String.ofList key, value)]
      | _ => failure

end

def expectLineEnd : Reader Unit := do
  skipInLine .blankInLine
  match ← rest with
  | [] | '\n' :: _ => return
  | _ => failure

mutual

/-- A node in block style. On a line of its own it begins in `minColumn` at least, a
sequence below a key one column before. `mayOpen` tells that a collection may begin on
this line. -/
def blockNode (mayOpen : Bool) (minColumn : Nat) (belowKey : Bool) : (fuel : Nat) → Reader Json
  | 0 => failure
  | fuel + 1 => do
    let tabs : Tabs := if mayOpen then .refused else .blankInLine
    skipInLine tabs
    let p ← readProperties 3 {}
    let crossed ← skip tabs fuel
    let p ← if crossed then readProperties 3 p else pure p
    let again ← skip .refused fuel
    let fresh := crossed || again
    let here ← column
    let isItem := match ← rest with
      | '-' :: after => endsToken after
      | _ => false
    if ← atEnd then finishWord p []
    else if fresh && here < minColumn && !(belowKey && isItem && here + 1 = minColumn) then finishWord p []
    else if isItem then
      if !(mayOpen || fresh) || p.tag.isSome then failure
      finish p (.array (← blockItems here fuel))
    else
      let key ← if mayOpen || fresh then readKey? else pure none
      match key with
      | some key =>
        if p.tag.isSome then failure
        finish p (.object (sortedFields (← blockFields here key fuel)))
      | none =>
        match ← rest with
        | '|' :: _ | '>' :: _ =>
          if p.tag.isSome && p.tag != some "!!str" then failure
          finish p (← readBlock minColumn)
        | '[' :: _ | '\x7b' :: _ | '*' :: _ =>
          let j ← flowNode (fuel + 1)
          expectLineEnd
          finish p j
        | '"' :: _ =>
          let text ← readQuoted true
          expectLineEnd
          finishText p text
        | '\'' :: _ =>
          let text ← readQuoted false
          expectLineEnd
          finishText p text
        | _ =>
          finishWord p (← readPlain false minColumn)

def blockItems (col : Nat) : (fuel : Nat) → Reader (List Json)
  | 0 => failure
  | fuel + 1 => do
    take 1
    let item ← blockNode true (col + 1) false fuel
    let _ ← skip .refused fuel
    if (← atEnd) || (← column) < col then return [item]
    else
      let isItem := match ← rest with
        | '-' :: after => endsToken after
        | _ => false
      if (← column) = col && isItem then return item :: (← blockItems col fuel)
      else if (← column) = col then return [item]
      else failure

def blockFields (col : Nat) (key : String) : (fuel : Nat) → Reader (List (String × Json))
  | 0 => failure
  | fuel + 1 => do
    let value ← blockNode false (col + 1) true fuel
    let _ ← skip .refused fuel
    if (← atEnd) || (← column) < col then return [(key, value)]
    else if (← column) = col then
      match ← readKey? with
      | some next => return (key, value) :: (← blockFields col next fuel)
      | none => failure
    else failure

end

/-! ## Documents -/

/-- Lines in front of a document, and the marker that begins it; tells whether there was
a marker. -/
def readStart : (fuel : Nat) → Reader Bool
  | 0 => return false
  | fuel + 1 => do
    let _ ← skip .refused fuel
    match ← rest with
    | '%' :: directive =>
      if (← column) = 0 then
        take (1 + (directive.takeWhile (!isBreak ·)).length)
        readStart fuel
      else return false
    | '-' :: '-' :: '-' :: after =>
      if (← column) = 0 && endsToken after then
        take 3
        return true
      else return false
    | _ => return false

/-- Nothing may follow a document but the marker that ends it. -/
def readEnd (fuel : Nat) : Reader Unit := do
  let _ ← skip .refused fuel
  match ← rest with
  | '.' :: '.' :: '.' :: after =>
    if (← column) = 0 && endsToken after then
      take 3
      let _ ← skip .refused fuel
      if !(← rest).isEmpty then failure
    else failure
  | [] => return
  | _ => failure

/-- On the line of the marker no collection in block style may begin. -/
def document (fuel : Nat) : Reader Json := do
  let isMarked ← readStart fuel
  let j ← blockNode (!isMarked) 0 false fuel
  readEnd fuel
  return j

end Yaml

def ofYaml? (text : String) : Option Json :=
  let s := match text.toList with
    | '\uFEFF' :: rest => rest
    | s => s
  let lines := s.filter (· != '\r')
  ((Yaml.document (4 * lines.length + 100)).run { rest := lines }).map (·.1)

end SecretDotenv.Json
