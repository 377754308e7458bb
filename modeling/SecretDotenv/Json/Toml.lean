import SecretDotenv.Calendar.Instant
import SecretDotenv.Json.Value
import SecretDotenv.Text.Ascii

/-! TOML as JSON: tables are objects, and a date is an object that holds its text. -/
namespace SecretDotenv.Json.Toml

open SecretDotenv.Text

inductive Origin where
  /-- A header names a table below it. -/
  | implied
  | header
  /-- A key with dots names a field in it. -/
  | dotted
deriving DecidableEq

inductive Node where
  | leaf (value : Json)
  | table (origin : Origin) (fields : List (String × Node))
  /-- Tables under one header with two brackets, the last one first. -/
  | tables (last : List (String × Node)) (before : List (List (String × Node)))

abbrev Fields := List (String × Node)

mutual

def Node.toJson : Node → Json
  | .leaf value => value
  | .table _ fields => .object (sortedFields (fieldsToJson fields))
  | .tables last before => .array ((listToJson before).reverse ++ [.object (sortedFields (fieldsToJson last))])

def fieldsToJson : Fields → List (String × Json)
  | [] => []
  | (key, node) :: rest => (key, node.toJson) :: fieldsToJson rest

def listToJson : List Fields → List Json
  | [] => []
  | fields :: rest => .object (sortedFields (fieldsToJson fields)) :: listToJson rest

end

def find? (fields : Fields) (key : String) : Option Node :=
  (fields.find? (·.1 == key)).map (·.2)

def replace (fields : Fields) (key : String) (node : Node) : Fields :=
  if (find? fields key).isSome then fields.map fun (k, n) => if k = key then (k, node) else (k, n)
  else fields ++ [(key, node)]

/-- Changes the fields of the table that a path of keys leads to. What is missing on the
way becomes a table of the given origin; by dots one does not get into a table with a
header. -/
def descend? (origin : Origin) (change : Fields → Option Fields) :
    List String → Fields → Option Fields
  | [], fields => change fields
  | key :: path, fields => do
    match find? fields key with
    | none => return replace fields key (.table origin (← descend? origin change path []))
    | some (.leaf _) => none
    | some (.table was inner) =>
      if origin = .dotted && was = .header then none
      else return replace fields key (.table was (← descend? origin change path inner))
    | some (.tables last before) =>
      if origin = .dotted then none
      else return replace fields key (.tables (← descend? origin change path last) before)

def put? (path : List String) (value : Json) (fields : Fields) : Option Fields := do
  let key ← path.getLast?
  descend? .dotted (fun fields =>
    if (find? fields key).isSome then none else some (fields ++ [(key, .leaf value)])) path.dropLast fields

def beginTable? (path : List String) (fields : Fields) : Option Fields := do
  let key ← path.getLast?
  descend? .implied (fun fields =>
    match find? fields key with
    | none => some (fields ++ [(key, .table .header [])])
    | some (.table .implied inner) => some (replace fields key (.table .header inner))
    | some _ => none) path.dropLast fields

def beginItem? (path : List String) (fields : Fields) : Option Fields := do
  let key ← path.getLast?
  descend? .implied (fun fields =>
    match find? fields key with
    | none => some (fields ++ [(key, .tables [] [])])
    | some (.tables last before) => some (replace fields key (.tables [] (last :: before)))
    | some _ => none) path.dropLast fields

/-- Puts a value below a header, the last of its list if there are several. -/
def putBelow? (header path : List String) (value : Json) (fields : Fields) : Option Fields :=
  descend? .implied (put? path value) header fields

def skipBlanks (s : List Char) : List Char :=
  s.dropWhile fun c => c = ' ' || c = '\t'

def isControl (c : Char) : Bool :=
  (c.toNat < 0x20 && c != '\t') || c.toNat = 0x7F

def skipComment (s : List Char) : List Char :=
  match s with
  | '#' :: rest => rest.dropWhile (!isControl ·)
  | s => s

def lineEnd? (s : List Char) : Option (List Char) :=
  match skipComment (skipBlanks s) with
  | [] => some []
  | '\n' :: rest => some rest
  | '\r' :: '\n' :: rest => some rest
  | _ => none

def skipLines : (fuel : Nat) → List Char → List Char
  | 0, s => s
  | fuel + 1, s =>
    match skipComment (skipBlanks s) with
    | '\n' :: rest => skipLines fuel rest
    | '\r' :: '\n' :: rest => skipLines fuel rest
    | rest => rest

def scalar? (digits : List Char) (count : Nat) : Option Char :=
  if digits.length = count && digits.all isHexDigit then
    let n := hexNumber digits
    if n.isValidChar then some (Char.ofNat n) else none
  else none

def escape? : List Char → Option (Char × List Char)
  | 'b' :: rest => some ('\x08', rest)
  | 't' :: rest => some ('\t', rest)
  | 'n' :: rest => some ('\n', rest)
  | 'f' :: rest => some ('\x0c', rest)
  | 'r' :: rest => some ('\r', rest)
  | '"' :: rest => some ('"', rest)
  | '\\' :: rest => some ('\\', rest)
  | 'u' :: rest => (scalar? (rest.take 4) 4).map fun c => (c, rest.drop 4)
  | 'U' :: rest => (scalar? (rest.take 8) 8).map fun c => (c, rest.drop 8)
  | _ => none

/-- The rest of a string on one line; `escapes` tells double from single quotes. -/
def lineString? (escapes : Bool) : (fuel : Nat) → List Char → Option (List Char × List Char)
  | 0, _ => none
  | fuel + 1, s => do
    match s with
    | [] => none
    | c :: rest =>
      if c = (if escapes then '"' else '\'') then return ([], rest)
      else if c = '\\' && escapes then
        let (c, rest) ← escape? rest
        let (more, rest) ← lineString? escapes fuel rest
        return (c :: more, rest)
      else if isControl c then none
      else
        let (more, rest) ← lineString? escapes fuel rest
        return (c :: more, rest)

/-- A backslash at the end of a line takes all white space behind it away. -/
def joinedLine? (s : List Char) : Option (List Char) :=
  match skipBlanks s with
  | '\n' :: rest => some (rest.dropWhile fun c => c ∈ [' ', '\t', '\n', '\r'])
  | '\r' :: '\n' :: rest => some (rest.dropWhile fun c => c ∈ [' ', '\t', '\n', '\r'])
  | _ => none

/-- The rest of a string on several lines; up to two quotes may stand before the end. -/
def blockString? (escapes : Bool) : (fuel : Nat) → List Char → Option (List Char × List Char)
  | 0, _ => none
  | fuel + 1, s => do
    let quote := if escapes then '"' else '\''
    let quotes := s.takeWhile (· = quote)
    if quotes.length ≥ 3 then
      let own := quotes.length - 3
      if own ≤ 2 then return (List.replicate own quote, s.drop quotes.length) else none
    else
      match s with
      | [] => none
      | '\\' :: rest =>
        if escapes then
          match joinedLine? rest with
          | some rest => blockString? escapes fuel rest
          | none =>
            let (c, rest) ← escape? rest
            let (more, rest) ← blockString? escapes fuel rest
            return (c :: more, rest)
        else
          let (more, rest) ← blockString? escapes fuel rest
          return ('\\' :: more, rest)
      | '\r' :: '\n' :: rest =>
        let (more, rest) ← blockString? escapes fuel rest
        return ('\n' :: more, rest)
      | c :: rest =>
        if isControl c && c != '\n' then none
        else
          let (more, rest) ← blockString? escapes fuel rest
          return (c :: more, rest)

/-- Line ends right behind the opening quotes do not count. -/
def dropLineEnd : List Char → List Char
  | '\n' :: rest => rest
  | '\r' :: '\n' :: rest => rest
  | s => s

def isBare (c : Char) : Bool :=
  c.isAlphanum || c = '_' || c = '-'

def keyPart? (s : List Char) : Option (String × List Char) := do
  match s with
  | '"' :: rest =>
    let (body, rest) ← lineString? true (s.length + 1) rest
    return (String.ofList body, rest)
  | '\'' :: rest =>
    let (body, rest) ← lineString? false (s.length + 1) rest
    return (String.ofList body, rest)
  | s =>
    let name := s.takeWhile isBare
    if name.isEmpty then none else return (String.ofList name, s.drop name.length)

def key? : (fuel : Nat) → List Char → Option (List String × List Char)
  | 0, _ => none
  | fuel + 1, s => do
    let (part, rest) ← keyPart? (skipBlanks s)
    match skipBlanks rest with
    | '.' :: rest =>
      let (more, rest) ← key? fuel rest
      return (part :: more, rest)
    | rest => return ([part], rest)

def digits? (isDigit : Char → Bool) (s : List Char) : Option (List Char) :=
  let rec go : (afterDigit : Bool) → List Char → Option (List Char)
    | afterDigit, [] => if afterDigit then some [] else none
    | afterDigit, c :: rest =>
      if isDigit c then (go true rest).map (c :: ·)
      else if c = '_' && afterDigit then go false rest
      else none
  go false s

def withinInt64 (n : Int) : Option Json :=
  if fitsInt64 n then some (.number (.integer n)) else none

def wholeDigits? (s : List Char) : Option (List Char) := do
  let digits ← digits? Char.isDigit s
  if digits.length > 1 && digits.head? = some '0' then none else some digits

/-- A number with a point or an exponent. One beyond all finite numbers is refused, and
one below them all is null. -/
def floatOf? (sign body : List Char) : Option Json := do
  let mantissa := body.takeWhile fun c => c != 'e' && c != 'E'
  let exponent := body.drop mantissa.length
  let whole := mantissa.takeWhile (· != '.')
  let wholeDigits ← wholeDigits? whole
  let fraction ← match mantissa.drop whole.length with
    | [] => some []
    | _ :: fraction => (digits? Char.isDigit fraction).map ('.' :: ·)
  let exponent ← match exponent with
    | [] => some []
    | _ :: rest =>
      let (down, digits) := signOf rest
      (digits? Char.isDigit digits).map fun digits => 'e' :: (if down then ['-'] else []) ++ digits
  let bits := ofDecimal (wholeDigits ++ fraction ++ exponent)
  if isFinite bits then return .number (.binary64 (if sign = ['-'] then negated bits else bits))
  else if sign = ['-'] then return .null
  else none

def two? (low high : Nat) (s : List Char) : Option (List Char) :=
  let digits := s.take 2
  if digits.length = 2 && digits.all Char.isDigit && low ≤ digitsValue digits && digitsValue digits ≤ high
  then some (s.drop 2) else none

def date? (s : List Char) : Option (List Char) := do
  let year := s.take 4
  if !(year.length = 4 && year.all Char.isDigit) then none
  else
    match s.drop 4 with
    | '-' :: rest =>
      let after ← two? 1 12 rest
      match after with
      | '-' :: day =>
        let after ← two? 1 31 day
        let _ ← Calendar.Date.ofParts? (digitsValue year) (digitsValue (rest.take 2)) (digitsValue (day.take 2))
        return after
      | _ => none
    | _ => none

def time? (s : List Char) : Option (List Char) := do
  match ← two? 0 23 s with
  | ':' :: rest =>
    match ← two? 0 59 rest with
    | ':' :: rest =>
      match ← two? 0 60 rest with
      | '.' :: rest =>
        let fraction := rest.takeWhile Char.isDigit
        if fraction.isEmpty then none else return rest.drop fraction.length
      | rest => return rest
    | _ => none
  | _ => none

def zone? (s : List Char) : Option (List Char) := do
  match s with
  | 'Z' :: rest | 'z' :: rest => return rest
  | sign :: rest =>
    if sign = '+' || sign = '-' then
      match ← two? 0 23 rest with
      | ':' :: rest => two? 0 59 rest
      | _ => none
    else return s
  | [] => return []

def moment? (s : List Char) : Option (List Char) :=
  match date? s with
  | some rest =>
    match rest with
    | mark :: after =>
      if mark = 'T' || mark = 't' || (mark = ' ' && (time? after).isSome) then (time? after).bind zone?
      else some rest
    | [] => some []
  | none => time? s

def momentJson (text : List Char) : Json :=
  .object [("$__toml_private_datetime", .string (String.ofList text))]

def word? (s : List Char) : Option Json :=
  let (sign, body) : List Char × List Char := match s with
    | '+' :: rest => (['+'], rest)
    | '-' :: rest => (['-'], rest)
    | s => ([], s)
  let based (base : Nat) (isDigit : Char → Bool) (text : List Char) : Option Json := do
    let digits ← digits? isDigit text
    if sign.isEmpty then withinInt64 (digits.foldl (fun n d => base * n + hexValue d) 0 : Nat) else none
  match String.ofList s with
  | "true" => some (.bool true)
  | "false" => some (.bool false)
  | _ =>
    match String.ofList body, body with
    | "inf", _ | "nan", _ => some .null
    | _, '0' :: 'x' :: rest => based 16 isHexDigit rest
    | _, '0' :: 'o' :: rest => based 8 (fun c => '0' ≤ c && c ≤ '7') rest
    | _, '0' :: 'b' :: rest => based 2 (fun c => c = '0' || c = '1') rest
    | _, body =>
      if body.any fun c => c ∈ ['.', 'e', 'E'] then floatOf? sign body
      else do
        let digits ← wholeDigits? body
        withinInt64 (if sign = ['-'] then -(digitsValue digits : Int) else digitsValue digits)

mutual

def value? : (fuel : Nat) → List Char → Option (Json × List Char)
  | 0, _ => none
  | fuel + 1, s => do
    match s with
    | '"' :: '"' :: '"' :: rest =>
      let (body, rest) ← blockString? true (s.length + 1) (dropLineEnd rest)
      return (.string (String.ofList body), rest)
    | '\'' :: '\'' :: '\'' :: rest =>
      let (body, rest) ← blockString? false (s.length + 1) (dropLineEnd rest)
      return (.string (String.ofList body), rest)
    | '"' :: rest =>
      let (body, rest) ← lineString? true (s.length + 1) rest
      return (.string (String.ofList body), rest)
    | '\'' :: rest =>
      let (body, rest) ← lineString? false (s.length + 1) rest
      return (.string (String.ofList body), rest)
    | '[' :: rest =>
      let (items, rest) ← items? fuel (skipLines (rest.length + 1) rest)
      return (.array items, rest)
    | '\x7b' :: rest =>
      match skipBlanks rest with
      | '\x7d' :: rest => return (.object [], rest)
      | rest =>
        let (fields, rest) ← fields? fuel [] rest
        return (.object (sortedFields (fieldsToJson fields)), rest)
    | s =>
      match moment? s with
      | some rest => return (momentJson (s.take (s.length - rest.length)), rest)
      | none =>
        let word := s.takeWhile fun c => c.isAlphanum || c ∈ ['+', '-', '.', '_']
        return (← word? word, s.drop word.length)

def items? : (fuel : Nat) → List Char → Option (List Json × List Char)
  | 0, _ => none
  | fuel + 1, s => do
    match s with
    | ']' :: rest => return ([], rest)
    | s =>
      let (item, rest) ← value? fuel s
      match skipLines (rest.length + 1) rest with
      | ',' :: rest =>
        let (more, rest) ← items? fuel (skipLines (rest.length + 1) rest)
        return (item :: more, rest)
      | ']' :: rest => return ([item], rest)
      | _ => none

def fields? : (fuel : Nat) → Fields → List Char → Option (Fields × List Char)
  | 0, _, _ => none
  | fuel + 1, before, s => do
    let (key, rest) ← key? (s.length + 1) s
    match rest with
    | '=' :: rest =>
      let (value, rest) ← value? fuel (skipBlanks rest)
      let fields ← put? key value before
      match skipBlanks rest with
      | ',' :: rest => fields? fuel fields rest
      | '\x7d' :: rest => return (fields, rest)
      | _ => none
    | _ => none

end

def lines? : (fuel : Nat) → (header : List String) → Fields → List Char → Option Fields
  | 0, _, _, _ => none
  | fuel + 1, header, fields, s => do
    match skipLines (s.length + 1) s with
    | [] => return fields
    | '[' :: '[' :: rest =>
      let (path, rest) ← key? (rest.length + 1) rest
      match rest with
      | ']' :: ']' :: rest => lines? fuel path (← beginItem? path fields) (← lineEnd? rest)
      | _ => none
    | '[' :: rest =>
      let (path, rest) ← key? (rest.length + 1) rest
      match rest with
      | ']' :: rest => lines? fuel path (← beginTable? path fields) (← lineEnd? rest)
      | _ => none
    | s =>
      let (path, rest) ← key? (s.length + 1) s
      match rest with
      | '=' :: rest =>
        let (value, rest) ← value? (rest.length + 1) (skipBlanks rest)
        lines? fuel header (← putBelow? header path value fields) (← lineEnd? rest)
      | _ => none

end Toml

def ofToml? (text : String) : Option Json :=
  let s := match text.toList with
    | '\uFEFF' :: rest => rest
    | s => s
  (Toml.lines? (s.length + 1) [] [] s).map fun fields =>
    .object (sortedFields (Toml.fieldsToJson fields))

end SecretDotenv.Json
