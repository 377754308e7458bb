import SecretDotenv.Json.Value
import SecretDotenv.Text.Ascii
import SecretDotenv.Text.Blank
import SecretDotenv.Text.Letter
import SecretDotenv.Text.Pieces

/-! JSON as people write it, which is JSON5: comments, names without quotes, single
quotes, hexadecimal numbers, commas behind the last item. -/
namespace SecretDotenv.Json.Json5

open SecretDotenv.Text

def isLineEnd (c : Char) : Bool :=
  c = '\n' || c = '\r' || c = '\u2028' || c = '\u2029'

/-- Blanks between tokens; next line is none of them, the byte order mark is. -/
def isSpace (c : Char) : Bool :=
  (isBlank c && c != '\u0085') || c = '\uFEFF'

def afterComment : List Char → Option (List Char)
  | '*' :: '/' :: rest => some rest
  | _ :: rest => afterComment rest
  | [] => none

def skip : (fuel : Nat) → List Char → List Char
  | 0, s => s
  | fuel + 1, s =>
    match s.dropWhile isSpace with
    | '/' :: '/' :: rest => skip fuel (rest.dropWhile (!isLineEnd ·))
    | '/' :: '*' :: rest =>
      match afterComment rest with
      | some rest => skip fuel rest
      | none => '/' :: '*' :: rest
    | rest => rest

def fourDigits? (s : List Char) : Option (Nat × List Char) :=
  let digits := s.take 4
  if digits.length = 4 && digits.all isHexDigit then some (hexNumber digits, s.drop 4) else none

/-- The character of an escape behind `\u`; one beyond 16 bits takes two of them. -/
def unicodeEscape? (s : List Char) : Option (Char × List Char) := do
  let (first, rest) ← fourDigits? s
  if 0xDC00 ≤ first && first ≤ 0xDFFF then none
  else if 0xD800 ≤ first && first ≤ 0xDBFF then
    match rest with
    | '\\' :: 'u' :: rest =>
      let (second, rest) ← fourDigits? rest
      if 0xDC00 ≤ second && second ≤ 0xDFFF then
        some (Char.ofNat (0x10000 + 0x400 * (first - 0xD800) + (second - 0xDC00)), rest)
      else none
    | _ => none
  else some (Char.ofNat first, rest)

/-- What an escaped character stands for; digits but zero cannot be escaped. -/
def letterEscape? (c : Char) : Option Char :=
  match c with
  | 'b' => some '\x08'
  | 'f' => some '\x0c'
  | 'n' => some '\n'
  | 'r' => some '\r'
  | 't' => some '\t'
  | 'v' => some '\x0b'
  | '0' => some '\x00'
  | c => if c.isDigit || c = 'x' || c = 'u' then none else some c

def stringBody? (quote : Char) : (fuel : Nat) → List Char → Option (List Char × List Char)
  | 0, _ => none
  | fuel + 1, s => do
    match s with
    | [] => none
    | '\\' :: '\r' :: '\n' :: rest => stringBody? quote fuel rest
    | '\\' :: 'x' :: a :: b :: rest =>
      if isHexDigit a && isHexDigit b then
        let (more, rest) ← stringBody? quote fuel rest
        return (Char.ofNat (hexNumber [a, b]) :: more, rest)
      else none
    | '\\' :: 'u' :: rest =>
      let (c, rest) ← unicodeEscape? rest
      let (more, rest) ← stringBody? quote fuel rest
      return (c :: more, rest)
    | '\\' :: c :: rest =>
      if isLineEnd c then stringBody? quote fuel rest
      else
        let c ← letterEscape? c
        let (more, rest) ← stringBody? quote fuel rest
        return (c :: more, rest)
    | c :: rest =>
      if c = quote then return ([], rest)
      else if c = '\\' || isLineEnd c then none
      else
        let (more, rest) ← stringBody? quote fuel rest
        return (c :: more, rest)

def nameBody? (start : Bool) : (fuel : Nat) → List Char → Option (List Char × List Char)
  | 0, _ => none
  | fuel + 1, s => do
    match s with
    | '\\' :: 'u' :: rest =>
      let (c, rest) ← unicodeEscape? rest
      let (more, rest) ← nameBody? false fuel rest
      return (c :: more, rest)
    | c :: rest =>
      let joins := c = '\u200C' || c = '\u200D'
      if isLetter c || c = '$' || c = '_' || (!start && (isWordPart c || joins)) then
        let (more, rest) ← nameBody? false fuel rest
        return (c :: more, rest)
      else if start then none
      else return ([], s)
    | [] => if start then none else return ([], [])

def key? (s : List Char) : Option (String × List Char) := do
  let (body, rest) ← match s with
    | '"' :: rest => stringBody? '"' (s.length + 1) rest
    | '\'' :: rest => stringBody? '\'' (s.length + 1) rest
    | s => nameBody? true (s.length + 1) s
  return (String.ofList body, rest)

def decimalToken? (s : List Char) : Option (List Char × List Char) := do
  let digits := s.takeWhile Char.isDigit
  let whole := if digits.head? = some '0' then ['0'] else digits
  let rest := s.drop whole.length
  let (mantissa, rest) ← match rest with
    | '.' :: after =>
      let fraction := after.takeWhile Char.isDigit
      if whole.isEmpty && fraction.isEmpty then none
      else some (whole ++ '.' :: fraction, after.drop fraction.length)
    | rest => if whole.isEmpty then none else some (whole, rest)
  match rest with
  | e :: after =>
    if e = 'e' || e = 'E' then
      let sign := after.takeWhile fun c => c = '+' || c = '-'
      let digits := (after.drop sign.length).takeWhile Char.isDigit
      if sign.length ≤ 1 && !digits.isEmpty then
        return (mantissa ++ e :: sign ++ digits, (after.drop sign.length).drop digits.length)
      else return (mantissa, rest)
    else return (mantissa, rest)
  | [] => return (mantissa, [])

/-- The number of a decimal text. One without a point or an exponent is an integer of
64 bits; any other must be finite. -/
def decimalValue? (negative : Bool) (text : List Char) : Option Json :=
  if text.all Char.isDigit then
    let n : Int := if negative then -(digitsValue text : Int) else digitsValue text
    if fitsInt64 n then some (.number (.integer n)) else none
  else
    let bits := ofDecimal text
    if isFinite bits then some (.number (.binary64 (if negative then negated bits else bits))) else none

/-- A hexadecimal number has no sign and 32 bits. -/
def hexValue? (digits : List Char) : Option Json :=
  if hexNumber digits < 4294967296 then some (.number (.integer (hexNumber digits))) else none

/-- Infinity and what is no number are written without plus, and are null. -/
def number? (s : List Char) : Option (Json × List Char) := do
  let (sign, body) : List Char × List Char := match s with
    | '+' :: rest => (['+'], rest)
    | '-' :: rest => (['-'], rest)
    | s => ([], s)
  if "Infinity".toList.isPrefixOf body then
    if sign = ['+'] then none else return (.null, body.drop 8)
  else if "NaN".toList.isPrefixOf body then
    if sign = ['+'] then none else return (.null, body.drop 3)
  else
    let isHex := match body with
      | '0' :: x :: d :: _ => (x = 'x' || x = 'X') && isHexDigit d
      | _ => false
    if isHex then
      let digits := (body.drop 2).takeWhile isHexDigit
      if sign.isEmpty then return (← hexValue? digits, (body.drop 2).drop digits.length) else none
    else
      let (text, rest) ← decimalToken? body
      return (← decimalValue? (sign = ['-']) text, rest)

mutual

def value? : (fuel : Nat) → List Char → Option (Json × List Char)
  | 0, _ => none
  | fuel + 1, s => do
    match s with
    | '[' :: rest =>
      let (items, rest) ← items? fuel (skip (rest.length + 1) rest)
      return (.array items, rest)
    | '\x7b' :: rest =>
      let (fields, rest) ← fields? fuel [] (skip (rest.length + 1) rest)
      return (.object fields, rest)
    | '"' :: rest =>
      let (body, rest) ← stringBody? '"' (s.length + 1) rest
      return (.string (String.ofList body), rest)
    | '\'' :: rest =>
      let (body, rest) ← stringBody? '\'' (s.length + 1) rest
      return (.string (String.ofList body), rest)
    | 'n' :: 'u' :: 'l' :: 'l' :: rest => return (.null, rest)
    | 't' :: 'r' :: 'u' :: 'e' :: rest => return (.bool true, rest)
    | 'f' :: 'a' :: 'l' :: 's' :: 'e' :: rest => return (.bool false, rest)
    | s => number? s

def items? : (fuel : Nat) → List Char → Option (List Json × List Char)
  | 0, _ => none
  | fuel + 1, s => do
    match s with
    | ']' :: rest => return ([], rest)
    | s =>
      let (item, rest) ← value? fuel s
      match skip (rest.length + 1) rest with
      | ',' :: rest =>
        let (more, rest) ← items? fuel (skip (rest.length + 1) rest)
        return (item :: more, rest)
      | ']' :: rest => return ([item], rest)
      | _ => none

/-- The fields of an object up to its brace; the later value of a key wins. -/
def fields? : (fuel : Nat) → List (String × Json) → List Char → Option (List (String × Json) × List Char)
  | 0, _, _ => none
  | fuel + 1, before, s => do
    match s with
    | '\x7d' :: rest => return (before, rest)
    | s =>
      let (key, rest) ← key? s
      match skip (rest.length + 1) rest with
      | ':' :: rest =>
        let (value, rest) ← value? fuel (skip (rest.length + 1) rest)
        let fields := insertField key value before
        match skip (rest.length + 1) rest with
        | ',' :: rest => fields? fuel fields (skip (rest.length + 1) rest)
        | '\x7d' :: rest => return (fields, rest)
        | _ => none
      | _ => none

end

end Json5

def ofJson5? (text : String) : Option Json := do
  let s := text.toList
  let fuel := s.length + 2
  let (value, rest) ← Json5.value? fuel (Json5.skip fuel s)
  if (Json5.skip fuel rest).isEmpty then return value else none

end SecretDotenv.Json
