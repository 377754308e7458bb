import SecretDotenv.Url.Percent
import SecretDotenv.Url.Domain

/-! Hosts: names, and addresses of four bytes or of eight 16-bit pieces. -/
namespace SecretDotenv.Url

open SecretDotenv.Text

inductive Host where
  | name (text : String)
  | ipv4 (address : Nat)
  | ipv6 (pieces : List Nat)
deriving DecidableEq, Repr

def hexText (n : Nat) : String :=
  String.ofList (Nat.toDigits 16 n)

/-- Where the first longest run of at least two zero pieces starts, and its length. -/
def zeroRun (pieces : List Nat) : Option (Nat × Nat) :=
  let runAt (i : Nat) : Nat := ((pieces.drop i).takeWhile (· == 0)).length
  (List.range pieces.length).foldl (fun best i =>
    let n := runAt i
    if n ≥ 2 && n > (best.map (·.2)).getD 0 then some (i, n) else best) none

def ipv6Text (pieces : List Nat) : String :=
  let join (ps : List Nat) : String := ":".intercalate (ps.map hexText)
  match zeroRun pieces with
  | some (start, length) =>
    join (pieces.take start) ++ "::" ++ join (pieces.drop (start + length))
  | none => join pieces

def ipv4Text (a : Nat) : String :=
  ".".intercalate ([a / 16777216, a / 65536 % 256, a / 256 % 256, a % 256].map toString)

def Host.text : Host → String
  | .name text => text
  | .ipv4 address => ipv4Text address
  | .ipv6 pieces => "[" ++ ipv6Text pieces ++ "]"

/-- Four decimal numbers below 256 without leading zeros, as an IPv6 address may end. -/
def dottedQuad? (s : List Char) : Option (List Nat) := do
  let parts := splitOn (· == '.') s
  let numbers ← parts.mapM fun part =>
    if isDigits part && (part.length = 1 || part.head? != some '0') && digitsValue part < 256 &&
        part.length ≤ 3 then
      some (digitsValue part)
    else none
  match numbers with
  | [a, b, c, d] => some [256 * a + b, 256 * c + d]
  | _ => none

def pieces? : List (List Char) → Option (List Nat)
  | [] => some []
  | [last] =>
    if last.contains '.' then dottedQuad? last else (piece? last).map fun n => [n]
  | part :: rest => do return (← piece? part) :: (← pieces? rest)
where
  piece? (s : List Char) : Option Nat :=
    if s.isEmpty || s.length > 4 || !s.all isHexDigit then none else some (hexNumber s)

def cutDouble : List Char → Option (List Char × List Char)
  | ':' :: ':' :: rest => some ([], rest)
  | c :: rest => (cutDouble rest).map fun (front, back) => (c :: front, back)
  | [] => none

def ipv6? (s : List Char) : Option (List Nat) :=
  let side (s : List Char) : Option (List Nat) :=
    if s.isEmpty then some [] else pieces? (splitOn (· == ':') s)
  match cutDouble s with
  | some (front, back) => do
    let before ← if front.contains '.' then none else side front
    let after ← side back
    if before.length + after.length ≤ 7 then
      some (before ++ List.replicate (8 - before.length - after.length) 0 ++ after)
    else none
  | none => do
    let all ← side s
    if all.length = 8 then some all else none

/-- A number in an IPv4 address: decimal, octal behind `0`, hexadecimal behind `0x`. -/
def ipv4Number? (s : List Char) : Option Nat :=
  match s with
  | [] => none
  | '0' :: 'x' :: rest | '0' :: 'X' :: rest =>
    if rest.all isHexDigit then some (hexNumber rest) else none
  | ['0'] => some 0
  | '0' :: rest =>
    if rest.all fun c => '0' ≤ c && c ≤ '7' then
      some (rest.foldl (fun n c => 8 * n + (c.toNat - 48)) 0)
    else none
  | s => if isDigits s then some (digitsValue s) else none

def dotParts (s : List Char) : List (List Char) :=
  let parts := splitOn (· == '.') s
  if parts.length > 1 && parts.getLast? = some [] then parts.dropLast else parts

def endsInNumber (s : List Char) : Bool :=
  match (dotParts s).getLast? with
  | some last => isDigits last || (ipv4Number? last).isSome
  | none => false

def ipv4? (s : List Char) : Option Nat := do
  let numbers ← (dotParts s).mapM ipv4Number?
  let last ← numbers.getLast?
  let front := numbers.dropLast
  if numbers.length > 4 || front.any (· > 255) || last ≥ Nat.pow 256 (5 - numbers.length) then none
  else
    let high := (List.range front.length).foldl (fun sum i =>
      sum + front.getD i 0 * Nat.pow 256 (3 - i)) 0
    some (high + last)

def forbiddenInHost : List Char :=
  ['\x00', '\t', '\n', '\r', ' ', '#', '/', ':', '<', '>', '?', '@', '[', '\\', ']', '^', '|']

def bracketed? (s : List Char) : Option (Option Host) :=
  if s.head? = some '[' then
    some (if s.getLast? = some ']' then (ipv6? (s.drop 1).dropLast).map .ipv6 else none)
  else none

/-- The host of a scheme without rules of its own: any text without separators. -/
def freeHost? (s : List Char) : Option Host :=
  match bracketed? s with
  | some host => host
  | none =>
    if s.any (· ∈ forbiddenInHost) then none
    else some (.name (String.ofList (percentEncode controlSet s)))

def webHost? (s : List Char) : Option Host :=
  match bracketed? s with
  | some host => host
  | none => do
    let domain ← asciiDomain? (decodeUtf8 (percentDecode s))
    if domain.isEmpty ||
        domain.any (fun c => c ∈ forbiddenInHost || c = '%' || c.toNat < 0x20 || c.toNat = 0x7F) then
      none
    else if endsInNumber domain then (ipv4? domain).map .ipv4
    else some (.name (String.ofList domain))

end SecretDotenv.Url
