/-! Decimal numerals: which texts spell a number, and bounded integers. A
sign is one `+` or `-`; digits are ASCII. -/
namespace SecretDotenv.Text

def digitsValue (digits : List Char) : Nat :=
  digits.foldl (fun n d => 10 * n + (d.toNat - 48)) 0

def isDigits (s : List Char) : Bool :=
  !s.isEmpty && s.all Char.isDigit

def signOf : List Char → Bool × List Char
  | '-' :: rest => (true, rest)
  | '+' :: rest => (false, rest)
  | s => (false, s)

def bound63 : Nat := 9223372036854775808

def bound64 : Nat := 18446744073709551616

def fitsInt64 (n : Int) : Bool :=
  -(bound63 : Int) ≤ n && n < (bound63 : Int)

def int64? (s : String) : Option Int :=
  let (negative, digits) := signOf s.toList
  if isDigits digits then
    let n : Int := if negative then -(digitsValue digits : Int) else digitsValue digits
    if fitsInt64 n then some n else none
  else none

/-- A natural number that fits 64 bits; a plus sign may stand in front. -/
def nat64? (s : String) : Option Nat :=
  let digits := match s.toList with
    | '+' :: rest => rest
    | s => s
  if isDigits digits && digitsValue digits < bound64 then some (digitsValue digits) else none

def isExponent : List Char → Bool
  | [] => true
  | e :: rest => (e == 'e' || e == 'E') && isDigits (signOf rest).2

/-- A decimal number: a sign if wanted, digits with at most one point among or
around them, an exponent if wanted. -/
def isDecimal (s : List Char) : Bool :=
  let body := (signOf s).2
  let whole := body.takeWhile Char.isDigit
  match body.dropWhile Char.isDigit with
  | '.' :: rest =>
    let fraction := rest.takeWhile Char.isDigit
    !(whole.isEmpty && fraction.isEmpty) && isExponent (rest.dropWhile Char.isDigit)
  | rest => !whole.isEmpty && isExponent rest

def padded (width n : Nat) : String :=
  let digits := toString n
  String.ofList (List.replicate (width - digits.length) '0') ++ digits

end SecretDotenv.Text
