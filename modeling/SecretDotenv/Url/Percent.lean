import SecretDotenv.Text.Ascii
import SecretDotenv.Text.Pieces
import SecretDotenv.Text.Utf8

/-! Percent-encoding: a byte written as `%` and two hexadecimal digits. Which
characters are encoded depends on the part of a URL; all sets hold the control
characters, and no character beyond ASCII is ever written raw. -/
namespace SecretDotenv.Url

open SecretDotenv.Text

abbrev EncodeSet := Char → Bool

def controlSet : EncodeSet := fun c => c.toNat < 0x20 || c.toNat ≥ 0x7F

def fragmentSet : EncodeSet := fun c => controlSet c || c ∈ [' ', '"', '<', '>', '\x60']

def pathSet : EncodeSet := fun c => fragmentSet c || c ∈ ['#', '?', '\x7b', '\x7d']

def userinfoSet : EncodeSet :=
  fun c => pathSet c || c ∈ ['/', ':', ';', '=', '@', '[', '\\', ']', '^', '|']

def querySet : EncodeSet := fun c => controlSet c || c ∈ [' ', '"', '#', '<', '>']

def specialQuerySet : EncodeSet := fun c => querySet c || c = '\''

def encodeByte (b : UInt8) : List Char :=
  ['%', upperHexDigit (b.toNat / 16), upperHexDigit (b.toNat % 16)]

def percentEncode (set : EncodeSet) (s : List Char) : List Char :=
  s.flatMap fun c => if set c then (String.utf8EncodeChar c).flatMap encodeByte else [c]

/-- The bytes that a text stands for; a `%` without two digits stands for itself. -/
def percentDecode : List Char → List UInt8
  | '%' :: a :: b :: rest =>
    if isHexDigit a && isHexDigit b then
      UInt8.ofNat (16 * hexValue a + hexValue b) :: percentDecode rest
    else 0x25 :: percentDecode (a :: b :: rest)
  | c :: rest => String.utf8EncodeChar c ++ percentDecode rest
  | [] => []

/-- Names and values of a query, as forms write them: `&` between pairs, `=` inside,
`+` for a blank. Empty pairs do not count. -/
def formPairs (query : List Char) : List (String × String) :=
  let decode (s : List Char) : String :=
    ofUtf8 (percentDecode (s.map fun c => if c = '+' then ' ' else c))
  ((splitOn (· == '&') query).filter (!·.isEmpty)).map fun pair =>
    match cut '=' pair with
    | some (name, value) => (decode name, decode value)
    | none => (decode pair, "")

end SecretDotenv.Url
