/-! Comparison that ignores the case of ASCII letters and of nothing else, as
keywords, schemes and literals are compared; hexadecimal digits. -/
namespace SecretDotenv.Text

def lower (s : String) : String :=
  String.ofList (s.toList.map Char.toLower)

def sameIgnoringCase (a b : String) : Bool :=
  a.toList.map Char.toLower == b.toList.map Char.toLower

def startsWithIgnoringCase (text start : String) : Bool :=
  (start.toList.map Char.toLower).isPrefixOf (text.toList.map Char.toLower)

def isHexDigit (c : Char) : Bool :=
  c.isDigit || ('a' ≤ c && c ≤ 'f') || ('A' ≤ c && c ≤ 'F')

def hexValue (c : Char) : Nat :=
  if c.isDigit then c.toNat - 48
  else if 'a' ≤ c && c ≤ 'f' then c.toNat - 87
  else if 'A' ≤ c && c ≤ 'F' then c.toNat - 55
  else 0

def hexNumber (digits : List Char) : Nat :=
  digits.foldl (fun n d => 16 * n + hexValue d) 0

def upperHexDigit (n : Nat) : Char :=
  if n < 10 then Char.ofNat (48 + n) else Char.ofNat (55 + n)

end SecretDotenv.Text
