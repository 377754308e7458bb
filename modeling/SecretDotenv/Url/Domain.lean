import SecretDotenv.Text.Numeral
import SecretDotenv.Text.Pieces

/-! Domain names in ASCII. Letters are folded to lower case, and a label with
other characters is written in Punycode behind `xn--`. The mapping of domain names knows
many more characters than `foldCase`; those are left as they are. -/
namespace SecretDotenv.Url

open SecretDotenv.Text

/-- Lower case for the alphabets whose cases lie a fixed distance apart. Of the whole mapping it
lacks other alphabets, long s (U+017F) and what is dropped, such as the soft hyphen (U+00AD). -/
def foldCase (c : Char) : Char :=
  let n := c.toNat
  if 0x41 ≤ n && n ≤ 0x5A then Char.ofNat (n + 0x20)
  else if 0xC0 ≤ n && n ≤ 0xDE && n != 0xD7 then Char.ofNat (n + 0x20)
  else if 0x391 ≤ n && n ≤ 0x3A9 && n != 0x3A2 then Char.ofNat (n + 0x20)
  else if 0x410 ≤ n && n ≤ 0x42F then Char.ofNat (n + 0x20)
  else if 0x400 ≤ n && n ≤ 0x40F then Char.ofNat (n + 0x50)
  else if 0x100 ≤ n && n ≤ 0x17F && n != 0x130 && n != 0x178 && caseBitSet n then Char.ofNat (n + 1)
  else if 0xFF01 ≤ n && n ≤ 0xFF5E then asciiForm (n - 0xFEE0)
  else if n = 0x3002 then '.'
  else c
where
  /-- Where the upper-case letter of a pair is the one before. -/
  caseBitSet (n : Nat) : Bool :=
    if (0x139 ≤ n && n ≤ 0x148) || (0x179 ≤ n && n ≤ 0x17E) then n % 2 = 1
    else if n = 0x138 || n = 0x149 || n = 0x17F then false
    else n % 2 = 0
  asciiForm (n : Nat) : Char :=
    if 0x41 ≤ n && n ≤ 0x5A then Char.ofNat (n + 0x20) else Char.ofNat n

namespace Punycode

def digit (n : Nat) : Char :=
  if n < 26 then Char.ofNat (97 + n) else Char.ofNat (22 + n)

def adaptBias (delta count : Nat) (first : Bool) : Nat :=
  let delta := if first then delta / 700 else delta / 2
  scale 64 (delta + delta / count) 0
where
  scale : Nat → Nat → Nat → Nat
    | 0, delta, k => k + 36 * delta / (delta + 38)
    | fuel + 1, delta, k =>
      if delta > 455 then scale fuel (delta / 35) (k + 36) else k + 36 * delta / (delta + 38)

def threshold (k bias : Nat) : Nat :=
  if k ≤ bias then 1 else if k ≥ bias + 26 then 26 else k - bias

def variableLength (bias : Nat) : (fuel q k : Nat) → List Char
  | 0, _, _ => []
  | fuel + 1, q, k =>
    let t := threshold k bias
    if q < t then [digit q]
    else digit (t + (q - t) % (36 - t)) :: variableLength bias fuel ((q - t) / (36 - t)) (k + 36)

structure State where
  delta : Nat
  bias : Nat
  handled : Nat
  written : List Char

def insertAll (basic n : Nat) (label : List Char) (s : State) : State :=
  label.foldl (fun s c =>
    if c.toNat < n then { s with delta := s.delta + 1 }
    else if c.toNat = n then
      { delta := 0
        bias := adaptBias s.delta (s.handled + 1) (s.handled = basic)
        handled := s.handled + 1
        written := s.written ++ variableLength s.bias 64 s.delta 36 }
    else s) s

def encode (label : List Char) : List Char :=
  let basic := label.filter (·.toNat < 128)
  let others := (label.filter (·.toNat ≥ 128)).map Char.toNat
  let points := (others.mergeSort (· ≤ ·)).eraseDups
  let start : State :=
    { delta := 0, bias := 72, handled := basic.length,
      written := if basic.isEmpty then [] else basic ++ ['-'] }
  let (_, final) := points.foldl (fun (previous, s) n =>
    let s := { s with delta := s.delta + (n - previous) * (s.handled + 1) }
    let s := insertAll basic.length n label s
    (n + 1, { s with delta := s.delta + 1 })) (128, start)
  final.written

end Punycode

def asciiDomain? (s : List Char) : Option (List Char) :=
  let folded := s.map foldCase
  if s.contains '\uFFFD' then none
  else
    let labels := (splitOn (· == '.') folded).map fun label =>
      if label.all (·.toNat < 128) then label else "xn--".toList ++ Punycode.encode label
    some (['.'].intercalate labels)

end SecretDotenv.Url
