import SecretDotenv.Text.Numeral

/-! Binary64 numbers and decimals: the number nearest to a decimal, and the
fewest digits that read back as a number. -/
namespace SecretDotenv.Json

open SecretDotenv.Text

/-- A double by its bits, so that equality is that of the representation. -/
abbrev Bits := UInt64

/-- The double nearest to `mantissa · 10 ^ exponent`; beyond the range infinity or zero. -/
def nearest (mantissa : Nat) (exponent : Int) : Bits :=
  let magnitude := exponent + (toString mantissa).length
  if mantissa = 0 || magnitude < -400 then (0.0 : Float).toBits
  else if magnitude > 400 then (1.0 / 0.0 : Float).toBits
  else (Float.ofScientific mantissa (exponent < 0) exponent.natAbs).toBits

def negated (b : Bits) : Bits :=
  b ^^^ 0x8000000000000000

def isFinite (b : Bits) : Bool :=
  (b >>> 52) &&& 0x7FF != 0x7FF

/-- A sign, and the value as `significand · 2 ^ exponent`. -/
structure Parts where
  negative : Bool
  significand : Nat
  exponent : Int
  /-- The next smaller number is half as far away as the next greater. -/
  narrowBelow : Bool

def parts (b : Bits) : Parts :=
  let fraction := (b &&& 0xFFFFFFFFFFFFF).toNat
  let biased := ((b >>> 52) &&& 0x7FF).toNat
  { negative := (b >>> 63) == 1
    significand := if biased = 0 then fraction else fraction + 0x10000000000000
    exponent := if biased = 0 then -1074 else (biased : Int) - 1075
    narrowBelow := fraction = 0 && biased > 1 }

/-- `n · 2 ^ e` and `k · 10 ^ p` as naturals over one denominator. -/
def overCommon (n : Nat) (e : Int) (k : Nat) (p : Int) : Nat × Nat :=
  (n * Nat.pow 2 e.toNat * Nat.pow 10 (-p).toNat, k * Nat.pow 10 p.toNat * Nat.pow 2 (-e).toNat)

def onGrid? (x : Parts) (p : Int) : Option Nat :=
  let e := x.exponent - 2
  let below := if x.narrowBelow then 1 else 2
  let (value, unit) := overCommon (4 * x.significand) e 1 p
  let (low, _) := overCommon (4 * x.significand - below) e 1 p
  let (high, _) := overCommon (4 * x.significand + 2) e 1 p
  let inside (k : Nat) : Bool :=
    if x.significand % 2 = 0 then low ≤ k * unit && k * unit ≤ high
    else low < k * unit && k * unit < high
  let down := value / unit
  let nearDown := 2 * (value - down * unit) ≤ unit
  if inside down && (nearDown || !inside (down + 1)) then some down
  else if inside (down + 1) then some (down + 1)
  else none

/-- The coarsest grid from `10 ^ p` downwards that holds a suitable decimal. -/
def coarsest (x : Parts) : Nat → Int → Nat × Int
  | 0, p => (0, p)
  | fuel + 1, p =>
    match onGrid? x p with
    | some k => (k, p)
    | none => coarsest x fuel (p - 1)

/-- Digits and the power of ten of the last one; every double has a decimal on the
grid of `10 ^ (-343)`. -/
def shortest (x : Parts) : Nat × Int :=
  coarsest x 660 310

/-- Positional from `1e-5` up to `1e16`, always with a point; else with an exponent. -/
def layout (digits : String) (lastPower : Int) : String :=
  let length := digits.length
  let point : Int := length + lastPower
  let zeros (n : Int) : String := String.ofList (List.replicate n.toNat '0')
  if 0 ≤ lastPower && point ≤ 16 then digits ++ zeros lastPower ++ ".0"
  else if 0 < point && point ≤ 16 then
    String.ofList (digits.toList.take point.toNat) ++ "." ++
      String.ofList (digits.toList.drop point.toNat)
  else if -5 < point && point ≤ 0 then "0." ++ zeros (-point) ++ digits
  else
    let fraction := String.ofList (digits.toList.drop 1)
    String.ofList (digits.toList.take 1) ++ (if fraction.isEmpty then "" else "." ++ fraction) ++
      "e" ++ toString (point - 1)

def decimalText (b : Bits) : String :=
  let x := parts b
  let sign := if x.negative then "-" else ""
  if x.significand = 0 then sign ++ "0.0"
  else
    let (k, p) := shortest x
    sign ++ layout (toString k) p

def ofDecimal (s : List Char) : Bits :=
  let (negative, body) := signOf s
  let mark := body.takeWhile fun c => c != 'e' && c != 'E'
  let exponent := (body.drop mark.length).drop 1
  let (down, scale) := signOf exponent
  let power : Int := if down then -(digitsValue scale : Int) else digitsValue scale
  let fraction := (mark.dropWhile (· != '.')).drop 1
  let digits := mark.filter Char.isDigit
  let b := nearest (digitsValue digits) (power - fraction.length)
  if negative then negated b else b

end SecretDotenv.Json
