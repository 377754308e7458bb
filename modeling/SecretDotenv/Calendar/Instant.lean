import SecretDotenv.Calendar.Date
import SecretDotenv.Text.Blank

/-! Points in time, read from the forms that people write dates in. A form without
a zone means UTC. -/
namespace SecretDotenv.Calendar

open SecretDotenv.Text

/-- A second of a day in UTC. A leap second is the second before it with a billion
nanoseconds more. -/
structure Instant where
  /-- Days since the first of January 1970. -/
  day : Int
  second : Nat
  nanosecond : Nat := 0
deriving DecidableEq, Repr

structure Clock where
  second : Nat
  nanosecond : Nat := 0

def Clock.ofParts? (hour minute second : Nat) (nanosecond : Nat := 0) : Option Clock :=
  if hour < 24 && minute < 60 && second ≤ 60 then
    if second = 60 then
      some { second := hour * 3600 + minute * 60 + 59, nanosecond := 1000000000 + nanosecond }
    else some { second := hour * 3600 + minute * 60 + second, nanosecond }
  else none

def number? (min max : Nat) (s : List Char) : Option (Nat × List Char) :=
  let digits := (s.take max).takeWhile Char.isDigit
  if digits.length < min || digitsValue digits ≥ bound63 then none
  else some (digitsValue digits, s.drop digits.length)

def char? (c : Char) : List Char → Option (List Char)
  | d :: rest => if d = c then some rest else none
  | [] => none

def year? (s : List Char) : Option (Int × List Char) :=
  match trimStart s with
  | '-' :: rest => (number? 1 rest.length rest).map fun (n, rest) => (-(n : Int), rest)
  | '+' :: rest => (number? 1 rest.length rest).map fun (n, rest) => ((n : Int), rest)
  | rest => (number? 1 4 rest).map fun (n, rest) => ((n : Int), rest)

def pair? (s : List Char) : Option (Nat × List Char) :=
  number? 1 2 (trimStart s)

def Date.ofParts? (year : Int) (month day : Nat) : Option Date :=
  let d : Date := { year, month, day }
  if d.isValid then some d else none

def looseDate? (s : List Char) : Option (Date × List Char) := do
  let (year, s) ← year? s
  let (month, s) ← pair? (← char? '-' s)
  let (day, s) ← pair? (← char? '-' s)
  return (← Date.ofParts? year month day, s)

def looseClock? (s : List Char) : Option (Clock × List Char) := do
  let (hour, s) ← pair? s
  let (minute, s) ← pair? (← char? ':' s)
  let (second, s) ← pair? (← char? ':' s)
  return (← Clock.ofParts? hour minute second, s)

/-- A date and a time without a zone; `separator` takes what stands between them. -/
def looseInstant? (separator : List Char → Option (List Char)) (s : List Char) :
    Option Instant := do
  let (date, s) ← looseDate? s
  let (clock, s) ← looseClock? (← separator s)
  if s.isEmpty then
    return { day := date.toDays, second := clock.second, nanosecond := clock.nanosecond }
  else none

def midnight? (s : List Char) : Option Instant := do
  let (date, s) ← looseDate? s
  if s.isEmpty then return { day := date.toDays, second := 0 } else none

def zone? : List Char → Option (Int × List Char)
  | 'Z' :: rest | 'z' :: rest => some (0, rest)
  | sign :: rest => do
    let direction : Int ←
      if sign = '+' then some 1 else if sign = '-' || sign = '\u2212' then some (-1) else none
    let (hours, rest) ← number? 2 2 rest
    let (minutes, rest) ← number? 2 2 (← char? ':' rest)
    if hours ≤ 23 && minutes ≤ 59 then
      return (direction * (hours * 3600 + minutes * 60), rest)
    else none
  | [] => none

/-- A fraction of a second in nanoseconds; digits behind the ninth do not count. -/
def fraction? (s : List Char) : Option (Nat × List Char) := do
  let (n, rest) ← number? 1 9 s
  let digits := s.length - rest.length
  return (n * Nat.pow 10 (9 - digits), rest.dropWhile Char.isDigit)

def zonedInstant? (s : List Char) : Option Instant := do
  let (year, s) ← number? 4 4 s
  let (month, s) ← number? 2 2 (← char? '-' s)
  let (day, s) ← number? 2 2 (← char? '-' s)
  let s ← match s with
    | 'T' :: rest | 't' :: rest | ' ' :: rest => some rest
    | _ => none
  let (hour, s) ← number? 2 2 s
  let (minute, s) ← number? 2 2 (← char? ':' s)
  let (second, s) ← number? 2 2 (← char? ':' s)
  let (nanosecond, s) ← match s with
    | '.' :: rest => fraction? rest
    | s => some (0, s)
  let (ahead, s) ← zone? s
  let date ← Date.ofParts? year month day
  let clock ← Clock.ofParts? hour minute second nanosecond
  if s.isEmpty then
    let seconds := date.toDays * 86400 + clock.second - ahead
    return { day := seconds / 86400, second := (seconds % 86400).toNat,
             nanosecond := clock.nanosecond }
  else none

def Instant.ofString? (s : String) : Option Instant :=
  let cs := s.toList
  (zonedInstant? cs).orElse fun _ =>
    (looseInstant? (char? 'T') cs).orElse fun _ =>
      (looseInstant? (fun rest => some (trimStart rest)) cs).orElse fun _ => midnight? cs

def Instant.clockText (i : Instant) : String :=
  padded 2 (i.second / 3600) ++ ":" ++ padded 2 (i.second / 60 % 60) ++ ":" ++
    padded 2 (i.second % 60 + i.nanosecond / 1000000000)

def Instant.text (i : Instant) : String :=
  (Date.ofDays i.day).text ++ "T" ++ i.clockText

/-- A fraction has three, six or nine digits, the fewest that hold it. -/
def Instant.fractionText (i : Instant) : String :=
  let n := i.nanosecond % 1000000000
  if n = 0 then ""
  else if n % 1000000 = 0 then "." ++ padded 3 (n / 1000000)
  else if n % 1000 = 0 then "." ++ padded 6 (n / 1000)
  else "." ++ padded 9 n

end SecretDotenv.Calendar
