import SecretDotenv.Machine.Disk
import SecretDotenv.Text.Ascii
import SecretDotenv.Text.Numeral
import SecretDotenv.Text.Blank

/-! Small programs: what they write, given their arguments and their input. Shells have
some of them built in, with habits of their own. -/
namespace SecretDotenv.Shell

open SecretDotenv.Text SecretDotenv.Machine

inductive Dialect where
  | system
  | dash
  | bash
deriving DecidableEq, Repr

structure Tool.Result where
  stdout : List UInt8 := []
  stderr : List UInt8 := []
  status : Nat := 0
  /-- Milliseconds. -/
  elapsed : Nat := 0

namespace Tool

def bytesOf (s : String) : List UInt8 :=
  utf8 s.toList

def letterEscape? : Char → Option UInt8
  | 'a' => some 7
  | 'b' => some 8
  | 't' => some 9
  | 'n' => some 10
  | 'v' => some 11
  | 'f' => some 12
  | 'r' => some 13
  | '\\' => some 0x5C
  | _ => none

def isOctal (c : Char) : Bool :=
  '0' ≤ c && c ≤ '7'

def octal (most : Nat) (s : List Char) : UInt8 × List Char :=
  let digits := (s.take most).takeWhile isOctal
  (UInt8.ofNat (digits.foldl (fun n d => 8 * n + (d.toNat - 48)) 0), s.drop digits.length)

inductive Numbers where
  /-- `\0` and up to three digits. -/
  | behindZero
  | plain
deriving DecidableEq

/-- The bytes of a text with escapes; `\c` ends the output, which is told. -/
def unescape (numbers : Numbers) (hex : Bool) : (fuel : Nat) → List Char → List UInt8 × Bool
  | 0, _ => ([], false)
  | fuel + 1, s =>
    match s with
    | [] => ([], false)
    | '\\' :: 'c' :: rest =>
      if numbers = .behindZero then ([], true)
      else
        let (more, ended) := unescape numbers hex fuel rest
        (bytesOf "\\c" ++ more, ended)
    | '\\' :: c :: rest =>
      match letterEscape? c with
      | some b =>
        let (more, ended) := unescape numbers hex fuel rest
        (b :: more, ended)
      | none =>
        if numbers = .behindZero && c = '0' then
          let (b, rest) := octal 3 rest
          let (more, ended) := unescape numbers hex fuel rest
          (b :: more, ended)
        else if numbers = .plain && isOctal c then
          let (b, rest) := octal 3 (c :: rest)
          let (more, ended) := unescape numbers hex fuel rest
          (b :: more, ended)
        else if hex && c = 'x' && (rest.head?.map isHexDigit).getD false then
          let digits := (rest.take 2).takeWhile isHexDigit
          let (more, ended) := unescape numbers hex fuel (rest.drop digits.length)
          (UInt8.ofNat (hexNumber digits) :: more, ended)
        else if hex && c = 'e' then
          let (more, ended) := unescape numbers hex fuel rest
          (0x1B :: more, ended)
        else if hex && numbers = .plain && c = '"' then
          let (more, ended) := unescape numbers hex fuel rest
          (0x22 :: more, ended)
        else
          let (more, ended) := unescape numbers hex fuel rest
          (0x5C :: utf8 [c] ++ more, ended)
    | c :: rest =>
      let (more, ended) := unescape numbers hex fuel rest
      (utf8 [c] ++ more, ended)

/-- An option of `echo`: a dash and letters of which all are options. -/
def echoOption? (d : Dialect) (arg : String) : Option (List Char) :=
  match arg.toList with
  | '-' :: letters =>
    let known : List Char := if d = .dash then ['n'] else ['n', 'e', 'E']
    if !letters.isEmpty && letters.all (known.contains ·) && (d != .dash || letters = ['n']) then
      some letters
    else none
  | _ => none

structure EchoStyle where
  newline : Bool := true
  escapes : Bool := false

def echoStyle (s : EchoStyle) : Char → EchoStyle
  | 'n' => { s with newline := false }
  | 'e' => { s with escapes := true }
  | 'E' => { s with escapes := false }
  | _ => s

def echoOptions (d : Dialect) (s : EchoStyle) : List String → EchoStyle × List String
  | [] => (s, [])
  | arg :: rest =>
    match echoOption? d arg with
    | some letters => echoOptions d (letters.foldl echoStyle s) rest
    | none => (s, arg :: rest)

def echo (d : Dialect) (args : List String) : Result :=
  let (style, words) := echoOptions d { escapes := d = .dash } args
  let text := " ".intercalate words
  let (body, ended) :=
    if style.escapes then unescape .behindZero (d != .dash) (text.length + 1) text.toList
    else (bytesOf text, false)
  { stdout := body ++ (if style.newline && !ended then [10] else []) }

def filled (left : Bool) (fill : Char) (width : Nat) (body : List UInt8) : List UInt8 :=
  let room := utf8 (List.replicate (width - body.length) fill)
  if left then body ++ room else room ++ body

def integerOf (s : String) : Int :=
  let (negative, digits) := signOf (trimStart s.toList)
  let n : Nat := digitsValue (digits.takeWhile Char.isDigit)
  if negative then -(n : Int) else n

def convert (flags : List Char) (width : Nat) (precision : Option Nat) (kind : Char) (arg : String) :
    List UInt8 × Bool :=
  let left := flags.contains '-'
  let number (n : Int) (text : String) : List UInt8 :=
    let sign := if n < 0 then "-" else if flags.contains '+' && kind = 'd' then "+" else ""
    let zeros := String.ofList (List.replicate (precision.getD 0 - text.length) '0')
    let body := zeros ++ text
    if flags.contains '0' && !left && precision.isNone then
      bytesOf (sign ++ String.ofList (List.replicate (width - sign.length - body.length) '0') ++ body)
    else filled left ' ' width (bytesOf (sign ++ body))
  match kind with
  | 's' =>
    let s := arg.toList
    (filled left ' ' width (utf8 ((precision.map s.take).getD s)), false)
  | 'b' =>
    let (body, ended) := unescape .behindZero false (arg.length + 1) arg.toList
    (filled left ' ' width body, ended)
  | 'c' => (filled left ' ' width (utf8 (arg.toList.take 1)), false)
  | 'x' => (number 0 (String.ofList (Nat.toDigits 16 (integerOf arg).toNat)), false)
  | 'X' => (number 0 (String.ofList ((Nat.toDigits 16 (integerOf arg).toNat).map Char.toUpper)), false)
  | 'o' => (number 0 (String.ofList (Nat.toDigits 8 (integerOf arg).toNat)), false)
  | _ => (number (integerOf arg) (toString (integerOf arg).natAbs), false)

structure Printed where
  body : List UInt8 := []
  args : List String
  asked : Bool := false
  ended : Bool := false

def printOnce (d : Dialect) : (fuel : Nat) → List Char → Printed → Printed
  | 0, _, p => p
  | fuel + 1, s, p =>
    match s with
    | [] => p
    | '%' :: '%' :: rest => printOnce d fuel rest { p with body := p.body ++ [0x25] }
    | '%' :: rest =>
      let flags := rest.takeWhile (['-', '+', ' ', '0', '#'].contains ·)
      let rest := rest.drop flags.length
      let width := rest.takeWhile Char.isDigit
      let rest := rest.drop width.length
      let (precision, rest) := match rest with
        | '.' :: rest => (some (digitsValue (rest.takeWhile Char.isDigit)), rest.dropWhile Char.isDigit)
        | rest => (none, rest)
      match rest with
      | [] => p
      | kind :: rest =>
        let (body, ended) := convert flags (digitsValue width) precision kind (p.args.headD "")
        let p := { p with body := p.body ++ body, args := p.args.drop 1, asked := true, ended }
        if ended then p else printOnce d fuel rest p
    | s =>
      let text := s.takeWhile (· != '%')
      let (body, _) := unescape .plain (d != .dash) (text.length + 1) text
      printOnce d fuel (s.drop text.length) { p with body := p.body ++ body }

/-- The format is used again until no argument is left. -/
def printAll (d : Dialect) (format : List Char) : (fuel : Nat) → List String → List UInt8
  | 0, _ => []
  | fuel + 1, args =>
    let p := printOnce d (format.length + 1) format { args }
    if p.args.isEmpty || !p.asked || p.ended then p.body
    else p.body ++ printAll d format fuel p.args

def printf (d : Dialect) (args : List String) : Result :=
  let args := match args with
    | "--" :: rest => rest
    | args => args
  match args with
  | [] =>
    let usage := match d with
      | .system => "printf: missing operand\nTry 'printf --help' for more information.\n"
      | .dash => "sh: 1: printf: usage: printf format [arg ...]\n"
      | .bash => "printf: usage: printf [-v var] format [arguments]\n"
    { stderr := bytesOf usage, status := if d = .system then 1 else 2 }
  | format :: args => { stdout := printAll d format.toList (args.length + 1) args }

/-- The characters of a set of `tr`, ranges and classes spelled out. -/
def charSet : (fuel : Nat) → List Char → List Char
  | 0, _ => []
  | fuel + 1, s =>
    match s with
    | [] => []
    | '[' :: ':' :: rest =>
      let name := String.ofList (rest.takeWhile (· != ':'))
      let after := rest.drop (name.length + 2)
      let range (a b : Char) : List Char :=
        (List.range (b.toNat + 1 - a.toNat)).map fun i => Char.ofNat (a.toNat + i)
      let members := match name with
        | "upper" => range 'A' 'Z'
        | "lower" => range 'a' 'z'
        | "digit" => range '0' '9'
        | "alpha" => range 'A' 'Z' ++ range 'a' 'z'
        | "alnum" => range '0' '9' ++ range 'A' 'Z' ++ range 'a' 'z'
        | "space" => ['\t', '\n', '\x0b', '\x0c', '\x0d', ' ']
        | _ => []
      members ++ charSet fuel after
    | a :: '-' :: b :: rest =>
      (List.range (b.toNat + 1 - a.toNat)).map (fun i => Char.ofNat (a.toNat + i)) ++ charSet fuel rest
    | '\\' :: c :: rest =>
      Char.ofNat (((letterEscape? c).map UInt8.toNat).getD c.toNat) :: charSet fuel rest
    | c :: rest => c :: charSet fuel rest

def setBytes (s : String) : List UInt8 :=
  utf8 (charSet (s.length + 1) s.toList)

def tr (args : List String) (input : List UInt8) : Result :=
  match args with
  | ["-d", set] =>
    let gone := setBytes set
    { stdout := input.filter fun b => !gone.contains b }
  | [before, after] =>
    let old := setBytes before
    let new := setBytes after
    let last := new.getLast?.getD 0
    { stdout := input.map fun b =>
        match old.idxOf? b with
        | some i => new.getD i last
        | none => b }
  | _ => { stderr := bytesOf "tr: missing operand\nTry 'tr --help' for more information.\n", status := 1 }

def cat (disk : Disk) (directory : Path) (args : List String) (input : List UInt8) : Result :=
  if args.isEmpty then { stdout := input }
  else args.foldl (fun r arg =>
    if arg = "-" then { r with stdout := r.stdout ++ input }
    else
      match disk.read directory (Path.ofString arg) with
      | .ok text => { r with stdout := r.stdout ++ bytesOf text }
      | .error e =>
        let reason := ((e.message.splitOn " (os error").headD "")
        { r with stderr := r.stderr ++ bytesOf ("cat: " ++ arg ++ ": " ++ reason ++ "\n"), status := 1 })
    {}

/-- A duration such as `0.5` or `2m` in milliseconds. -/
def durationOf? (s : String) : Option Nat :=
  let cs := s.toList
  let whole := cs.takeWhile Char.isDigit
  let rest := cs.drop whole.length
  let (fraction, rest) := match rest with
    | '.' :: rest => (rest.takeWhile Char.isDigit, rest.dropWhile Char.isDigit)
    | rest => ([], rest)
  let ms := 1000 * digitsValue whole + digitsValue ((fraction ++ ['0', '0', '0']).take 3)
  if whole.isEmpty && fraction.isEmpty then none
  else
    match rest with
    | [] | ['s'] => some ms
    | ['m'] => some (60 * ms)
    | ['h'] => some (3600 * ms)
    | ['d'] => some (86400 * ms)
    | _ => none

def sleep (args : List String) : Result :=
  let usage := "Try 'sleep --help' for more information.\n"
  let wrong := args.filter (durationOf? · |>.isNone)
  if args.isEmpty then { stderr := bytesOf ("sleep: missing operand\n" ++ usage), status := 1 }
  else if wrong.isEmpty then { elapsed := (args.filterMap durationOf?).foldl (· + ·) 0 }
  else
    let complaints := wrong.map fun arg => "sleep: invalid time interval '" ++ arg ++ "'\n"
    { stderr := bytesOf (String.join complaints ++ usage), status := 1 }

/-- The result of a program that works on its input and on files alone, if there is
such a program. -/
def run? (d : Dialect) (name : String) (args : List String) (input : List UInt8) (disk : Disk)
    (directory : Path) : Option Result :=
  match name with
  | "echo" => some (echo d args)
  | "printf" => some (printf d args)
  | "true" => some {}
  | "false" => some { status := 1 }
  | "sleep" => some (sleep args)
  | "cat" => some (cat disk directory args input)
  | "tr" => some (tr args input)
  | "pwd" => some { stdout := directory.bytes ++ [10] }
  | _ => none

end Tool

end SecretDotenv.Shell
