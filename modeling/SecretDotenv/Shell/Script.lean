import SecretDotenv.Shell.Lexeme

/-! Scripts as what they do: commands in sequence, in pipelines, under conditions and in
groups. A script is read line by line, so what stands before a fault is run. -/
namespace SecretDotenv.Shell

structure Redirect where
  stream : Option Nat
  text : String
  target : Word
deriving DecidableEq, Repr

structure Simple where
  assignments : List (String × Word) := []
  words : List Word := []
  redirects : List Redirect := []
deriving DecidableEq, Repr

inductive Script where
  | empty
  | simple (command : Simple) (line : Nat)
  | sequence (first second : Script)
  | both (first second : Script)
  | either (first second : Script)
  | negated (body : Script)
  | pipe (left right : Script)
  | branch (test yes no : Script)
  | group (body : Script) (redirects : List Redirect)
  /-- In parentheses: changes of variables and directory end with it. -/
  | nested (body : Script) (redirects : List Redirect)
deriving DecidableEq, Repr

namespace Script

structure Input where
  rest : List Lexeme
  line : Nat

abbrev Reader (α : Type) := StateT Input (Except SyntaxError) α

def Lexeme.describe : Lexeme → SyntaxError
  | .word w => .unexpected (String.ofList (w.flatMap fun
    | .text text _ => text
    | .variable name _ _ => '$' :: name.toList
    | .capture script _ => ['$', '('] ++ script ++ [')']))
  | .operator "\n" => .unexpected "newline"
  | .operator text => .unexpected text
  | .redirect _ _ => .unexpected "redirection"
  | .fault e => e

def unexpected {α : Type} : Reader α := do
  match (← get).rest with
  | [] => throw .unexpectedEnd
  | lexeme :: _ => throw (Lexeme.describe lexeme)

def next? : Reader (Option Lexeme) := do
  return (← get).rest.head?

def advance : Reader Unit :=
  modify fun i =>
    { rest := i.rest.drop 1
      line := if i.rest.head? = some (.operator "\n") then i.line + 1 else i.line }

def plain? : Lexeme → Option String
  | .word [.text text false] => some (String.ofList text)
  | _ => none

/-- `NAME=` in front of a word makes it an assignment. -/
def assignment? : Word → Option (String × Word)
  | .text text false :: rest =>
    let name := text.takeWhile Lexeme.isNamePart
    match text.dropWhile Lexeme.isNamePart with
    | '=' :: value =>
      if name.isEmpty || (name.head?.map Char.isDigit).getD false then none
      else
        let value := if value.isEmpty then rest else .text value false :: rest
        some (String.ofList name, value)
    | _ => none
  | _ => none

def skipNewlines : (fuel : Nat) → Reader Unit
  | 0 => return
  | fuel + 1 => do
    if (← next?) = some (.operator "\n") then
      advance
      skipNewlines fuel

def readTarget : Reader Word := do
  match ← next? with
  | some (.word w) =>
    advance
    return w
  | _ => unexpected

def readRedirects : (fuel : Nat) → Reader (List Redirect)
  | 0 => return []
  | fuel + 1 => do
    match ← next? with
    | some (.redirect stream text) =>
      advance
      let target ← readTarget
      return { stream, text, target } :: (← readRedirects fuel)
    | _ => return []

def readSimple : (fuel : Nat) → Simple → Reader Simple
  | 0, c => return c
  | fuel + 1, c => do
    match ← next? with
    | some (.word w) =>
      advance
      match (if c.words.isEmpty then assignment? w else none) with
      | some pair => readSimple fuel { c with assignments := c.assignments ++ [pair] }
      | none => readSimple fuel { c with words := c.words ++ [w] }
    | some (.redirect stream text) =>
      advance
      let target ← readTarget
      readSimple fuel { c with redirects := c.redirects ++ [{ stream, text, target }] }
    | some (.operator "(") => unexpected
    | _ => return c

def closers : List String := ["then", "elif", "else", "fi", "\x7d"]

def expectWord (word : String) : Reader Unit := do
  match ← next? with
  | some lexeme => if plain? lexeme = some word then advance else unexpected
  | none => unexpected

mutual

def readList : (fuel : Nat) → Reader Script
  | 0 => return .empty
  | fuel + 1 => do
    skipNewlines fuel
    match ← next? with
    | none => return .empty
    | some (.operator ")") => return .empty
    | some lexeme =>
      if ((plain? lexeme).map (closers.contains ·)).getD false then return .empty
      else
        let first ← readConditional fuel
        match ← next? with
        | some (.operator ";") | some (.operator "&") | some (.operator "\n") =>
          advance
          return .sequence first (← readList fuel)
        | _ => return first

def readConditional : (fuel : Nat) → Reader Script
  | 0 => return .empty
  | fuel + 1 => do
    readConditionalFrom fuel (← readPipeline fuel)

def readConditionalFrom : (fuel : Nat) → Script → Reader Script
  | 0, s => return s
  | fuel + 1, s => do
    match ← next? with
    | some (.operator "&&") =>
      advance
      skipNewlines fuel
      readConditionalFrom fuel (.both s (← readPipeline fuel))
    | some (.operator "||") =>
      advance
      skipNewlines fuel
      readConditionalFrom fuel (.either s (← readPipeline fuel))
    | _ => return s

def readPipeline : (fuel : Nat) → Reader Script
  | 0 => return .empty
  | fuel + 1 => do
    if ((← next?).bind plain?) = some "!" then
      advance
      return .negated (← readPipeline fuel)
    else
      let left ← readCommand fuel
      match ← next? with
      | some (.operator "|") =>
        advance
        skipNewlines fuel
        return .pipe left (← readPipeline fuel)
      | _ => return left

def readCommand : (fuel : Nat) → Reader Script
  | 0 => return .empty
  | fuel + 1 => do
    let line := (← get).line
    match ← next? with
    | some (.operator "(") =>
      advance
      let body ← readList fuel
      if (← next?) = some (.operator ")") then
        advance
        return .nested body (← readRedirects fuel)
      else unexpected
    | some lexeme =>
      match plain? lexeme with
      | some "\x7b" =>
        advance
        let body ← readList fuel
        expectWord "\x7d"
        return .group body (← readRedirects fuel)
      | some "if" =>
        advance
        readBranch fuel
      | _ =>
        let c ← readSimple (fuel + 1) {}
        if c = {} then unexpected else return .simple c line
    | none => unexpected

def readBranch : (fuel : Nat) → Reader Script
  | 0 => return .empty
  | fuel + 1 => do
    let test ← readList fuel
    expectWord "then"
    let yes ← readList fuel
    match (← next?).bind plain? with
    | some "elif" =>
      advance
      return .branch test yes (← readBranch fuel)
    | some "else" =>
      advance
      let no ← readList fuel
      expectWord "fi"
      return .branch test yes no
    | _ =>
      expectWord "fi"
      return .branch test yes .empty

end

def readLine : (fuel : Nat) → Reader Script
  | 0 => return .empty
  | fuel + 1 => do
    let first ← readConditional fuel
    match ← next? with
    | some (.operator ";") | some (.operator "&") =>
      advance
      match ← next? with
      | none | some (.operator "\n") =>
        advance
        return first
      | _ => return .sequence first (← readLine fuel)
    | some (.operator "\n") =>
      advance
      return first
    | none => return first
    | _ => unexpected

def readLines : (fuel : Nat) → Input → List (Except (SyntaxError × Nat) Script)
  | 0, _ => []
  | fuel + 1, i =>
    match i.rest with
    | [] => []
    | .operator "\n" :: rest => readLines fuel { rest, line := i.line + 1 }
    | _ =>
      match (readLine (8 * i.rest.length + 20)).run i with
      | .ok (script, i) => .ok script :: readLines fuel i
      | .error e => [.error (e, i.line)]

def linesOf (text : String) : List (Except (SyntaxError × Nat) Script) :=
  let rest := Lexeme.ofScript text
  readLines (rest.length + 1) { rest, line := 1 }

end Script

end SecretDotenv.Shell
