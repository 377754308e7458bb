import SecretDotenv.Text.Pieces

/-! What a command line gives to a command: options by name, and operands. A command
says in a grammar which of them it knows; the first thing that does not fit stops
the reading. -/
namespace SecretDotenv.CommandLine

open SecretDotenv.Text

inductive Stop where
  | help
  | version
  | misuse
deriving DecidableEq, Repr

structure OptionForm where
  name : String
  short : Option Char := none
  /-- Which values it takes; a switch takes none. -/
  accepts : Option (String → Bool) := none
  repeatable : Bool := false

inductive Operands where
  | none
  | one
  | files
deriving DecidableEq, Repr

structure Grammar where
  options : List OptionForm := []
  operands : Operands := .none
  hasRest : Bool := false
  /-- Words that hand over to a grammar of their own. -/
  commands : List String := []
  showsVersion : Bool := false

structure Given where
  options : List (String × String) := []
  operands : List String := []
  rest : List String := []
deriving DecidableEq, Repr

namespace Given

def has (g : Given) (name : String) : Bool :=
  g.options.any (·.1 == name)

def values (g : Given) (name : String) : List String :=
  g.options.filterMap fun (n, value) => if n = name then some value else none

def value? (g : Given) (name : String) : Option String :=
  (g.values name).head?

def addOption (g : Given) (form : OptionForm) (value : String) : Except Stop Given :=
  if g.has form.name && !form.repeatable then .error .misuse
  else if (form.accepts.map (· value)).getD true then
    .ok { g with options := g.options ++ [(form.name, value)] }
  else .error .misuse

def addOperand (g : Given) (grammar : Grammar) (word : String) : Except Stop Given :=
  let more := { g with operands := g.operands ++ [word] }
  match grammar.operands with
  | .none => .error .misuse
  | .one => if g.operands.isEmpty then .ok more else .error .misuse
  | .files => if word.isEmpty then .error .misuse else .ok more

def addRest (g : Given) (grammar : Grammar) (words : List String) : Except Stop Given :=
  if grammar.hasRest then .ok { g with rest := g.rest ++ words }
  else words.foldlM (fun g word => g.addOperand grammar word) g

end Given

inductive Word where
  | divider
  | long (name : String) (value : Option String)
  | short (letter : Char) (value : Option String)
  | plain (text : String)
deriving DecidableEq, Repr

def Word.ofString (text : String) : Word :=
  match text.toList with
  | ['-', '-'] => .divider
  | '-' :: '-' :: rest =>
    match cut '=' rest with
    | some (name, value) => .long (String.ofList name) (some (String.ofList value))
    | none => .long (String.ofList rest) none
  | ['-', letter] => .short letter none
  | '-' :: letter :: '=' :: rest => .short letter (some (String.ofList rest))
  | '-' :: letter :: rest => .short letter (some (String.ofList rest))
  | _ => .plain text

/-- The end of a command line, or the command that takes over and its words. -/
abbrev Handover := Option (String × List String)

namespace Grammar

def long? (grammar : Grammar) (name : String) : Option OptionForm :=
  grammar.options.find? (·.name == name)

def short? (grammar : Grammar) (letter : Char) : Option OptionForm :=
  grammar.options.find? (·.short == some letter)

def takeOption (form : OptionForm) (value : Option String) (given : Given) :
    Except Stop (Given × Option OptionForm) :=
  match form.accepts.isSome, value with
  | true, some value => (given.addOption form value).map (·, none)
  | true, none => .ok (given, some form)
  | false, some _ => .error .misuse
  | false, none => (given.addOption form "").map (·, none)

def take (grammar : Grammar) (word : Word) (given : Given) :
    Except Stop (Given × Option OptionForm) :=
  match word with
  | .divider => .ok (given, none)
  | .plain text => (given.addOperand grammar text).map (·, none)
  | .long name value =>
    match grammar.long? name with
    | some form => takeOption form value given
    | none =>
      if value.isNone && name = "help" then .error .help
      else if value.isNone && name = "version" && grammar.showsVersion then .error .version
      else .error .misuse
  | .short letter value =>
    match grammar.short? letter with
    | some form => takeOption form value given
    | none =>
      if letter = 'h' then .error .help
      else if letter = 'V' && grammar.showsVersion then .error .version
      else .error .misuse

/-- Reads words from the left. `pending` is an option whose value is the next word,
which then must be a plain one. -/
def read (grammar : Grammar) :
    (pending : Option OptionForm) → Given → List String → Except Stop (Given × Handover)
  | some _, _, [] => .error .misuse
  | some form, given, text :: rest =>
    match Word.ofString text with
    | .plain value => do grammar.read none (← given.addOption form value) rest
    | _ => .error .misuse
  | none, given, [] => .ok (given, none)
  | none, given, text :: rest =>
    if text ∈ grammar.commands then .ok (given, some (text, rest))
    else if Word.ofString text = .divider then do
      return (← given.addRest grammar rest, none)
    else do
      let (given, pending) ← grammar.take (Word.ofString text) given
      grammar.read pending given rest

end Grammar

end SecretDotenv.CommandLine
