import SecretDotenv.Dotenv.Stream

/-! A dotenv document: entries and comments in order. Names may repeat; a look-up
sees the first entry of a name, and so does an update. -/
namespace SecretDotenv.Dotenv

structure Entry where
  name : String
  value : String
deriving DecidableEq, Repr

inductive Node where
  | entry (entry : Entry)
  | comment (text : String)
deriving DecidableEq, Repr

def Node.entry? : Node → Option Entry
  | .entry e => some e
  | .comment _ => none

structure Document where
  nodes : List Node := []
deriving DecidableEq, Repr, Inhabited

namespace Document

def push (d : Document) (node : Node) : Document :=
  { nodes := d.nodes ++ [node] }

def pushEntry (d : Document) (name value : String) : Document :=
  d.push (.entry { name, value })

def pushComment (d : Document) (text : String) : Document :=
  d.push (.comment text)

def entries (d : Document) : List Entry :=
  d.nodes.filterMap Node.entry?

def ofPairs (pairs : List (String × String)) : Document :=
  { nodes := pairs.map fun (name, value) => .entry { name, value } }

def pairs (d : Document) : List (String × String) :=
  d.entries.map fun e => (e.name, e.value)

def get? (d : Document) (name : String) : Option String :=
  (d.entries.find? (·.name == name)).map (·.value)

def contains (d : Document) (name : String) : Bool :=
  (d.get? name).isSome

def entryAt? (d : Document) (index : Nat) : Option Entry :=
  d.nodes[index]?.bind Node.entry?

/-- Gives the first entry called `name` the value, or adds such an entry at the end. -/
def setNodes (name value : String) : List Node → List Node
  | [] => [.entry { name, value }]
  | .entry e :: rest =>
    if e.name = name then .entry { e with value } :: rest
    else .entry e :: setNodes name value rest
  | node :: rest => node :: setNodes name value rest

def set (d : Document) (name value : String) : Document :=
  { nodes := setNodes name value d.nodes }

def Node.withValue (value : String) : Node → Node
  | .entry e => .entry { e with value }
  | node => node

def setValueAt (d : Document) (index : Nat) (value : String) : Document :=
  { nodes := d.nodes.modify index (Node.withValue value) }

def setAll (d : Document) (value : String) : Document :=
  { nodes := d.nodes.map (Node.withValue value) }

def append (d other : Document) : Document :=
  { nodes := d.nodes ++ other.nodes }

/-- Pairs names with the values behind them; `pending` is a name without a value
so far. A name that another name or a comment follows has the empty value. -/
def nodesOfTokens : Option String → List Token → Except ParseError (List Node)
  | none, [] => .ok []
  | some name, [] => .ok [.entry { name, value := "" }]
  | pending, t :: rest =>
    let orphan : List Node := (pending.map fun name => .entry { name, value := "" }).toList
    match t.kind with
    | .name => return orphan ++ (← nodesOfTokens (some t.text) rest)
    | .comment => return orphan ++ .comment t.text :: (← nodesOfTokens none rest)
    | _ =>
      match pending with
      | some name => return .entry { name, value := t.text } :: (← nodesOfTokens none rest)
      | none => .error { cause := .orphanValue, position := t.position }

/-- Reads a document; the first error of the reader or of the pairing is the answer. -/
def parse (text : String) (options : ReaderOptions := {}) : Except ParseError Document := do
  let (tokens, error) := Dotenv.tokens text options
  let nodes ← nodesOfTokens none tokens
  match error with
  | some e => .error e
  | none => return { nodes }

end Document

end SecretDotenv.Dotenv
