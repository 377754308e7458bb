import SecretDotenv.Expansion.Value

/-! Expansion of a whole document, entry by entry in order. An entry that fails keeps
its raw value and is reported; the others are expanded all the same. -/
namespace SecretDotenv.Expansion

open SecretDotenv.Dotenv SecretDotenv.Secret

structure EntryFailure where
  index : Nat
  key : String
  failure : Failure
deriving DecidableEq, Repr

def EntryFailure.display (e : EntryFailure) : String :=
  e.key ++ ": " ++ e.failure.message ++ " (position " ++ toString e.failure.position ++ ")"

structure Summary where
  document : Document
  failures : List EntryFailure
deriving DecidableEq, Repr

def Summary.isError (s : Summary) : Bool :=
  !s.failures.isEmpty

namespace Context

variable {σ : Type}

/-- Expands one entry; a run that was told to stop leaves it. -/
def expandEntry (cx : Context σ) (mode : Mode) (raw : String) (p : Progress σ) :
    Except Failure String × Progress σ :=
  if mode = .cooperative && cx.aborted p.world then
    (.error { cause := .cancelled, position := 0 }, p)
  else cx.expandValue mode raw p

def expandAt (cx : Context σ) (mode : Mode) (index : Nat) (p : Progress σ) :
    Option EntryFailure × Progress σ :=
  match p.document.entryAt? index with
  | none => (none, p)
  | some entry =>
    match cx.expandEntry mode entry.value p with
    | (.ok value, p) => (none, { p with document := p.document.setValueAt index value })
    | (.error failure, p) => (some { index, key := entry.name, failure }, p)

def expandAll (cx : Context σ) (mode : Mode) :
    List Nat → Progress σ → List EntryFailure × Progress σ
  | [], p => ([], p)
  | index :: rest, p =>
    let (failure, p) := cx.expandAt mode index p
    let (failures, p) := cx.expandAll mode rest p
    (failure.toList ++ failures, p)

/-- Expands a document. Entries that are added on the way are not expanded. -/
def expand (cx : Context σ) (mode : Mode) (document : Document) (world : σ) : Summary × σ :=
  let (failures, p) := cx.expandAll mode (List.range document.nodes.length) { document, world }
  ({ document := p.document, failures }, p.world)

end Context

end SecretDotenv.Expansion
