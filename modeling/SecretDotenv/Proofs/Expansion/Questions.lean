import Mathlib.Tactic.SplitIfs
import SecretDotenv.Expansion.Pass

/-! What a piece does. A capture is planned before anything is called, so it is known what
a piece asks of the world; a piece that asks nothing has a value of its own. -/
namespace SecretDotenv.Expansion

open SecretDotenv.Text SecretDotenv.Machine SecretDotenv.Secret SecretDotenv.Dotenv

inductive Question where
  | vault (index : Nat) (args : List String)
  | command (command : Command)
deriving DecidableEq, Repr

inductive Plan where
  | literal (text : String)
  | ask (question : Question)
deriving DecidableEq, Repr

namespace Context

variable {σ : Type}

def planOf (cx : Context σ) : Request σ → Plan
  | .literal text => .literal text
  | .vault _ args => .ask (.vault (cx.vaults.findIdx (·.canHandle args)) args)
  | .command c => .ask (.command c)

def plan (cx : Context σ) (script : String) : Except Failure.Cause Plan :=
  (cx.request script).map cx.planOf

def answer (cx : Context σ) (mode : Mode) (question : Question) (world : σ) :
    Except Failure.Cause String × σ :=
  match question with
  | .vault index args =>
    match cx.vaults[index]? with
    | some vault =>
      let act := if mode = .blocking || vault.synchronous then vault.expand args
        else vault.expandAsync args
      ((act.outcome world).1.mapError .vault, (act.outcome world).2)
    | none => (.error .noVault, world)
  | .command c =>
    let limit := if mode = .blocking then none else cx.options.limit
    (commandValue c (cx.run c limit world).1, (cx.run c limit world).2)

def stopped (cx : Context σ) (mode : Mode) (world : σ) : Bool :=
  mode = .cooperative && cx.aborted world

def asks (cx : Context σ) : Piece → Option Question
  | .capture script =>
    match cx.plan script with
    | .ok (.ask question) => some question
    | _ => none
  | _ => none

/-- What a piece asks in a world. A run that is stopped asks nothing. -/
def question? (cx : Context σ) (mode : Mode) (world : σ) (piece : Piece) : Option Question :=
  if cx.stopped mode world then none else cx.asks piece

def assigned? (cx : Context σ) (document : Document) : Piece → Option (String × String)
  | .reference name (.assign value) =>
    if (cx.lookup document name).isNone then some (name, value) else none
  | _ => none

def grown (cx : Context σ) (document : Document) (piece : Piece) : Document :=
  match cx.assigned? document piece with
  | some (name, value) => document.set name value
  | none => document

def valueOtherwise (name : String) : Otherwise → Except Failure.Cause String
  | .fail none => .error (.unset name)
  | .fail (some message) => .error (.unsetAs message)
  | .use value | .assign value => .ok value

/-- What a piece comes to if nothing is asked. -/
def quietValue (cx : Context σ) (document : Document) : Piece → Except Failure.Cause String
  | .text text => .ok text
  | .reference name otherwise =>
    (cx.lookup document name).elim (valueOtherwise name otherwise) .ok
  | .argument digits =>
    ((nat64? digits).bind fun index => cx.options.args[index]?).elim (.error (.badIndex digits)) .ok
  | .capture script =>
    match cx.plan script with
    | .error cause => .error cause
    | .ok (.literal text) => .ok text
    | .ok (.ask _) => .error .cancelled
  | .fault cause => .error cause

theorem request_vault {cx : Context σ} {script : String} {vault : Vault σ} {args : List String}
    (h : cx.request script = .ok (.vault vault args)) :
    cx.vaults[cx.vaults.findIdx (·.canHandle args)]? = some vault := by
  rw [← List.find?_eq_getElem?_findIdx]
  unfold request at h
  dsimp only at h
  split_ifs at h
  · split at h
    · next found hfound =>
      obtain ⟨rfl, rfl⟩ := Request.vault.inj (Except.ok.inj h)
      exact hfound
    · cases h
  · cases h
  · cases h
  · split at h <;> cases h

theorem guarded_eq (cx : Context σ) (mode : Mode) (act : Step σ String) (p : Progress σ) :
    (do if mode = .cooperative && cx.aborted (← get).world then throw .cancelled
        act : Step σ String) p =
      if cx.stopped mode p.world then (.error .cancelled, p) else act p := by
  change (if mode = .cooperative && cx.aborted p.world then _ else act : Step σ String) p = _
  unfold stopped
  split <;> rfl

theorem runCommand_eq (cx : Context σ) (mode : Mode) (c : Command) (p : Progress σ) :
    cx.runCommand mode c p =
      ((cx.answer mode (.command c) p.world).1,
        { p with world := (cx.answer mode (.command c) p.world).2 }) := by
  simp only [runCommand, onWorld, answer]
  cases commandValue c _ <;> rfl

/-- What a capture does: it is planned, and what the plan asks is asked unless the run
was told to stop. -/
theorem resolve_eq (cx : Context σ) (mode : Mode) (script : String) (p : Progress σ) :
    cx.resolve mode script p =
      match cx.plan script with
      | .error cause => (.error cause, p)
      | .ok (.literal text) => (.ok text, p)
      | .ok (.ask question) =>
        if cx.stopped mode p.world then (.error .cancelled, p)
        else ((cx.answer mode question p.world).1,
          { p with world := (cx.answer mode question p.world).2 }) := by
  unfold resolve plan
  cases hrequest : cx.request script with
  | error cause => rfl
  | ok request =>
    cases request with
    | literal text => rfl
    | vault vault args =>
      refine (cx.guarded_eq mode _ p).trans ?_
      simp only [planOf, Except.map, answer, request_vault hrequest]
      rfl
    | command c =>
      refine (cx.guarded_eq mode (cx.runCommand mode c) p).trans ?_
      rw [runCommand_eq]
      rfl

@[simp] theorem stopped_blocking (cx : Context σ) (world : σ) : cx.stopped .blocking world = false :=
  rfl

@[simp] theorem stopped_cooperative (cx : Context σ) (world : σ) :
    cx.stopped .cooperative world = cx.aborted world :=
  rfl

theorem asks_eq_some {cx : Context σ} {piece : Piece} {question : Question}
    (h : cx.asks piece = some question) :
    ∃ script, piece = .capture script ∧ cx.plan script = .ok (.ask question) := by
  unfold asks at h
  split at h
  · next script =>
    split at h
    · next hplan =>
      obtain rfl := Option.some.inj h
      exact ⟨script, rfl, hplan⟩
    · contradiction
  · contradiction

theorem question?_eq_some {cx : Context σ} {mode : Mode} {world : σ} {piece : Piece}
    {question : Question} :
    cx.question? mode world piece = some question ↔
      cx.stopped mode world = false ∧ cx.asks piece = some question := by
  unfold question?
  cases cx.stopped mode world <;> simp

theorem expandPiece_of_question {cx : Context σ} {mode : Mode} {p : Progress σ} {piece : Piece}
    {question : Question} (h : cx.question? mode p.world piece = some question) :
    cx.expandPiece mode piece p =
      ((cx.answer mode question p.world).1,
        { p with world := (cx.answer mode question p.world).2 }) := by
  obtain ⟨hgoes, hasks⟩ := question?_eq_some.1 h
  obtain ⟨script, rfl, hplan⟩ := asks_eq_some hasks
  refine (cx.resolve_eq mode script p).trans ?_
  simp [hplan, hgoes]

theorem get_bind {α : Type} (f : Progress σ → Step σ α) (p : Progress σ) :
    (get >>= f : Step σ α) p = f p p :=
  rfl

theorem withoutValue_eq (cx : Context σ) (name : String) (otherwise : Otherwise) (p : Progress σ)
    (h : cx.lookup p.document name = none) :
    (withoutValue name otherwise : Step σ String) p =
      (valueOtherwise name otherwise,
        { p with document := cx.grown p.document (.reference name otherwise) }) := by
  cases otherwise with
  | fail message => cases message <;> rfl
  | use value => rfl
  | assign value =>
    simp only [grown, assigned?, h]
    rfl

theorem expandPiece_found {cx : Context σ} {mode : Mode} {name value : String} {p : Progress σ}
    (otherwise : Otherwise) (h : cx.lookup p.document name = some value) :
    cx.expandPiece mode (.reference name otherwise) p = (.ok value, p) := by
  rw [expandPiece, get_bind]
  simp only [h]
  rfl

theorem expandPiece_unset {cx : Context σ} {mode : Mode} {name : String} {p : Progress σ}
    (otherwise : Otherwise) (h : cx.lookup p.document name = none) :
    cx.expandPiece mode (.reference name otherwise) p =
      (withoutValue name otherwise : Step σ String) p := by
  rw [expandPiece, get_bind]
  simp only [h]

theorem expandPiece_reference (cx : Context σ) (mode : Mode) (name : String) (otherwise : Otherwise)
    (p : Progress σ) :
    cx.expandPiece mode (.reference name otherwise) p =
      (cx.quietValue p.document (.reference name otherwise),
        { p with document := cx.grown p.document (.reference name otherwise) }) := by
  cases hfound : cx.lookup p.document name with
  | none =>
    rw [expandPiece_unset otherwise hfound, cx.withoutValue_eq name otherwise p hfound, quietValue,
      hfound]
    rfl
  | some value =>
    have hgrown : cx.grown p.document (.reference name otherwise) = p.document := by
      cases otherwise <;> simp [grown, assigned?, hfound]
    rw [expandPiece_found otherwise hfound, quietValue, hfound, hgrown]
    rfl

theorem expandPiece_of_quiet {cx : Context σ} {mode : Mode} {p : Progress σ} {piece : Piece}
    (h : cx.question? mode p.world piece = none) :
    cx.expandPiece mode piece p =
      (cx.quietValue p.document piece, { p with document := cx.grown p.document piece }) := by
  cases piece with
  | text text => rfl
  | reference name otherwise => exact cx.expandPiece_reference mode name otherwise p
  | argument digits =>
    change cx.argument digits p = _
    simp only [argument, quietValue]
    cases (nat64? digits).bind fun index => cx.options.args[index]? <;> rfl
  | capture script =>
    refine (cx.resolve_eq mode script p).trans ?_
    simp only [quietValue]
    cases hplan : cx.plan script with
    | error cause => rfl
    | ok plan =>
      cases plan with
      | literal text => rfl
      | ask question =>
        cases hstop : cx.stopped mode p.world with
        | true => rfl
        | false => simp [question?, asks, hplan, hstop] at h
  | fault cause => rfl

end Context
end SecretDotenv.Expansion
