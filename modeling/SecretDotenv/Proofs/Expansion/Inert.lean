import Mathlib.Data.List.Forall2
import SecretDotenv.Proofs.Expansion.Joined
import SecretDotenv.Proofs.Expansion.Turns

/-! Two runs that differ in values only. Values decide nothing: both runs stay abreast, ask
the same and fail alike, since a value that is put in is never read again. -/
namespace SecretDotenv.Expansion

open SecretDotenv.Machine SecretDotenv.Secret SecretDotenv.Dotenv

/-- Both are values, whichever, or both are failures, and these are related. -/
inductive Alike {ε α : Type} (related : ε → ε → Prop) : Except ε α → Except ε α → Prop
  | ok (x y : α) : Alike related (.ok x) (.ok y)
  | error {c d : ε} : related c d → Alike related (.error c) (.error d)

theorem Alike.elim {ε α : Type} {related : ε → ε → Prop} {otherwise : Except ε α}
    (hotherwise : Alike related otherwise otherwise) {first second : Option α}
    (h : first.isNone = second.isNone) :
    Alike related (first.elim otherwise .ok) (second.elim otherwise .ok) := by
  cases first <;> cases second
  case none.none => exact hotherwise
  case some.some x y => exact .ok x y
  all_goals contradiction

namespace Failure

/-- Causes that are reported alike wherever they happen. -/
def Cause.Similar (c d : Cause) : Prop :=
  c.kind = d.kind ∧ ∀ position, message { cause := c, position } = message { cause := d, position }

theorem Cause.Similar.refl (c : Cause) : c.Similar c :=
  ⟨rfl, fun _ => rfl⟩

theorem alike_refl (result : Except Cause String) : Alike Cause.Similar result result := by
  cases result with
  | ok x => exact .ok x x
  | error c => exact .error (.refl c)

def report (f : Failure) : Kind × String × Nat :=
  (f.kind, f.message, f.position)

theorem Cause.Similar.report_eq {c d : Cause} (h : c.Similar d) (position : Nat) :
    report { cause := c, position } = report { cause := d, position } :=
  Prod.ext h.1 (Prod.ext (h.2 position) rfl)

end Failure

def EntryFailure.report (f : EntryFailure) : Nat × String × Failure.Kind × String × Nat :=
  (f.index, f.key, f.failure.report)

/-- Where both answer the same question, both answers are values or similar failures. -/
def AnsweredAlike {σ τ : Type} (first : List (Asked σ)) (second : List (Asked τ)) : Prop :=
  ∀ (k : Nat) (a : Asked σ) (b : Asked τ), first[k]? = some a → second[k]? = some b →
    a.question = b.question → Alike Failure.Cause.Similar a.answer b.answer

/-- Both stand before the node `n`, and have come to nodes that differ in values only. -/
structure Abreast {σ τ : Type} (n : Nat) (p : Progress σ) (q : Progress τ) : Prop where
  labels : p.document.nodes.map Node.label = q.document.nodes.map Node.label
  behind : p.document.nodes.drop n = q.document.nodes.drop n

variable {σ τ : Type} {n : Nat}

namespace Abreast

variable {p : Progress σ} {q : Progress τ}

theorem next (h : Abreast n p q) : Abreast (n + 1) p q := by
  refine ⟨h.labels, ?_⟩
  rw [← List.drop_drop, h.behind, List.drop_drop]

theorem setValueAt (h : Abreast n p q) (value₁ value₂ : String) :
    Abreast (n + 1) { p with document := p.document.setValueAt n value₁ }
      { q with document := q.document.setValueAt n value₂ } := by
  refine ⟨?_, ?_⟩
  · simp only [Document.setValueAt, Document.labels_modify, h.labels]
  · simp only [Document.setValueAt, List.drop_modify_of_lt _ _ _ _ (Nat.lt_succ_self n)]
    exact h.next.behind

end Abreast

namespace AnsweredAlike

variable {first front : List (Asked σ)} {second back : List (Asked τ)}

theorem of_forall₂
    (h : List.Forall₂ (Alike Failure.Cause.Similar) (first.map (·.answer)) (second.map (·.answer))) :
    AnsweredAlike first second := by
  intro k a b ha hb _
  obtain ⟨hk₁, rfl⟩ := List.getElem?_eq_some_iff.1 ha
  obtain ⟨hk₂, rfl⟩ := List.getElem?_eq_some_iff.1 hb
  rw [List.forall₂_map_left_iff, List.forall₂_map_right_iff] at h
  exact h.get hk₁ hk₂

theorem left (h : AnsweredAlike (first ++ front) (second ++ back)) : AnsweredAlike first second := by
  intro k a b ha hb
  refine h k a b ?_ ?_
  · rw [List.getElem?_append_left (List.getElem?_eq_some_iff.1 ha).1, ha]
  · rw [List.getElem?_append_left (List.getElem?_eq_some_iff.1 hb).1, hb]

theorem right (h : AnsweredAlike (first ++ front) (second ++ back))
    (hlength : first.length = second.length) : AnsweredAlike front back := by
  intro k a b ha hb
  refine h (first.length + k) a b ?_ ?_
  · simpa [List.getElem?_append_right] using ha
  · simpa [hlength, List.getElem?_append_right] using hb

end AnsweredAlike

namespace Context

/-- The same is set up in both, and the same names have values. -/
structure SameNames (cx₁ : Context σ) (cx₂ : Context τ) : Prop where
  options : cx₂.options =
    { cx₁.options with bindings := cx₂.options.bindings, args := cx₂.options.args }
  bindings : ∀ name, name ∈ cx₁.options.bindings.map (·.1) ↔ name ∈ cx₂.options.bindings.map (·.1)
  args : cx₁.options.args.length = cx₂.options.args.length
  environment : ∀ name, (cx₁.environment.get? name).isSome = (cx₂.environment.get? name).isSome
  vaults : cx₁.vaults.map (·.canHandle) = cx₂.vaults.map (·.canHandle)

variable {cx₁ : Context σ} {cx₂ : Context τ}

namespace SameNames

variable (h : cx₁.SameNames cx₂)

include h

theorem switches_eq : cx₁.options.switches = cx₂.options.switches := by
  rw [h.options]
  rfl

theorem handled_eq (args : List String) :
    cx₁.vaults.findIdx (·.canHandle args) = cx₂.vaults.findIdx (·.canHandle args) ∧
      (cx₁.vaults.find? (·.canHandle args)).isSome =
        (cx₂.vaults.find? (·.canHandle args)).isSome := by
  have hmap : ∀ {ρ : Type} (vaults : List (Vault ρ)),
      vaults.findIdx (·.canHandle args) = (vaults.map (·.canHandle)).findIdx (· args) := by
    intro ρ vaults
    rw [List.findIdx_map]
    rfl
  have hindex : cx₁.vaults.findIdx (·.canHandle args) = cx₂.vaults.findIdx (·.canHandle args) := by
    rw [hmap, hmap, h.vaults]
  have hlength := congrArg List.length h.vaults
  simp only [List.length_map] at hlength
  refine ⟨hindex, ?_⟩
  rw [Bool.eq_iff_iff]
  simp [List.find?_eq_getElem?_findIdx, hindex, hlength]

theorem plan_eq (script : String) : cx₁.plan script = cx₂.plan script := by
  have hkeyword : cx₁.options.keyword = cx₂.options.keyword := by rw [h.options]
  have hsecrets : cx₁.options.secrets = cx₂.options.secrets := by rw [h.options]
  have hcommands : cx₁.options.commands = cx₂.options.commands := by rw [h.options]
  have hshell : cx₁.options.shell = cx₂.options.shell := by rw [h.options]
  have hname : cx₁.shell = cx₂.shell := by
    rw [Context.shell, Context.shell, h.options]
  have hsecret : ∀ args, cx₁.isSecret args = cx₂.isSecret args := by
    intro args
    cases args <;> simp [isSecret, hkeyword]
  obtain ⟨hindex, hfound⟩ := h.handled_eq (Arguments.split script)
  unfold Context.plan request
  simp only [hsecret, hsecrets, hcommands, hshell, hname]
  split_ifs
  · revert hfound
    cases hfound₁ : cx₁.vaults.find? (·.canHandle (Arguments.split script)) <;>
      cases hfound₂ : cx₂.vaults.find? (·.canHandle (Arguments.split script)) <;>
      simp [Except.map, planOf, hindex]
  · rfl
  · rfl
  · rfl
  · cases Arguments.split script <;> rfl

theorem asks_eq (piece : Piece) : cx₁.asks piece = cx₂.asks piece := by
  cases piece with
  | capture script => simp only [Context.asks, h.plan_eq script]
  | _ => rfl

theorem lookup_isNone {d₁ d₂ : Document} (hlabels : d₁.nodes.map Node.label = d₂.nodes.map Node.label)
    (name : String) : (cx₁.lookup d₁ name).isNone = (cx₂.lookup d₂ name).isNone := by
  have hfound := Document.isSome_get?_congr hlabels name
  have henvironment := h.environment name
  rw [Bool.eq_iff_iff, Option.isNone_iff_eq_none, Option.isNone_iff_eq_none, lookup_eq_none_iff,
    lookup_eq_none_iff, h.bindings name]
  simp only [← Option.isNone_iff_eq_none, ← Option.not_isSome, hfound, henvironment]

theorem assigned?_eq {d₁ d₂ : Document}
    (hlabels : d₁.nodes.map Node.label = d₂.nodes.map Node.label) (piece : Piece) :
    cx₁.assigned? d₁ piece = cx₂.assigned? d₂ piece := by
  unfold Context.assigned?
  split
  · rw [h.lookup_isNone hlabels]
  · rfl

theorem quietValue_alike {d₁ d₂ : Document}
    (hlabels : d₁.nodes.map Node.label = d₂.nodes.map Node.label) (piece : Piece) :
    Alike Failure.Cause.Similar (cx₁.quietValue d₁ piece) (cx₂.quietValue d₂ piece) := by
  cases piece with
  | text text => exact .ok _ _
  | reference name otherwise =>
    exact .elim (Failure.alike_refl (valueOtherwise name otherwise)) (h.lookup_isNone hlabels name)
  | argument digits =>
    refine .elim (Failure.alike_refl (.error (.badIndex digits))) ?_
    cases Text.nat64? digits with
    | none => rfl
    | some index => rw [Bool.eq_iff_iff]; simp [h.args]
  | capture script =>
    unfold Context.quietValue
    dsimp only
    rw [h.plan_eq script]
    exact Failure.alike_refl _
  | fault cause => exact .error (.refl cause)

theorem grown_abreast {p : Progress σ} {q : Progress τ} (hp : Abreast n p q) (piece : Piece) :
    Abreast n { p with document := cx₁.grown p.document piece }
      { q with document := cx₂.grown q.document piece } := by
  have hlength := congrArg List.length hp.labels
  simp only [List.length_map] at hlength
  refine ⟨?_, ?_⟩
  · simp only [nodes_grown, List.map_append, hp.labels, h.assigned?_eq hp.labels]
  · simp only [nodes_grown, List.drop_append, hp.behind, h.assigned?_eq hp.labels, hlength]

theorem expandPiece_alike {p : Progress σ} {q : Progress τ} (hp : Abreast n p q) (x : Placed)
    (hanswers : AnsweredAlike (cx₁.askedAt? .blocking { placed := x, before := p }).toList
      (cx₂.askedAt? .blocking { placed := x, before := q }).toList) :
    Alike Failure.Cause.Similar (cx₁.expandPiece .blocking x.piece p).1
        (cx₂.expandPiece .blocking x.piece q).1 ∧
      Abreast n (cx₁.expandPiece .blocking x.piece p).2 (cx₂.expandPiece .blocking x.piece q).2 ∧
      (cx₁.askedAt? .blocking { placed := x, before := p }).map (·.question) =
        (cx₂.askedAt? .blocking { placed := x, before := q }).map (·.question) := by
  have hquestion : cx₁.question? .blocking p.world x.piece = cx₂.question? .blocking q.world x.piece := by
    simp [question?, h.asks_eq]
  cases hasks : cx₂.question? .blocking q.world x.piece with
  | none =>
    rw [hasks] at hquestion
    rw [expandPiece_of_quiet hquestion, expandPiece_of_quiet hasks]
    refine ⟨h.quietValue_alike hp.labels x.piece, h.grown_abreast hp x.piece, ?_⟩
    simp [askedAt?, hquestion, hasks]
  | some question =>
    rw [hasks] at hquestion
    simp only [askedAt?, hquestion, hasks, Option.map_some, Option.toList_some] at hanswers ⊢
    rw [expandPiece_of_question hquestion, expandPiece_of_question hasks]
    exact ⟨hanswers 0 _ _ rfl rfl rfl, ⟨hp.labels, hp.behind⟩, trivial⟩

theorem expandPieces_alike (placed : List Placed) (done₁ done₂ : String) {p : Progress σ} {q : Progress τ}
    (hp : Abreast n p q)
    (hanswers : AnsweredAlike (cx₁.asked .blocking placed p) (cx₂.asked .blocking placed q)) :
    Alike (fun f g => f.report = g.report) (cx₁.expandPieces .blocking done₁ placed p).1
        (cx₂.expandPieces .blocking done₂ placed q).1 ∧
      Abreast n (cx₁.expandPieces .blocking done₁ placed p).2
        (cx₂.expandPieces .blocking done₂ placed q).2 ∧
      (cx₁.asked .blocking placed p).map (·.question) =
        (cx₂.asked .blocking placed q).map (·.question) := by
  induction placed generalizing p q done₁ done₂ with
  | nil => exact ⟨.ok _ _, hp, rfl⟩
  | cons x rest ih =>
    rw [asked_cons, asked_cons] at hanswers
    obtain ⟨hresult, hq, hasked⟩ := h.expandPiece_alike hp x hanswers.left
    have hfirst : ((cx₁.askedAt? .blocking { placed := x, before := p }).toList).map (·.question) =
        ((cx₂.askedAt? .blocking { placed := x, before := q }).toList).map (·.question) := by
      rw [← Option.toList_map, ← Option.toList_map, hasked]
    rcases hx₁ : cx₁.expandPiece .blocking x.piece p with ⟨result₁, p'⟩
    rcases hx₂ : cx₂.expandPiece .blocking x.piece q with ⟨result₂, q'⟩
    rw [hx₁, hx₂] at hresult hq hanswers
    cases hresult with
    | error hsimilar =>
      rw [expandPieces_cons_error hx₁, expandPieces_cons_error hx₂, asked_cons_error hx₁,
        asked_cons_error hx₂]
      exact ⟨.error (hsimilar.report_eq x.position), hq, hfirst⟩
    | ok value₁ value₂ =>
      -- As many questions were asked so far, so the answers that are left belong together.
      have hlength : (cx₁.askedAt? .blocking { placed := x, before := p }).toList.length =
          (cx₂.askedAt? .blocking { placed := x, before := q }).toList.length := by
        simpa using congrArg List.length hfirst
      obtain ⟨hrest, hlast, hrestAsked⟩ := ih (done₁ ++ value₁) (done₂ ++ value₂) hq
        (hanswers.right hlength)
      rw [expandPieces_cons_ok hx₁, expandPieces_cons_ok hx₂, asked_cons_ok hx₁, asked_cons_ok hx₂,
        List.map_append, List.map_append, hfirst, hrestAsked]
      exact ⟨hrest, hlast, rfl⟩

theorem expandValue_alike (raw : String) {p : Progress σ} {q : Progress τ} (hp : Abreast n p q)
    (hanswers : AnsweredAlike (cx₁.valueAsked .blocking raw p) (cx₂.valueAsked .blocking raw q)) :
    Alike (fun f g => f.report = g.report) (cx₁.expandValue .blocking raw p).1
        (cx₂.expandValue .blocking raw q).1 ∧
      Abreast n (cx₁.expandValue .blocking raw p).2 (cx₂.expandValue .blocking raw q).2 ∧
      (cx₁.valueAsked .blocking raw p).map (·.question) =
        (cx₂.valueAsked .blocking raw q).map (·.question) := by
  unfold Context.expandValue valueAsked at *
  rw [h.switches_eq] at hanswers ⊢
  exact h.expandPieces_alike _ "" "" hp hanswers

theorem expandAt_alike {index : Nat} {p : Progress σ} {q : Progress τ} (hp : Abreast index p q)
    (hanswers : AnsweredAlike (cx₁.askedIn .blocking index p) (cx₂.askedIn .blocking index q)) :
    (cx₁.expandAt .blocking index p).1.map (·.report) =
        (cx₂.expandAt .blocking index q).1.map (·.report) ∧
      Abreast (index + 1) (cx₁.expandAt .blocking index p).2 (cx₂.expandAt .blocking index q).2 ∧
      (cx₁.askedIn .blocking index p).map (·.question) =
        (cx₂.askedIn .blocking index q).map (·.question) := by
  -- The node has not been expanded yet, so it is the same in both runs with its value.
  have hnode : p.document.nodes[index]? = q.document.nodes[index]? := by
    have hhead := congrArg (·[0]?) hp.behind
    simpa using hhead
  have hentry := Document.entryAt?_congr hnode
  cases hfound : q.document.entryAt? index with
  | none =>
    rw [hfound] at hentry
    rw [expandAt_of_none hentry, expandAt_of_none hfound]
    exact ⟨rfl, hp.next, by rw [askedIn_of_none hentry, askedIn_of_none hfound]; rfl⟩
  | some entry =>
    rw [hfound] at hentry
    rw [askedIn_of_goes hentry (stopped_blocking cx₁ _), askedIn_of_goes hfound (stopped_blocking cx₂ _)]
      at hanswers ⊢
    obtain ⟨hresult, hq, hasked⟩ := h.expandValue_alike entry.value hp hanswers
    rcases hx₁ : cx₁.expandValue .blocking entry.value p with ⟨result₁, p'⟩
    rcases hx₂ : cx₂.expandValue .blocking entry.value q with ⟨result₂, q'⟩
    rw [hx₁, hx₂] at hresult hq
    cases hresult with
    | ok value₁ value₂ =>
      rw [expandAt_of_ok hentry (stopped_blocking cx₁ _) hx₁,
        expandAt_of_ok hfound (stopped_blocking cx₂ _) hx₂]
      exact ⟨rfl, hq.setValueAt value₁ value₂, hasked⟩
    | error hreport =>
      rw [expandAt_of_error hentry (stopped_blocking cx₁ _) hx₁,
        expandAt_of_error hfound (stopped_blocking cx₂ _) hx₂]
      refine ⟨?_, hq.next, hasked⟩
      simp only [Option.map_some, EntryFailure.report, hreport]

theorem reached_abreast (document : Document) (world₁ : σ) (world₂ : τ) (index : Nat)
    (hanswers : AnsweredAlike (cx₁.askedBefore .blocking document world₁ index)
      (cx₂.askedBefore .blocking document world₂ index)) :
    Abreast index (cx₁.reached .blocking document world₁ index)
        (cx₂.reached .blocking document world₂ index) ∧
      (cx₁.failuresBefore .blocking document world₁ index).map (·.report) =
        (cx₂.failuresBefore .blocking document world₂ index).map (·.report) ∧
      (cx₁.askedBefore .blocking document world₁ index).map (·.question) =
        (cx₂.askedBefore .blocking document world₂ index).map (·.question) := by
  induction index with
  | zero => exact ⟨⟨rfl, rfl⟩, rfl, rfl⟩
  | succ index ih =>
    rw [askedBefore_succ, askedBefore_succ] at hanswers
    obtain ⟨habreast, hfailures, hasked⟩ := ih hanswers.left
    have hlength := congrArg List.length hasked
    simp only [List.length_map] at hlength
    obtain ⟨hfailure, hnext, hturn⟩ := h.expandAt_alike habreast (hanswers.right hlength)
    simp only [reached_succ, failuresBefore_succ, askedBefore_succ, List.map_append,
      ← Option.toList_map, hfailures, hfailure, hasked, hturn, and_self, and_true]
    exact hnext

end SameNames

/-- Text that is put in is inert. Two passes over a document in which only values differ,
of variables, arguments and answers, ask the same, report the same failures and leave the
same nodes up to values; the defaults that they add are the same, and neither asks more
than what is listed. -/
theorem expand_inert (cx₁ : Context σ) (cx₂ : Context τ) (document : Document) (world₁ : σ)
    (world₂ : τ) (h : cx₁.SameNames cx₂)
    (hanswers : AnsweredAlike (cx₁.passAsked .blocking document world₁)
      (cx₂.passAsked .blocking document world₂)) :
    (cx₁.passAsked .blocking document world₁).map (·.question) =
        (cx₂.passAsked .blocking document world₂).map (·.question) ∧
      (cx₁.expand .blocking document world₁).1.failures.map (·.report) =
        (cx₂.expand .blocking document world₂).1.failures.map (·.report) ∧
      (cx₁.expand .blocking document world₁).1.document.nodes.map Node.label =
        (cx₂.expand .blocking document world₂).1.document.nodes.map Node.label ∧
      (cx₁.expand .blocking document world₁).1.document.nodes.drop document.nodes.length =
        (cx₂.expand .blocking document world₂).1.document.nodes.drop document.nodes.length ∧
      cx₁.Leads .blocking world₁ (cx₁.passAsked .blocking document world₁)
        (cx₁.expand .blocking document world₁).2 ∧
      cx₂.Leads .blocking world₂ (cx₂.passAsked .blocking document world₂)
        (cx₂.expand .blocking document world₂).2 := by
  obtain ⟨habreast, hfailures, hasked⟩ := h.reached_abreast document world₁ world₂ _ hanswers
  exact ⟨hasked, hfailures, habreast.labels, habreast.behind, cx₁.leads_expand _ _ _,
    cx₂.leads_expand _ _ _⟩

/-- The second value reads like a capture, wherever it comes from. -/
theorem expand_inert_onTable :
    let cx := fun value => onTable { unixArgs := true, bindings := [("V", value)], args := [value] }
      { name := "table", scheme := "mem", secrets := [("key", value)] }
    let document := Document.ofPairs [("A", "$(secret mem://v/key -C)"), ("B", "$A$V$1$\x7bN:=$V\x7d"),
      ("C", "$M"), ("D", "$(secret mem://v/none -C)")]
    let first := (cx "x").passAsked .blocking document {}
    let second := (cx "$(secret mem://v/none -C)").passAsked .blocking document {}
    (first.length = 2 ∧ first.map (·.question) = second.map (·.question)) ∧
      ((cx "x").expand .blocking document {}).1.failures.map (·.report) =
        ((cx "$(secret mem://v/none -C)").expand .blocking document {}).1.failures.map (·.report) := by
  intro cx document first second
  have hnames : (cx "x").SameNames (cx "$(secret mem://v/none -C)") := by
    refine ⟨rfl, ?_, rfl, fun _ => rfl, ?_⟩
    · intro name
      simp [cx, onTable, onSession]
    · simp only [cx, onTable, onSession, List.map_cons, List.map_nil, Table.toVault]
      rfl
  have hfirst : first.map (·.answer) = [.ok "x", .error (.vault (.absent "none"))] := by
    decide +kernel
  have hsecond : second.map (·.answer) =
      [.ok "$(secret mem://v/none -C)", .error (.vault (.absent "none"))] := by
    decide +kernel
  have hboth : List.Forall₂ (Alike Failure.Cause.Similar) (first.map (·.answer))
      (second.map (·.answer)) := by
    rw [hfirst, hsecond]
    exact .cons (.ok _ _) (.cons (Failure.alike_refl _) .nil)
  obtain ⟨hasked, hfailures, -⟩ := expand_inert (cx "x") (cx "$(secret mem://v/none -C)") document
    {} {} hnames (AnsweredAlike.of_forall₂ hboth)
  exact ⟨⟨by simpa using congrArg List.length hfirst, hasked⟩, hfailures⟩

end Context
end SecretDotenv.Expansion
