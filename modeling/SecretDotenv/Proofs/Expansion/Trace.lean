import SecretDotenv.Proofs.Expansion.Questions

/-! The course of a pass: the entries that are taken up, the pieces that are come to, and
what is asked. The questions are all that a pass does to the world. -/
namespace SecretDotenv.Expansion

open SecretDotenv.Secret SecretDotenv.Dotenv

/-- An entry is taken up, and `raw` is what is expanded. -/
structure Turn (σ : Type) where
  index : Nat
  raw : String
  before : Progress σ

structure Visit (σ : Type) where
  placed : Placed
  before : Progress σ

structure Asked (σ : Type) where
  question : Question
  before : σ
  answer : Except Failure.Cause String
  after : σ

def Linked {σ : Type} (s : σ) : List (Asked σ) → σ → Prop
  | [], t => s = t
  | a :: rest, t => a.before = s ∧ Linked a.after rest t

theorem Linked.append {σ : Type} {s t u : σ} {first second : List (Asked σ)}
    (h : Linked s first t) (h' : Linked t second u) : Linked s (first ++ second) u := by
  induction first generalizing s with
  | nil =>
    rw [show s = t from h]
    exact h'
  | cons a rest ih => exact ⟨h.1, ih h.2⟩

namespace Context

variable {σ : Type}

/-- The pieces that are come to, up to the first that fails. -/
def visits (cx : Context σ) (mode : Mode) : List Placed → Progress σ → List (Visit σ)
  | [], _ => []
  | placed :: rest, p =>
    { placed, before := p } ::
      match cx.expandPiece mode placed.piece p with
      | (.ok _, p) => cx.visits mode rest p
      | (.error _, _) => []

def visitsOf (cx : Context σ) (mode : Mode) (turn : Turn σ) : List (Visit σ) :=
  cx.visits mode (pieces cx.options.switches turn.raw) turn.before

def turnAt? (cx : Context σ) (mode : Mode) (index : Nat) (p : Progress σ) : Option (Turn σ) :=
  match p.document.entryAt? index with
  | none => none
  | some entry =>
    if cx.stopped mode p.world then none else some { index, raw := entry.value, before := p }

def turns (cx : Context σ) (mode : Mode) : List Nat → Progress σ → List (Turn σ)
  | [], _ => []
  | index :: rest, p =>
    (cx.turnAt? mode index p).toList ++ cx.turns mode rest (cx.expandAt mode index p).2

def askedAt? (cx : Context σ) (mode : Mode) (visit : Visit σ) : Option (Asked σ) :=
  (cx.question? mode visit.before.world visit.placed.piece).map fun question =>
    { question
      before := visit.before.world
      answer := (cx.answer mode question visit.before.world).1
      after := (cx.answer mode question visit.before.world).2 }

def asked (cx : Context σ) (mode : Mode) (placed : List Placed) (p : Progress σ) : List (Asked σ) :=
  (cx.visits mode placed p).filterMap (cx.askedAt? mode)

def visitsAt (cx : Context σ) (mode : Mode) (index : Nat) (p : Progress σ) : List (Visit σ) :=
  (cx.turnAt? mode index p).toList.flatMap (cx.visitsOf mode)

def visitsAll (cx : Context σ) (mode : Mode) (indices : List Nat) (p : Progress σ) :
    List (Visit σ) :=
  (cx.turns mode indices p).flatMap (cx.visitsOf mode)

def valueAsked (cx : Context σ) (mode : Mode) (raw : String) (p : Progress σ) : List (Asked σ) :=
  cx.asked mode (pieces cx.options.switches raw) p

def passTurns (cx : Context σ) (mode : Mode) (document : Document) (world : σ) : List (Turn σ) :=
  cx.turns mode (List.range document.nodes.length) { document, world }

def passVisits (cx : Context σ) (mode : Mode) (document : Document) (world : σ) : List (Visit σ) :=
  cx.visitsAll mode (List.range document.nodes.length) { document, world }

def passAsked (cx : Context σ) (mode : Mode) (document : Document) (world : σ) : List (Asked σ) :=
  (cx.passVisits mode document world).filterMap (cx.askedAt? mode)

/-- Questions that lead from a world to a world, each with the answer that it gets in the
world that the one before it left. -/
structure Leads (cx : Context σ) (mode : Mode) (s : σ) (asked : List (Asked σ)) (t : σ) :
    Prop where
  linked : Linked s asked t
  answered : ∀ a ∈ asked, cx.answer mode a.question a.before = (a.answer, a.after)

variable {cx : Context σ} {mode : Mode}

section Pieces

variable {p q : Progress σ} {x : Placed} {rest : List Placed}

theorem expandPieces_cons_ok {value : String} (h : cx.expandPiece mode x.piece p = (.ok value, q))
    (done : String) :
    cx.expandPieces mode done (x :: rest) p = cx.expandPieces mode (done ++ value) rest q := by
  simp [expandPieces, h]

theorem expandPieces_cons_error {cause : Failure.Cause}
    (h : cx.expandPiece mode x.piece p = (.error cause, q)) (done : String) :
    cx.expandPieces mode done (x :: rest) p = (.error { cause, position := x.position }, q) := by
  simp [expandPieces, h]

theorem visits_cons_ok {value : String} (h : cx.expandPiece mode x.piece p = (.ok value, q)) :
    cx.visits mode (x :: rest) p = { placed := x, before := p } :: cx.visits mode rest q := by
  simp [visits, h]

theorem visits_cons_error {cause : Failure.Cause}
    (h : cx.expandPiece mode x.piece p = (.error cause, q)) :
    cx.visits mode (x :: rest) p = [{ placed := x, before := p }] := by
  simp [visits, h]

theorem filterMap_cons_toList {α β : Type} (f : α → Option β) (a : α) (l : List α) :
    (a :: l).filterMap f = (f a).toList ++ l.filterMap f := by
  cases h : f a <;> simp [h]

theorem asked_cons (x : Placed) (rest : List Placed) (p : Progress σ) :
    cx.asked mode (x :: rest) p =
      (cx.askedAt? mode { placed := x, before := p }).toList ++
        match cx.expandPiece mode x.piece p with
        | (.ok _, q) => cx.asked mode rest q
        | (.error _, _) => [] := by
  rw [asked, visits, filterMap_cons_toList]
  rcases cx.expandPiece mode x.piece p with ⟨_ | _, _⟩ <;> rfl

theorem asked_cons_ok {value : String} (h : cx.expandPiece mode x.piece p = (.ok value, q)) :
    cx.asked mode (x :: rest) p =
      (cx.askedAt? mode { placed := x, before := p }).toList ++ cx.asked mode rest q := by
  rw [asked_cons, h]

theorem asked_cons_error {cause : Failure.Cause}
    (h : cx.expandPiece mode x.piece p = (.error cause, q)) :
    cx.asked mode (x :: rest) p = (cx.askedAt? mode { placed := x, before := p }).toList := by
  rw [asked_cons, h, List.append_nil]

end Pieces

@[elab_as_elim]
theorem pieces_induction (cx : Context σ) (mode : Mode)
    {motive : List Placed → Progress σ → Prop} (nil : ∀ p, motive [] p)
    (error : ∀ x rest p cause q, cx.expandPiece mode x.piece p = (.error cause, q) →
      motive (x :: rest) p)
    (ok : ∀ x rest p value q, cx.expandPiece mode x.piece p = (.ok value, q) → motive rest q →
      motive (x :: rest) p)
    (placed : List Placed) (p : Progress σ) : motive placed p := by
  induction placed generalizing p with
  | nil => exact nil p
  | cons x rest ih =>
    rcases hx : cx.expandPiece mode x.piece p with ⟨result, q⟩
    cases result with
    | error cause => exact error x rest p cause q hx
    | ok value => exact ok x rest p value q hx (ih q)

theorem expandPieces_done (cx : Context σ) (mode : Mode) (placed : List Placed) (done : String)
    (p : Progress σ) :
    cx.expandPieces mode done placed p =
      ((cx.expandPieces mode "" placed p).1.map (done ++ ·), (cx.expandPieces mode "" placed p).2) := by
  induction placed, p using pieces_induction cx mode generalizing done with
  | nil p => simp [expandPieces, Except.map]
  | error x rest p cause q hx => simp [expandPieces_cons_error hx, Except.map]
  | ok x rest p value q hx ih =>
    rw [expandPieces_cons_ok hx, expandPieces_cons_ok hx, ih (done ++ value), ih ("" ++ value)]
    cases (cx.expandPieces mode "" rest q).1 <;> simp [Except.map, String.append_assoc]

theorem expandPieces_append (cx : Context σ) (mode : Mode) (front back : List Placed)
    (done : String) (p : Progress σ) :
    cx.expandPieces mode done (front ++ back) p =
      match cx.expandPieces mode done front p with
      | (.ok out, q) => cx.expandPieces mode out back q
      | (.error failure, q) => (.error failure, q) := by
  induction front, p using pieces_induction cx mode generalizing done with
  | nil p => rfl
  | error x rest p cause q hx => simp [expandPieces_cons_error hx]
  | ok x rest p value q hx ih =>
    rw [List.cons_append, expandPieces_cons_ok hx, expandPieces_cons_ok hx, ih]

theorem visits_append (cx : Context σ) (mode : Mode) (front back : List Placed) (done : String)
    (p : Progress σ) :
    cx.visits mode (front ++ back) p =
      cx.visits mode front p ++
        match cx.expandPieces mode done front p with
        | (.ok _, q) => cx.visits mode back q
        | (.error _, _) => [] := by
  induction front, p using pieces_induction cx mode generalizing done with
  | nil p => rfl
  | error x rest p cause q hx => simp [visits_cons_error hx, expandPieces_cons_error hx]
  | ok x rest p value q hx ih =>
    rw [List.cons_append, visits_cons_ok hx, visits_cons_ok hx, expandPieces_cons_ok hx, ih,
      List.cons_append]

theorem linked_expandPiece {x : Placed} {p q : Progress σ} {result : Except Failure.Cause String}
    (hx : cx.expandPiece mode x.piece p = (result, q)) :
    Linked p.world (cx.askedAt? mode { placed := x, before := p }).toList q.world := by
  unfold askedAt?
  cases h : cx.question? mode p.world x.piece with
  | none =>
    rw [expandPiece_of_quiet h] at hx
    rw [← (Prod.mk.inj hx).2]
    exact rfl
  | some question =>
    rw [expandPiece_of_question h] at hx
    rw [← (Prod.mk.inj hx).2]
    exact ⟨rfl, rfl⟩

theorem linked_expandPieces (cx : Context σ) (mode : Mode) (placed : List Placed) (done : String)
    (p : Progress σ) :
    Linked p.world (cx.asked mode placed p) (cx.expandPieces mode done placed p).2.world := by
  induction placed, p using pieces_induction cx mode generalizing done with
  | nil p => exact rfl
  | error x rest p cause q hx =>
    rw [asked_cons_error hx, expandPieces_cons_error hx]
    exact linked_expandPiece hx
  | ok x rest p value q hx ih =>
    rw [asked_cons_ok hx, expandPieces_cons_ok hx]
    exact (linked_expandPiece hx).append (ih _)

section Entries

variable {index : Nat} {p q : Progress σ} {entry : Entry}

theorem expandAt_of_none (h : p.document.entryAt? index = none) :
    cx.expandAt mode index p = (none, p) := by
  simp [expandAt, h]

theorem visitsAt_of_none (h : p.document.entryAt? index = none) : cx.visitsAt mode index p = [] := by
  simp [visitsAt, turnAt?, h]

theorem expandEntry_eq (cx : Context σ) (mode : Mode) (raw : String) (p : Progress σ) :
    cx.expandEntry mode raw p =
      if cx.stopped mode p.world then (.error { cause := .cancelled, position := 0 }, p)
      else cx.expandValue mode raw p :=
  rfl

theorem expandAt_of_stopped (h : p.document.entryAt? index = some entry)
    (hstop : cx.stopped mode p.world = true) :
    cx.expandAt mode index p =
      (some { index, key := entry.name, failure := { cause := .cancelled, position := 0 } }, p) := by
  simp [expandAt, h, expandEntry_eq, hstop]

theorem turnAt?_of_stopped (hstop : cx.stopped mode p.world = true) :
    cx.turnAt? mode index p = none := by
  unfold turnAt?
  split
  · rfl
  · rw [if_pos hstop]

theorem visitsAt_of_stopped (hstop : cx.stopped mode p.world = true) :
    cx.visitsAt mode index p = [] := by
  simp [visitsAt, turnAt?_of_stopped hstop]

theorem expandAt_of_ok {value : String} (h : p.document.entryAt? index = some entry)
    (hgoes : cx.stopped mode p.world = false)
    (hvalue : cx.expandValue mode entry.value p = (.ok value, q)) :
    cx.expandAt mode index p =
      (none, { q with document := q.document.setValueAt index value }) := by
  simp [expandAt, h, expandEntry_eq, hgoes, hvalue]

theorem expandAt_of_error {failure : Failure} (h : p.document.entryAt? index = some entry)
    (hgoes : cx.stopped mode p.world = false)
    (hvalue : cx.expandValue mode entry.value p = (.error failure, q)) :
    cx.expandAt mode index p = (some { index, key := entry.name, failure }, q) := by
  simp [expandAt, h, expandEntry_eq, hgoes, hvalue]

theorem turnAt?_of_goes (h : p.document.entryAt? index = some entry)
    (hgoes : cx.stopped mode p.world = false) :
    cx.turnAt? mode index p = some { index, raw := entry.value, before := p } := by
  simp [turnAt?, h, hgoes]

theorem visitsAt_of_goes (h : p.document.entryAt? index = some entry)
    (hgoes : cx.stopped mode p.world = false) :
    cx.visitsAt mode index p = cx.visits mode (pieces cx.options.switches entry.value) p := by
  simp [visitsAt, turnAt?_of_goes h hgoes, visitsOf]

theorem turn_cases (cx : Context σ) (mode : Mode) (index : Nat) (p : Progress σ) :
    p.document.entryAt? index = none ∨
      ∃ entry, p.document.entryAt? index = some entry ∧
        (cx.stopped mode p.world = true ∨
          cx.stopped mode p.world = false ∧
            ((∃ value q, cx.expandValue mode entry.value p = (.ok value, q)) ∨
              ∃ failure q, cx.expandValue mode entry.value p = (.error failure, q))) := by
  cases hentry : p.document.entryAt? index with
  | none => exact .inl rfl
  | some entry =>
    refine .inr ⟨entry, rfl, ?_⟩
    cases cx.stopped mode p.world with
    | true => exact .inl rfl
    | false =>
      refine .inr ⟨rfl, ?_⟩
      rcases cx.expandValue mode entry.value p with ⟨result, q⟩
      cases result with
      | ok value => exact .inl ⟨value, q, rfl⟩
      | error failure => exact .inr ⟨failure, q, rfl⟩

end Entries

theorem visitsAll_cons (index : Nat) (rest : List Nat) (p : Progress σ) :
    cx.visitsAll mode (index :: rest) p =
      cx.visitsAt mode index p ++ cx.visitsAll mode rest (cx.expandAt mode index p).2 := by
  rw [visitsAll, turns, List.flatMap_append, visitsAll, visitsAt]

theorem expandAll_cons (index : Nat) (rest : List Nat) (p : Progress σ) :
    cx.expandAll mode (index :: rest) p =
      ((cx.expandAt mode index p).1.toList ++
          (cx.expandAll mode rest (cx.expandAt mode index p).2).1,
        (cx.expandAll mode rest (cx.expandAt mode index p).2).2) :=
  rfl

theorem linked_expandAt (cx : Context σ) (mode : Mode) (index : Nat) (p : Progress σ) :
    Linked p.world ((cx.visitsAt mode index p).filterMap (cx.askedAt? mode))
      (cx.expandAt mode index p).2.world := by
  rcases cx.turn_cases mode index p with
    hentry | ⟨entry, hentry, hstop | ⟨hgoes, ⟨value, q, hvalue⟩ | ⟨failure, q, hvalue⟩⟩⟩
  · rw [visitsAt_of_none hentry, expandAt_of_none hentry]
    exact rfl
  · rw [visitsAt_of_stopped hstop, expandAt_of_stopped hentry hstop]
    exact rfl
  · rw [visitsAt_of_goes hentry hgoes, expandAt_of_ok hentry hgoes hvalue]
    have hpieces := linked_expandPieces cx mode (pieces cx.options.switches entry.value) "" p
    rwa [← expandValue, hvalue] at hpieces
  · rw [visitsAt_of_goes hentry hgoes, expandAt_of_error hentry hgoes hvalue]
    have hpieces := linked_expandPieces cx mode (pieces cx.options.switches entry.value) "" p
    rwa [← expandValue, hvalue] at hpieces

theorem linked_expandAll (cx : Context σ) (mode : Mode) (indices : List Nat) (p : Progress σ) :
    Linked p.world ((cx.visitsAll mode indices p).filterMap (cx.askedAt? mode))
      (cx.expandAll mode indices p).2.world := by
  induction indices generalizing p with
  | nil => exact rfl
  | cons index rest ih =>
    rw [visitsAll_cons, List.filterMap_append, expandAll_cons]
    exact (cx.linked_expandAt mode index p).append (ih _)

theorem answer_of_askedAt? {visit : Visit σ} {a : Asked σ} (h : cx.askedAt? mode visit = some a) :
    cx.answer mode a.question a.before = (a.answer, a.after) := by
  obtain ⟨question, -, rfl⟩ := Option.map_eq_some_iff.1 h
  rfl

/-- The questions of a pass are all that happens to the world. -/
theorem leads_expand (cx : Context σ) (mode : Mode) (document : Document) (world : σ) :
    cx.Leads mode world (cx.passAsked mode document world) (cx.expand mode document world).2 := by
  refine ⟨linked_expandAll cx mode _ { document, world }, ?_⟩
  intro a ha
  obtain ⟨visit, -, hvisit⟩ := List.mem_filterMap.1 ha
  exact answer_of_askedAt? hvisit

end Context
end SecretDotenv.Expansion
