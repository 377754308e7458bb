import SecretDotenv.Config.Basic
import SecretDotenv.Proofs.Expansion.Pieces
import SecretDotenv.Proofs.Expansion.Trace

/-! A value in two parts. If the first part can be expanded, the whole is the first part,
a blank, and the second part as it is expanded behind the first. -/
namespace SecretDotenv.Expansion

open SecretDotenv.Secret SecretDotenv.Dotenv

def Failure.shift (n : Nat) (failure : Failure) : Failure :=
  { failure with position := failure.position + n }

def Visit.shift {σ : Type} (n : Nat) (visit : Visit σ) : Visit σ :=
  { visit with placed := visit.placed.shift n }

theorem piecesFrom_toList (switches : Switches) (n : Nat) (raw : String) :
    piecesFrom switches n raw.toList = (pieces switches raw).map (Placed.shift n) := by
  rw [pieces, ← piecesFrom_add, Nat.zero_add]

namespace Context

variable {σ : Type} {cx : Context σ} {mode : Mode}

theorem expandPieces_shift (cx : Context σ) (mode : Mode) (n : Nat) (placed : List Placed)
    (done : String) (p : Progress σ) :
    cx.expandPieces mode done (placed.map (Placed.shift n)) p =
      ((cx.expandPieces mode done placed p).1.mapError (Failure.shift n),
        (cx.expandPieces mode done placed p).2) := by
  induction placed, p using pieces_induction cx mode generalizing done with
  | nil p => rfl
  | error x rest p cause q hx =>
    have hshifted : cx.expandPiece mode (x.shift n).piece p = (.error cause, q) := hx
    rw [List.map_cons, expandPieces_cons_error hshifted, expandPieces_cons_error hx]
    rfl
  | ok x rest p value q hx ih =>
    have hshifted : cx.expandPiece mode (x.shift n).piece p = (.ok value, q) := hx
    rw [List.map_cons, expandPieces_cons_ok hshifted, expandPieces_cons_ok hx, ih]

theorem visits_shift (cx : Context σ) (mode : Mode) (n : Nat) (placed : List Placed)
    (p : Progress σ) :
    cx.visits mode (placed.map (Placed.shift n)) p = (cx.visits mode placed p).map (Visit.shift n) := by
  induction placed, p using pieces_induction cx mode with
  | nil p => rfl
  | error x rest p cause q hx =>
    have hshifted : cx.expandPiece mode (x.shift n).piece p = (.error cause, q) := hx
    rw [List.map_cons, visits_cons_error hshifted, visits_cons_error hx]
    rfl
  | ok x rest p value q hx ih =>
    have hshifted : cx.expandPiece mode (x.shift n).piece p = (.ok value, q) := hx
    rw [List.map_cons, visits_cons_ok hshifted, visits_cons_ok hx, ih]
    rfl

theorem expandPieces_open (cx : Context σ) (mode : Mode) (front back : List Placed) {x : Placed}
    (hx : x.piece.IsOpen) (done : String) (p : Progress σ) :
    ∃ failure q, cx.expandPieces mode done (front ++ x :: back) p = (.error failure, q) ∧
      (failure.kind ≠ .unterminatedCapture →
        cx.expandPieces mode done front p = (.error failure, q)) := by
  rw [expandPieces_append]
  rcases hfront : cx.expandPieces mode done front p with ⟨result, q⟩
  cases result with
  | error failure => exact ⟨failure, q, rfl, fun _ => rfl⟩
  | ok out =>
    obtain ⟨position, piece⟩ := x
    match piece, hx with
    | .fault (.unterminated close opened), _ =>
      exact ⟨_, q, rfl, fun hkind => absurd rfl hkind⟩

theorem not_isOpen_of_ok {a x : String} {p q : Progress σ} (h : cx.expandValue mode a p = (.ok x, q)) :
    ∀ y ∈ pieces cx.options.switches a, ¬ y.piece.IsOpen := by
  intro y hy hopen
  obtain ⟨front, back, ha⟩ := List.append_of_mem hy
  obtain ⟨failure, r, hfails, -⟩ := cx.expandPieces_open mode front back hopen "" p
  rw [expandValue, ha, hfails] at h
  cases h

section Between

variable {whole a b text x : String} {k n : Nat} {p q : Progress σ}

/-- If text stands between the pieces of two parts, the second is expanded behind the first. -/
theorem expandValue_between
    (hpieces : pieces cx.options.switches whole = pieces cx.options.switches a ++
      { position := k, piece := .text text } :: (pieces cx.options.switches b).map (Placed.shift n))
    (h : cx.expandValue mode a p = (.ok x, q)) :
    cx.expandValue mode whole p =
      (((cx.expandValue mode b q).1.mapError (Failure.shift n)).map (x ++ text ++ ·),
        (cx.expandValue mode b q).2) := by
  have htext : cx.expandPiece mode (.text text) q = (.ok text, q) := rfl
  unfold expandValue at h
  rw [expandValue, hpieces, expandPieces_append, h]
  dsimp only
  rw [expandPieces_cons_ok htext, expandPieces_done, expandPieces_shift]
  rfl

theorem filterMap_visits_between {β : Type} (f : Visit σ → Option β)
    (hshift : ∀ n visit, f (visit.shift n) = f visit)
    (htext : ∀ k text p, f { placed := { position := k, piece := .text text }, before := p } = none)
    (hpieces : pieces cx.options.switches whole = pieces cx.options.switches a ++
      { position := k, piece := .text text } :: (pieces cx.options.switches b).map (Placed.shift n))
    (h : cx.expandValue mode a p = (.ok x, q)) :
    (cx.visits mode (pieces cx.options.switches whole) p).filterMap f =
      (cx.visits mode (pieces cx.options.switches a) p).filterMap f ++
        (cx.visits mode (pieces cx.options.switches b) q).filterMap f := by
  have hpiece : cx.expandPiece mode (.text text) q = (.ok text, q) := rfl
  have hsame : f ∘ Visit.shift n = f := funext (hshift n)
  unfold expandValue at h
  rw [hpieces, visits_append _ _ _ _ "", h, List.filterMap_append]
  dsimp only
  rw [visits_cons_ok hpiece, filterMap_cons_toList, htext, visits_shift, List.filterMap_map, hsame]
  rfl

end Between

theorem askedAt?_text (cx : Context σ) (mode : Mode) (k : Nat) (text : String) (p : Progress σ) :
    cx.askedAt? mode { placed := { position := k, piece := .text text }, before := p } = none := by
  simp [askedAt?, question?, asks]

theorem toList_join (a b : String) : (a ++ " " ++ b).toList = a.toList ++ ' ' :: b.toList := by
  simp

theorem pieces_join (switches : Switches) (a b : String) :
    pieces switches (a ++ " " ++ b) =
        pieces switches a ++ { position := a.length, piece := .text " " } ::
          (pieces switches b).map (Placed.shift (a.length + 1)) ∨
      ∃ front x back more, x.piece.IsOpen ∧ pieces switches a = front ++ x :: back ∧
        pieces switches (a ++ " " ++ b) = front ++ more := by
  rcases piecesFrom_append_blank switches 0 a.toList b.toList with hwhole | hopen
  · left
    rw [← piecesFrom_toList, pieces, pieces, toList_join, hwhole, Nat.zero_add, String.length_toList]
  · right
    unfold pieces
    rwa [toList_join]

theorem pieces_join_of_ok {a x : String} (b : String) {p q : Progress σ}
    (h : cx.expandValue mode a p = (.ok x, q)) :
    pieces cx.options.switches (a ++ " " ++ b) =
      pieces cx.options.switches a ++ { position := a.length, piece := .text " " } ::
        (pieces cx.options.switches b).map (Placed.shift (a.length + 1)) := by
  rcases pieces_join cx.options.switches a b with hwhole | ⟨front, y, back, more, hy, ha, -⟩
  · exact hwhole
  · exact absurd hy (not_isOpen_of_ok h y (by simp [ha]))

theorem expandValue_join_ok {a x : String} (b : String) {p q : Progress σ}
    (h : cx.expandValue mode a p = (.ok x, q)) :
    cx.expandValue mode (a ++ " " ++ b) p =
      (((cx.expandValue mode b q).1.mapError (Failure.shift (a.length + 1))).map (x ++ " " ++ ·),
        (cx.expandValue mode b q).2) :=
  expandValue_between (pieces_join_of_ok b h) h

theorem valueAsked_join {a x : String} (b : String) {p q : Progress σ}
    (h : cx.expandValue mode a p = (.ok x, q)) :
    cx.valueAsked mode (a ++ " " ++ b) p = cx.valueAsked mode a p ++ cx.valueAsked mode b q :=
  filterMap_visits_between (cx.askedAt? mode) (fun _ _ => rfl) (cx.askedAt?_text mode)
    (pieces_join_of_ok b h) h

theorem expandValue_join_error {a : String} (b : String) {failure : Failure} {p q : Progress σ}
    (h : cx.expandValue mode a p = (.error failure, q)) (hkind : failure.kind ≠ .unterminatedCapture) :
    cx.expandValue mode (a ++ " " ++ b) p = (.error failure, q) := by
  unfold expandValue at h ⊢
  rcases pieces_join cx.options.switches a b with hwhole | ⟨front, y, back, more, hy, ha, hwhole⟩
  · rw [hwhole, expandPieces_append, h]
  · obtain ⟨first, r, hfails, hfront⟩ := cx.expandPieces_open mode front back hy "" p
    rw [ha, hfails] at h
    obtain ⟨hfirst, rfl⟩ := Prod.mk.inj h
    obtain rfl := Except.error.inj hfirst
    rw [hwhole, expandPieces_append, hfront hkind]

/-- A value of two parts expands to the first part as it expands, a blank, and the second
as it expands behind the first, and asks what they ask. A failure of the second is further
on by the length of the first; a failure of the first that does not hang on what follows
is that of the whole. -/
theorem expandValue_join (cx : Context σ) (mode : Mode) (a b : String) (p : Progress σ) :
    (∀ x q, cx.expandValue mode a p = (.ok x, q) →
      (∀ z, (cx.expandValue mode (a ++ " " ++ b) p).1 = .ok z ↔
        ∃ y, (cx.expandValue mode b q).1 = .ok y ∧ z = x ++ " " ++ y) ∧
      (∀ failure, (cx.expandValue mode b q).1 = .error failure →
        (cx.expandValue mode (a ++ " " ++ b) p).1 =
          .error { failure with position := failure.position + (a.length + 1) }) ∧
      (cx.expandValue mode (a ++ " " ++ b) p).2 = (cx.expandValue mode b q).2 ∧
      cx.valueAsked mode (a ++ " " ++ b) p = cx.valueAsked mode a p ++ cx.valueAsked mode b q) ∧
    ∀ failure q, cx.expandValue mode a p = (.error failure, q) →
      failure.kind ≠ .unterminatedCapture →
        cx.expandValue mode (a ++ " " ++ b) p = (.error failure, q) := by
  refine ⟨?_, fun failure q h hkind => expandValue_join_error b h hkind⟩
  intro x q h
  rw [expandValue_join_ok b h]
  refine ⟨?_, ?_, rfl, valueAsked_join b h⟩
  · intro z
    cases (cx.expandValue mode b q).1 with
    | error failure => simp [Except.mapError, Except.map]
    | ok y => simp [Except.mapError, Except.map, eq_comm]
  · intro failure hfailure
    rw [hfailure]
    rfl

instance exceptDecidableEq {ε α : Type} [DecidableEq ε] [DecidableEq α] : DecidableEq (Except ε α)
  | .error a, .error b => decidable_of_iff (a = b) (by simp)
  | .ok a, .ok b => decidable_of_iff (a = b) (by simp)
  | .error _, .ok _ => isFalse (by simp)
  | .ok _, .error _ => isFalse (by simp)

def onTable (options : Options) (table : Table) : Context Session :=
  .onSession { options with secrets := true } [table.toVault] (fun _ _ => none) []

/-- A secret and a default, and behind them a name that is set by the default, or one that
is not set; in the last value it is the first part that fails. -/
theorem expandValue_join_onTable :
    let cx := onTable {} { name := "table", scheme := "mem", secrets := [("key", "x")] }
    let p : Progress Session := { document := {}, world := {} }
    (cx.expandValue .blocking ("$(secret mem://v/key -C)$\x7bN:=d\x7d" ++ " " ++ "$N") p).1 =
        .ok "xd d" ∧
      (cx.expandValue .blocking ("$(secret mem://v/key -C)$\x7bN:=d\x7d" ++ " " ++ "$M") p).1 =
        .error { cause := .unset "M", position := 32 } ∧
      (cx.expandValue .blocking ("$M" ++ " " ++ "$N") p).1 =
        .error { cause := .unset "M", position := 0 } := by
  intro cx p
  have hfirst : (cx.expandValue .blocking "$(secret mem://v/key -C)$\x7bN:=d\x7d" p).1 = .ok "xd" := by
    decide +kernel
  have hunset : (cx.expandValue .blocking "$M" p).1 = .error { cause := .unset "M", position := 0 } := by
    decide +kernel
  refine ⟨?_, ?_, ?_⟩
  · exact (((expandValue_join cx .blocking _ "$N" p).1 _ _ (Prod.ext hfirst rfl)).1 _).2
      ⟨"d", by decide +kernel, by decide +kernel⟩
  · exact ((expandValue_join cx .blocking _ "$M" p).1 _ _ (Prod.ext hfirst rfl)).2.1
      { cause := .unset "M", position := 0 } (by decide +kernel)
  · exact congrArg Prod.fst ((expandValue_join cx .blocking "$M" "$N" p).2 _ _
      (Prod.ext hunset rfl) (by decide))

end Context
end SecretDotenv.Expansion
