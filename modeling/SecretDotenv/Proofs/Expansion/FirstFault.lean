import SecretDotenv.Proofs.Expansion.Frame
import SecretDotenv.Proofs.Expansion.Joined

/-! Where expansion fails. A failure stands at the first character of a construct, a dollar or
a percent sign; what is in front of it expands by itself and does all that the whole has done. -/
namespace SecretDotenv.Expansion

open SecretDotenv.Text SecretDotenv.Secret SecretDotenv.Dotenv

/-- The characters with which a construct begins that can fail. -/
def Switches.opens (switches : Switches) (c : Char) : Bool :=
  c = '$' || (c = '%' && switches.percents)

theorem Switches.opens_iff {switches : Switches} {c : Char} :
    switches.opens c ↔ c = '$' ∨ c = '%' ∧ switches.percents := by
  simp [opens]

theorem length_of_cut_append {mark : Char} {s more before after : List Char}
    (hnone : cut mark s = none) (h : cut mark (s ++ more) = some (before, after)) :
    after.length < more.length := by
  induction s generalizing before with
  | nil => exact Piece.length_of_cut h
  | cons c rest ih =>
    simp only [cut, List.cons_append] at hnone h
    split at h
    · next hc => simp [hc] at hnone
    · next hc =>
      obtain ⟨⟨front, back⟩, hfound, h⟩ := Option.map_eq_some_iff.1 h
      obtain ⟨rfl, rfl⟩ := Prod.mk.inj h
      exact ih (by simpa [hc] using hnone) hfound

namespace Piece

theorem isStop_of_opens {switches : Switches} {x : Char} (h : switches.opens x) : IsStop x := by
  rcases Switches.opens_iff.1 h with rfl | ⟨rfl, -⟩ <;> exact ⟨by decide, by decide⟩

theorem opens_of_read {switches : Switches} {c : Char} {rest : List Char}
    (h : ∀ text, (read switches c rest).1 ≠ .text text) : switches.opens c := by
  rw [Switches.opens_iff]
  unfold read at h
  split at h
  · exact absurd rfl (h _)
  · split at h
    · next hon => exact Or.inr ⟨rfl, hon⟩
    · exact absurd rfl (h _)
  · exact Or.inl rfl
  · exact Or.inl rfl
  · exact absurd rfl (h _)

theorem not_isOpen_ofBraces (body : List Char) : ¬ (ofBraces body).IsOpen := by
  unfold ofBraces
  dsimp only
  split_ifs <;> exact id

theorem not_isOpen_ofCapture (script : List Char) : ¬ (ofCapture script).IsOpen := by
  unfold ofCapture
  split_ifs <;> exact id

section Open

variable {switches : Switches} {c x : Char} {s t more : List Char}

theorem length_ofPercent_append (h : (ofPercent s).1.IsOpen) :
    (ofPercent (s ++ x :: more)).2.length ≤ more.length := by
  unfold ofPercent at h
  split at h
  · exact h.elim
  · next hdouble =>
    split at h
    · exact h.elim
    · next hnone =>
      unfold ofPercent
      split
      · next heq =>
        cases s with
        | nil =>
          obtain ⟨-, rfl⟩ := List.cons.inj heq
          exact Nat.le_refl _
        | cons n s =>
          obtain ⟨rfl, -⟩ := List.cons.inj heq
          exact (hdouble s rfl).elim
      · split
        · next hcut => exact Nat.le_of_lt_succ (length_of_cut_append hnone hcut)
        · exact Nat.zero_le _

theorem length_read_append (h : (read switches c s).1.IsOpen) :
    (read switches c (s ++ x :: more)).2.length ≤ more.length := by
  unfold read at h
  split at h
  · exact h.elim
  · split at h
    · next hon =>
      simp only [read, hon, if_true]
      exact length_ofPercent_append h
    · exact h.elim
  · split at h
    · exact (not_isOpen_ofBraces _ h).elim
    · next hnone =>
      simp only [read, List.cons_append]
      split
      · next hcut => exact Nat.le_of_lt_succ (length_of_cut_append hnone hcut)
      · exact Nat.zero_le _
  · split at h
    · next hcapture =>
      split at h
      · exact (not_isOpen_ofCapture _ h).elim
      · next hnone =>
        simp only [read, List.cons_append, if_pos hcapture]
        split
        · next hcut => exact Nat.le_of_lt_succ (length_of_cut_append hnone hcut)
        · exact Nat.zero_le _
    · split_ifs at h <;> exact h.elim
  · exact h.elim

theorem read_of_append (hx : switches.opens x)
    (h : (read switches c (s ++ x :: more)).2 = t ++ x :: more) :
    read switches c s = ((read switches c (s ++ x :: more)).1, t) := by
  have hshort : ¬ (read switches c (s ++ x :: more)).2.length ≤ more.length := by
    rw [h, List.length_append, List.length_cons]
    omega
  have hclosed : ¬ (read switches c s).1.IsOpen := fun hopen => hshort (length_read_append hopen)
  have hescape : c = '\\' → s = [] → x ≠ '$' := by
    rintro rfl rfl rfl
    exact hshort (Nat.le_refl _)
  rw [read_append more (isStop_of_opens hx) hescape hclosed] at h ⊢
  exact Prod.ext rfl (List.append_cancel_right h)

end Open
end Piece

theorem piecesFrom_front {switches : Switches} {k : Nat} {raw : List Char} {front back : List Placed}
    {x : Placed} (h : piecesFrom switches k raw = front ++ x :: back)
    (hx : ∀ text, x.piece ≠ .text text) :
    ∃ before c after, raw = before ++ c :: after ∧ switches.opens c ∧
      x.position = k + before.length ∧ piecesFrom switches k before = front := by
  fun_induction piecesFrom switches k raw generalizing front with
  | case1 k => simp at h
  | case2 k c rest found =>
    rename_i ih
    cases front with
    | nil =>
      obtain ⟨rfl, -⟩ := List.cons.inj h
      exact ⟨[], c, rest, rfl, Piece.opens_of_read hx, rfl, piecesFrom_nil _ _⟩
    | cons first front =>
      obtain ⟨rfl, htail⟩ := List.cons.inj h
      obtain ⟨left, d, after, hleft, hopens, hposition, hpieces⟩ := ih htail
      obtain ⟨taken, htaken⟩ := Piece.read_suffix switches c rest
      have hrest : rest = (taken ++ left) ++ d :: after := by
        rw [List.append_assoc, ← hleft, htaken]
      have hread : Piece.read switches c (taken ++ left) = (found.1, left) := by
        subst hrest
        exact Piece.read_of_append hopens hleft
      have hsame : rest.length - found.2.length = (taken ++ left).length - left.length := by
        rw [hrest, hleft]
        simp only [List.length_append, List.length_cons]
        omega
      refine ⟨c :: (taken ++ left), d, after, ?_, hopens, ?_, ?_⟩
      · rw [hrest, List.cons_append]
      · rw [hposition, hsame]
        simp only [List.length_append, List.length_cons]
        omega
      · rw [piecesFrom_cons, hread, ← hpieces, hsame]

namespace Context

variable {σ : Type} {cx : Context σ} {mode : Mode}

section Piece

variable {piece : Piece} {p q : Progress σ} {cause : Failure.Cause}

theorem ne_text_of_error (h : cx.expandPiece mode piece p = (.error cause, q)) (text : String) :
    piece ≠ .text text := by
  rintro rfl
  cases h

theorem grown_of_error {document : Document} (h : cx.quietValue document piece = .error cause) :
    cx.grown document piece = document := by
  unfold grown
  cases hassigned : cx.assigned? document piece with
  | none => rfl
  | some default =>
    -- A default that is assigned is the value.
    obtain ⟨name, value⟩ := default
    obtain ⟨rfl, hunset⟩ := assigned?_eq_some hassigned
    simp [quietValue, hunset, valueOtherwise] at h

theorem document_of_error (h : cx.expandPiece mode piece p = (.error cause, q)) :
    q.document = p.document := by
  cases hquestion : cx.question? mode p.world piece with
  | none =>
    rw [expandPiece_of_quiet hquestion] at h
    obtain ⟨hvalue, rfl⟩ := Prod.mk.inj h
    exact grown_of_error hvalue
  | some question =>
    rw [expandPiece_of_question hquestion] at h
    rw [← (Prod.mk.inj h).2]

theorem answer_of_error {x : Placed} (h : cx.expandPiece mode x.piece p = (.error cause, q))
    {a : Asked σ} (ha : cx.askedAt? mode { placed := x, before := p } = some a) :
    a.answer = .error cause := by
  obtain ⟨question, hquestion, rfl⟩ := Option.map_eq_some_iff.1 ha
  rw [expandPiece_of_question hquestion] at h
  exact (Prod.mk.inj h).1

end Piece

theorem expandPieces_error {placed : List Placed} {done : String} {p q : Progress σ}
    {failure : Failure} (h : cx.expandPieces mode done placed p = (.error failure, q)) :
    ∃ front x back out r, placed = front ++ x :: back ∧
      cx.expandPieces mode done front p = (.ok out, r) ∧
      cx.expandPiece mode x.piece r = (.error failure.cause, q) ∧ failure.position = x.position := by
  induction placed, p using pieces_induction cx mode generalizing done with
  | nil p => cases h
  | error x rest p cause q hx =>
    rw [expandPieces_cons_error hx] at h
    obtain ⟨hfailure, rfl⟩ := Prod.mk.inj h
    obtain rfl := Except.error.inj hfailure
    exact ⟨[], x, rest, done, p, rfl, rfl, hx, rfl⟩
  | ok x rest p value q hx ih =>
    rw [expandPieces_cons_ok hx] at h
    obtain ⟨front, y, back, out, r, rfl, hfront, hy, hposition⟩ := ih h
    exact ⟨x :: front, y, back, out, r, rfl, by rw [expandPieces_cons_ok hx, hfront], hy, hposition⟩

/-- A value that cannot be expanded fails at a dollar, or at a percent sign where these
begin references. What stands in front of that place can be expanded: it leaves the document
that the whole leaves, and asks all that the whole asks but the question, if there is one,
whose answer is the failure. -/
theorem expandValue_first_fault {raw : String} {p q : Progress σ} {failure : Failure}
    (h : cx.expandValue mode raw p = (.error failure, q)) :
    failure.position < raw.length ∧
      (raw.toList[failure.position]? = some '$' ∨
        raw.toList[failure.position]? = some '%' ∧ cx.options.windowsVariables = true) ∧
      ∃ front out r, front = String.ofList (raw.toList.take failure.position) ∧
        cx.expandValue mode front p = (.ok out, r) ∧ r.document = q.document ∧
        ∃ last : Option (Asked σ),
          cx.valueAsked mode raw p = cx.valueAsked mode front p ++ last.toList ∧
          Linked r.world last.toList q.world ∧ ∀ a ∈ last, a.answer = .error failure.cause := by
  obtain ⟨front, x, back, out, r, hpieces, hfront, hx, hposition⟩ := expandPieces_error h
  obtain ⟨before, c, after, hraw, hopens, hplace, hbefore⟩ :=
    piecesFrom_front hpieces (ne_text_of_error hx)
  obtain hlength : failure.position = before.length := by rw [hposition, hplace, Nat.zero_add]
  have htake : pieces cx.options.switches (String.ofList (raw.toList.take failure.position)) =
      front := by
    rw [pieces, String.toList_ofList, hraw, hlength, List.take_left, hbefore]
  have hchar : raw.toList[failure.position]? = some c := by
    rw [hraw, hlength, List.getElem?_append_right (Nat.le_refl _), Nat.sub_self]
    rfl
  refine ⟨?_, ?_, _, out, r, rfl, ?_, (document_of_error hx).symm,
    cx.askedAt? mode { placed := x, before := r }, ?_, linked_expandPiece hx,
    fun a => answer_of_error hx⟩
  · rw [← String.length_toList, hraw, hlength, List.length_append, List.length_cons]
    omega
  · rw [hchar]
    rcases Switches.opens_iff.1 hopens with rfl | ⟨rfl, hpercents⟩
    · exact Or.inl rfl
    · exact Or.inr ⟨rfl, hpercents⟩
  · rw [expandValue, htake, hfront]
  · rw [valueAsked, valueAsked, htake, hpieces, asked, visits_append _ _ _ _ "", hfront,
      List.filterMap_append]
    exact congrArg _ (asked_cons_error hx)

theorem expandValue_first_fault_onTable :
    let cx := onTable {} { name := "table", scheme := "mem", secrets := [("key", "x")] }
    let p : Progress Session := { document := {}, world := {} }
    let raw := "$(secret mem://v/key -C)$\x7bN:=d\x7d\\$(A)$N\\$(secret mem://v/none -C)$N"
    let q := (cx.expandValue .blocking raw p).2
    (cx.expandValue .blocking raw p).1 =
        .error { cause := .vault (.absent "none"), position := 39 } ∧
      39 < raw.length ∧
      ∃ front out r, front = String.ofList (raw.toList.take 39) ∧
        cx.expandValue .blocking front p = (.ok out, r) ∧ r.document = q.document ∧
        ∃ last : Option (Asked Session),
          cx.valueAsked .blocking raw p = cx.valueAsked .blocking front p ++ last.toList ∧
          Linked r.world last.toList q.world ∧
          ∀ a ∈ last, a.answer = .error (.vault (.absent "none")) := by
  intro cx p raw q
  have hfails : (cx.expandValue .blocking raw p).1 =
      .error { cause := .vault (.absent "none"), position := 39 } := by
    decide +kernel
  obtain ⟨hlength, -, hfront⟩ := expandValue_first_fault (Prod.ext hfails (Eq.refl q))
  exact ⟨hfails, hlength, hfront⟩

end Context
end SecretDotenv.Expansion
