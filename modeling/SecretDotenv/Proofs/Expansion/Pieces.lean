import Mathlib.Tactic.SplitIfs
import SecretDotenv.Expansion.Template
import SecretDotenv.Proofs.Text.Pieces

/-! Where pieces come from. A blank ends every piece that is not left open, so a value is
read in two parts around it; and an assigned default stands in the value as it is written. -/
namespace SecretDotenv.Expansion

open SecretDotenv.Text

namespace Piece

/-- A piece whose closing mark is missing. It takes all that follows. -/
def IsOpen : Piece → Prop
  | .fault (.unterminated _ _) => True
  | _ => False

theorem takeWhile_append_stop {p : Char → Bool} {stop : Char} (hp : p stop = false)
    (s more : List Char) : (s ++ stop :: more).takeWhile p = s.takeWhile p := by
  induction s with
  | nil => simp [hp]
  | cons c rest ih => simp [List.takeWhile_cons, ih]

theorem dropWhile_append_stop {p : Char → Bool} {stop : Char} (hp : p stop = false)
    (s more : List Char) : (s ++ stop :: more).dropWhile p = s.dropWhile p ++ stop :: more := by
  induction s with
  | nil => simp [hp]
  | cons c rest ih =>
    by_cases hc : p c = true
    · simp [hc, ih]
    · simp [hc]

theorem dropMark_append_stop {stop : Char} (hstop : stop ≠ '\\') (s more : List Char) :
    dropMark (s ++ stop :: more) = dropMark s ++ stop :: more := by
  unfold dropMark
  match s with
  | [] => simp [hstop]
  | c :: rest =>
    by_cases hc : c = '\\'
    · subst hc
      rfl
    · simp [hc]

theorem ofPercent_append {rest : List Char} (more : List Char) (h : ¬ (ofPercent rest).1.IsOpen) :
    ofPercent (rest ++ more) = ((ofPercent rest).1, (ofPercent rest).2 ++ more) := by
  match rest with
  | [] => simp [ofPercent, cut, IsOpen] at h
  | c :: rest =>
    by_cases hc : c = '%'
    · subst hc
      rfl
    · cases hcut : cut '%' (c :: rest) with
      | none => simp [ofPercent, hc, hcut, IsOpen] at h
      | some parts =>
        have hmore := cut_append more hcut
        rw [List.cons_append] at hmore
        simp [ofPercent, hc, hcut, hmore]

/-- A character that no piece goes on with. -/
structure IsStop (stop : Char) : Prop where
  namePart : isNamePart stop = false
  other : stop ∉ ['\\', '\x7b', '(']

theorem isStop_blank : IsStop ' ' where
  namePart := by decide
  other := by decide

theorem IsStop.alphanum {stop : Char} (h : IsStop stop) : stop.isAlphanum = false := by
  have hpart := h.namePart
  simp only [isNamePart, Bool.or_eq_false_iff] at hpart
  exact hpart.1

theorem IsStop.nameStart {stop : Char} (h : IsStop stop) : isNameStart stop = false :=
  (Bool.or_eq_false_iff.1 h.alphanum).1

theorem IsStop.digit {stop : Char} (h : IsStop stop) : stop.isDigit = false :=
  (Bool.or_eq_false_iff.1 h.alphanum).2

/-- What begins with a stop does not change how a piece before it is read; but a backslash
in front of a dollar is one piece with it. -/
theorem read_append {switches : Switches} {c stop : Char} {rest : List Char} (more : List Char)
    (hstop : IsStop stop) (hescape : c = '\\' → rest = [] → stop ≠ '$')
    (h : ¬ (read switches c rest).1.IsOpen) :
    read switches c (rest ++ stop :: more) =
      ((read switches c rest).1, (read switches c rest).2 ++ stop :: more) := by
  have hother : stop ≠ '\\' ∧ stop ≠ '\x7b' ∧ stop ≠ '(' := by simpa using hstop.other
  -- One case for each character that can begin more than itself.
  by_cases hmark : c = '\\'
  · subst hmark
    match rest with
    | [] => simp [read, hescape]
    | n :: rest =>
      by_cases hn : n = '$'
      · subst hn
        rfl
      · simp [read, hn]
  by_cases hpercent : c = '%'
  · subst hpercent
    by_cases hon : switches.percents = true
    · simp only [read, hon, if_true] at h ⊢
      exact ofPercent_append _ h
    · simp [read, hon]
  by_cases hdollar : c = '$'
  · subst hdollar
    match rest with
    | [] => simp [read, hother, hstop.nameStart, hstop.digit]
    | n :: rest =>
      by_cases hbrace : n = '\x7b'
      · subst hbrace
        cases hcut : cut '\x7d' rest with
        | none => simp [read, hcut, IsOpen] at h
        | some parts => simp [read, hcut, cut_append _ hcut]
      · simp only [read, List.cons_append] at h ⊢
        split
        · next hcapture =>
          cases hcut : cut ')' rest with
          | none => simp [hcapture, hcut, IsOpen] at h
          | some parts => simp [cut_append _ hcut]
        · split
          · simp [takeWhile_append_stop hstop.namePart, dropWhile_append_stop hstop.namePart,
              dropMark_append_stop hother.1]
          · split
            · simp [takeWhile_append_stop hstop.digit, dropWhile_append_stop hstop.digit,
                dropMark_append_stop hother.1]
            · simp
  · simp [read, hmark, hdollar]

theorem suffix_of_cut {mark : Char} {s before after : List Char}
    (h : cut mark s = some (before, after)) : after <:+ s := by
  rw [eq_append_of_cut h, ← List.singleton_append, ← List.append_assoc]
  exact List.suffix_append _ _

theorem dropMark_suffix (s : List Char) : dropMark s <:+ s := by
  unfold dropMark
  split
  · exact List.suffix_cons _ _
  · exact List.suffix_rfl

theorem ofPercent_suffix (rest : List Char) : (ofPercent rest).2 <:+ rest := by
  unfold ofPercent
  split
  · exact List.suffix_cons _ _
  · split
    · exact suffix_of_cut ‹_›
    · exact List.nil_suffix

theorem read_suffix (switches : Switches) (c : Char) (rest : List Char) :
    (read switches c rest).2 <:+ rest := by
  unfold read
  split
  · exact List.suffix_cons _ _
  · split
    · exact ofPercent_suffix _
    · exact List.suffix_rfl
  · split
    · exact (suffix_of_cut ‹_›).trans (List.suffix_cons _ _)
    · exact List.nil_suffix
  · rename_i n rest _
    have hnames := (dropMark_suffix _).trans (List.dropWhile_suffix (l := rest) isNamePart)
    have hdigits := (dropMark_suffix _).trans (List.dropWhile_suffix (l := rest) Char.isDigit)
    split
    · split
      · exact (suffix_of_cut ‹_›).trans (List.suffix_cons _ _)
      · exact List.nil_suffix
    · split
      · exact hnames.trans (List.suffix_cons _ _)
      · split
        · exact hdigits.trans (List.suffix_cons _ _)
        · exact List.suffix_rfl
  · exact List.suffix_rfl

def assignment (name value : String) : String :=
  "$\x7b" ++ name ++ ":=" ++ value ++ "\x7d"

theorem otherwiseOf_assign {rest : List Char} {value : String}
    (h : otherwiseOf rest = .assign value) : rest = '=' :: value.toList := by
  unfold otherwiseOf at h
  split at h
  · simp at h
  · rw [← Otherwise.assign.inj h, String.toList_ofList]
  · simp at h
  · simp at h

theorem ofBraces_assign {body : List Char} {name value : String}
    (h : ofBraces body = .reference name (.assign value)) :
    isName name.toList = true ∧ body = name.toList ++ ':' :: '=' :: value.toList := by
  unfold ofBraces at h
  cases hcut : cut ':' body with
  | none =>
    rw [hcut] at h
    dsimp only at h
    split_ifs at h
    simp at h
  | some parts =>
    obtain ⟨front, rest⟩ := parts
    rw [hcut] at h
    dsimp only at h
    split_ifs at h with _ _ hname
    obtain ⟨rfl, hrest⟩ := Piece.reference.inj h
    rw [String.toList_ofList]
    exact ⟨hname, by rw [eq_append_of_cut hcut, otherwiseOf_assign hrest]⟩

theorem read_assign {switches : Switches} {c : Char} {rest : List Char} {name value : String}
    (h : (read switches c rest).1 = .reference name (.assign value)) :
    isName name.toList = true ∧
      c :: rest = (assignment name value).toList ++ (read switches c rest).2 := by
  unfold read at h ⊢
  split at h
  · simp at h
  · split at h
    · unfold ofPercent at h
      split at h
      · simp at h
      · split at h <;> simp at h
    · simp at h
  · split at h
    · next hcut =>
      obtain ⟨hname, hbody⟩ := ofBraces_assign h
      refine ⟨hname, ?_⟩
      rw [eq_append_of_cut hcut, hbody]
      simp [assignment]
    · simp at h
  · split at h
    · split at h
      · unfold ofCapture at h
        split at h <;> simp at h
      · simp at h
    · split_ifs at h
      simp at h
  · simp at h

end Piece

def Placed.shift (n : Nat) (x : Placed) : Placed :=
  { x with position := x.position + n }

@[simp] theorem piecesFrom_nil (switches : Switches) (k : Nat) : piecesFrom switches k [] = [] := by
  rw [piecesFrom]

theorem piecesFrom_cons (switches : Switches) (k : Nat) (c : Char) (rest : List Char) :
    piecesFrom switches k (c :: rest) =
      { position := k, piece := (Piece.read switches c rest).1 } ::
        piecesFrom switches (k + 1 + (rest.length - (Piece.read switches c rest).2.length))
          (Piece.read switches c rest).2 := by
  rw [piecesFrom]

theorem piecesFrom_add (switches : Switches) (n k : Nat) (raw : List Char) :
    piecesFrom switches (k + n) raw = (piecesFrom switches k raw).map (Placed.shift n) := by
  fun_induction piecesFrom switches k raw with
  | case1 k => simp
  | case2 k c rest found ih =>
    rw [piecesFrom_cons, List.map_cons, ← ih]
    have hnext : k + n + 1 + (rest.length - found.2.length) =
        k + 1 + (rest.length - found.2.length) + n := by omega
    rw [hnext]
    rfl

/-- A value with a blank in it is read in two parts, unless a piece in front of the blank
is left open and takes what stands behind it. -/
theorem piecesFrom_append_blank (switches : Switches) (k : Nat) (a b : List Char) :
    piecesFrom switches k (a ++ ' ' :: b) =
        piecesFrom switches k a ++ { position := k + a.length, piece := .text " " } ::
          piecesFrom switches (k + a.length + 1) b ∨
      ∃ front x back more, x.piece.IsOpen ∧ piecesFrom switches k a = front ++ x :: back ∧
        piecesFrom switches k (a ++ ' ' :: b) = front ++ more := by
  -- The first part is read piece by piece; a piece that is left open is the last.
  fun_induction piecesFrom switches k a with
  | case1 k =>
    left
    simp [piecesFrom_cons, Piece.read]
  | case2 k c rest found ih =>
    by_cases hopen : found.1.IsOpen
    · right
      exact ⟨[], _, _, _, hopen, by rfl, by rfl⟩
    · have hread := Piece.read_append b Piece.isStop_blank (fun _ _ => by decide) hopen
      have hlength : found.2.length ≤ rest.length := (Piece.read_suffix switches c rest).length_le
      rw [List.cons_append, piecesFrom_cons, hread]
      have hnext : k + 1 + ((rest ++ ' ' :: b).length - (found.2 ++ ' ' :: b).length) =
          k + 1 + (rest.length - found.2.length) := by
        simp only [List.length_append, List.length_cons]
        omega
      have hend : k + 1 + (rest.length - found.2.length) + found.2.length =
          k + (c :: rest).length := by
        rw [List.length_cons]
        omega
      rcases ih with hwhole | ⟨front, x, back, more, hx, hfront, hwhole⟩
      · left
        rw [hnext, hwhole, hend]
        rfl
      · right
        refine ⟨{ position := k, piece := found.1 } :: front, x, back, more, hx, ?_, ?_⟩
        · rw [hfront]
          rfl
        · rw [hnext, hwhole]
          rfl

theorem piece_of_assign {switches : Switches} {k : Nat} {raw : List Char} {x : Placed}
    {name value : String} (hx : x ∈ piecesFrom switches k raw)
    (hpiece : x.piece = .reference name (.assign value)) :
    Piece.isName name.toList = true ∧ (Piece.assignment name value).toList <:+: raw := by
  fun_induction piecesFrom switches k raw with
  | case1 => simp at hx
  | case2 k c rest found ih =>
    rcases List.mem_cons.1 hx with rfl | hx
    · obtain ⟨hname, htext⟩ := Piece.read_assign hpiece
      exact ⟨hname, htext ▸ (List.prefix_append _ _).isInfix⟩
    · obtain ⟨hname, hinfix⟩ := ih hx
      have hrest := (Piece.read_suffix switches c rest).trans (List.suffix_cons c rest)
      exact ⟨hname, hinfix.trans hrest.isInfix⟩

end SecretDotenv.Expansion
