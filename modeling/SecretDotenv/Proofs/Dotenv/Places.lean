import Mathlib.Data.List.DropRight
import SecretDotenv.Proofs.Dotenv.Concatenation

/-! Positions are places of the text. Readers count lines and columns as they go; what is
counted is always the text in front of what is left, whatever was captured on the way and
however the capture ended. So each token stands where its position says. -/
namespace SecretDotenv.Dotenv

open SecretDotenv.Text

theorem Position.column_over (text : List Char) :
    (({} : Position).over text).column = 1 + (text.reverse.takeWhile (· != '\n')).length := by
  induction text using List.reverseRecOn with
  | nil => rfl
  | append_singleton text c ih =>
    rw [Position.over_append, Position.over_cons, Position.over_nil, Position.after,
      List.reverse_concat]
    by_cases hc : c = '\n'
    · simp [hc]
    · simp [hc, ih, Nat.add_assoc]

/-- The one cursor comes to the other over a stretch of text, and its position does so too. -/
def Cursor.Reaches (c d : Cursor) : Prop :=
  ∃ taken, c.rest = taken ++ d.rest ∧ d.position = c.position.over taken

namespace Cursor.Reaches

variable {c d e : Cursor} {rest : List Char} {p : Position}

theorem refl (c : Cursor) : c.Reaches c :=
  ⟨[], rfl, rfl⟩

theorem trans (h : c.Reaches d) (h' : d.Reaches e) : c.Reaches e := by
  obtain ⟨taken, hrest, hposition⟩ := h
  obtain ⟨more, hrest', hposition'⟩ := h'
  refine ⟨taken ++ more, ?_, ?_⟩
  · rw [hrest, hrest', List.append_assoc]
  · rw [hposition', hposition, Position.over_append]

theorem cons {x : Char} (h : Reaches ⟨rest, p.after x⟩ d) : Reaches ⟨x :: rest, p⟩ d := by
  apply trans _ h
  exact ⟨[x], rfl, rfl⟩

theorem skip {taken : List Char} (h : c.rest = taken ++ rest) : c.Reaches (c.skip taken rest) :=
  ⟨taken, h, rfl⟩

theorem length_le (h : c.Reaches d) : d.rest.length ≤ c.rest.length := by
  obtain ⟨taken, hrest, -⟩ := h
  rw [hrest, List.length_append]
  omega

end Cursor.Reaches

open Cursor

theorem skipWhile_reaches (c : Cursor) (q : Char → Bool) : c.Reaches (c.skipWhile q) := by
  apply Reaches.skip
  exact List.takeWhile_append_dropWhile.symm

theorem takeLine_reaches (c : Cursor) : c.Reaches (takeLine c).2 := by
  have hsplit := List.takeWhile_append_dropWhile (p := (· != '\n')) (l := c.rest)
  unfold takeLine
  dsimp only
  split
  · next hdrop =>
    apply Reaches.skip
    rw [← hdrop, hsplit]
  · next x rest hdrop =>
    have hfeed : x = '\n' := by
      have hhead := List.head?_dropWhile_not (· != '\n') c.rest
      simpa [hdrop] using hhead
    apply Reaches.skip
    rw [List.append_assoc, List.singleton_append]
    rwa [hdrop, hfeed, eq_comm] at hsplit

theorem readName_reaches (start : Position) (rest : List Char) (p : Position) (name : List Char)
    (ended : Bool) : Reaches ⟨rest, p⟩ (readName start rest p name ended).2 := by
  fun_induction readName start rest p name ended with
  | case1 | case2 | case4 | case5 | case8 => exact Reaches.refl _
  | case3 => exact (Reaches.refl _).cons
  | case6 _ _ _ _ _ _ _ _ _ ih => exact ih.cons
  | case7 _ _ _ _ _ _ _ _ _ ih => exact ih.cons

theorem readEscaped_reaches (quote : Char) (cause : ParseError.Cause) (token : String → Token)
    (rest : List Char) (p : Position) (text : List Char) :
    Reaches ⟨rest, p⟩ (readEscaped quote cause token rest p text).2 := by
  fun_induction readEscaped quote cause token rest p text with
  | case1 => exact Reaches.refl _
  | case2 => exact (Reaches.refl _).cons
  | case3 => exact (Reaches.refl _).cons
  | case4 p text more digits hshort =>
    have hlength : more.length = digits.length := by simp_all
    have hall : more = digits := by
      have hdigits := hexRun_append_drop more
      rwa [List.drop_eq_nil_of_le hlength.le, List.append_nil, eq_comm] at hdigits
    apply Reaches.cons
    apply Reaches.cons
    exact ⟨digits, hall.trans (List.append_nil digits).symm, rfl⟩
  | case5 p text more digits hlong hquote behind ih =>
    apply Reaches.cons
    apply Reaches.cons
    apply Reaches.trans _ ih
    exact ⟨digits, (hexRun_append_drop more).symm, rfl⟩
  | case6 _ _ _ _ _ _ _ _ ih => exact ih.cons.cons
  | case7 _ _ _ _ _ _ _ ih => exact ih.cons
  | case8 _ _ _ _ _ _ ih => exact ih.cons

theorem readSingleQuoted_reaches (start : Position) (rest : List Char) (p : Position)
    (text : List Char) : Reaches ⟨rest, p⟩ (readSingleQuoted start rest p text).2 := by
  fun_induction readSingleQuoted start rest p text with
  | case1 => exact Reaches.refl _
  | case2 _ _ _ ih => exact ih.cons.cons
  | case3 => exact (Reaches.refl _).cons
  | case4 _ _ _ _ _ _ ih => exact ih.cons

theorem readJson_reaches (start : Position) (rest : List Char) (p : Position) (text : List Char) :
    Reaches ⟨rest, p⟩ (readJson start rest p text).2 := by
  fun_induction readJson start rest p text with
  | case1 => exact Reaches.refl _
  | case2 => exact (Reaches.refl _).cons
  | case3 _ _ _ _ _ ih => exact ih.cons

theorem readYaml_reaches (start : Position) (c : Cursor) (text : List Char) :
    c.Reaches (readYaml start c text).2 := by
  fun_induction readYaml start c text with
  | case1 => exact Reaches.refl _
  | case2 c => exact takeLine_reaches c
  | case3 c _ _ _ _ ih => exact (takeLine_reaches c).trans ih

theorem append_scalarRun (first : Bool) (rest : List Char) :
    rest = (scalarRun first rest).1 ++ (scalarRun first rest).2 := by
  fun_induction scalarRun first rest with
  | case1 => rfl
  | case2 => rfl
  | case3 first c rest _ taken left hrun ih =>
    rw [hrun] at ih
    exact congrArg (c :: ·) ih

/-- What the text holds where a token begins: names, comments, JSON and bare values as they
are, of a quoted value its quote, of front matter its dashes. -/
def Token.mark (t : Token) : List Char :=
  match t.kind with
  | .comment => '#' :: t.text.toList
  | .string .double => ['"']
  | .string .single => ['\'']
  | .string .backtick => ['\x60']
  | .yaml => ['-', '-', '-']
  | .name | .string .bare | .number | .boolean | .null | .json => t.text.toList

/-- A token begins at the one cursor and leaves the reader at the other. Only a value
without a character has no mark, and there the line or the text ends. -/
structure Token.Spans (t : Token) (c d : Cursor) : Prop where
  position : t.position = c.position
  mark : t.mark <+: c.rest
  unmarked : t.mark = [] → ∀ x ∈ c.rest.head?, x = '\n' ∨ x = '\r'
  reaches : c.Reaches d
  /-- A value that is missing takes nothing; the reader stays at the line break. -/
  progress : d.rest.length < c.rest.length ∨
    d = c ∧ t.kind = .string .bare ∧ (c.rest = [] ∨ atLineBreak c.rest)

theorem mark_scalar (text : String) (p : Position) : (Token.scalar text p).mark = text.toList := by
  unfold Token.mark Token.scalar scalarKind
  dsimp only
  split_ifs <;> rfl

theorem readName_mark {start p : Position} {rest name : List Char} {ended : Bool} {t : Token}
    {d : Cursor} (hfirst : name = [] → ∀ x ∈ rest.head?, isBlank x = false)
    (h : readName start rest p name ended = (.ok t, d)) :
    t.position = start ∧ ∃ more, t.text.toList = name.reverse ++ more ∧ more <+: rest ∧
      (ended → more = []) := by
  fun_induction readName start rest p name ended with
  | case1 | case2 | case4 | case5 | case8 => simp [fail] at h
  | case3 p name ended rest hname =>
    obtain rfl := Except.ok.inj (Prod.mk.inj h).1
    exact ⟨rfl, [], by simp, List.nil_prefix, fun _ => rfl⟩
  | case6 x rest p name ended _ _ _ hended ih =>
    obtain ⟨hposition, more, htext, hmore, -⟩ := ih (by simp) h
    refine ⟨hposition, x :: more, ?_, ?_, ?_⟩
    · simpa using htext
    · exact (List.prefix_cons_inj x).2 hmore
    · intro hend
      exact absurd hend hended
  | case7 x rest p name ended _ _ _ hblank ih =>
    have hname : name ≠ [] := by
      intro hnil
      have hx := hfirst hnil x rfl
      simp [hblank] at hx
    obtain ⟨hposition, more, htext, -, hmore⟩ := ih (fun hnil => absurd hnil hname) h
    obtain rfl : more = [] := hmore (by simp [hname])
    exact ⟨hposition, [], htext, List.nil_prefix, fun _ => rfl⟩

theorem takeLine_prefix (c : Cursor) : (takeLine c).1 <+: c.rest := by
  have hline : (if (c.rest.takeWhile (· != '\n')).getLast? = some '\r'
      then (c.rest.takeWhile (· != '\n')).dropLast else c.rest.takeWhile (· != '\n')) <+: c.rest := by
    split
    · exact (List.dropLast_prefix _).trans (List.takeWhile_prefix _)
    · exact List.takeWhile_prefix _
  unfold takeLine
  dsimp only
  split
  · exact hline
  · exact hline

theorem head_skipWhile (c : Cursor) (q : Char → Bool) :
    ∀ x ∈ (c.skipWhile q).rest.head?, q x = false := by
  intro x hx
  have hhead := List.head?_dropWhile_not q c.rest
  rw [show (c.rest.dropWhile q).head? = some x from hx] at hhead
  simpa using hhead

theorem Token.spans_mark {t : Token} {x : Char} {rest : List Char} {p : Position} {d : Cursor}
    (hposition : t.position = p) (hmark : t.mark <+: x :: rest) (hsome : t.mark ≠ [])
    (hreaches : Reaches ⟨rest, p.after x⟩ d) : t.Spans ⟨x :: rest, p⟩ d where
  position := hposition
  mark := hmark
  unmarked hnil := absurd hnil hsome
  reaches := hreaches.cons
  progress := by
    have hlength := hreaches.length_le
    simp only [List.length_cons] at hlength ⊢
    omega

theorem readNameOrComment_spans {c d : Cursor} {t : Token}
    (h : readNameOrComment c = (.ok (some t), d)) : t.Spans (c.skipWhile isBlank) d := by
  have hfirst : ∀ x ∈ (c.skipWhile isBlank).rest.head?, isBlank x = false := head_skipWhile c _
  unfold readNameOrComment at h
  dsimp only at h
  generalize c.skipWhile isBlank = s at h hfirst ⊢
  obtain ⟨rest, p⟩ := s
  dsimp only at h
  split at h
  · have hnone := Except.ok.inj (Prod.mk.inj h).1
    contradiction
  · next rest =>
    obtain ⟨ht, rfl⟩ := Prod.mk.inj h
    obtain rfl := Option.some.inj (Except.ok.inj ht)
    apply Token.spans_mark rfl
    · rw [Token.mark, String.toList_ofList]
      apply (List.prefix_cons_inj '#').2
      exact takeLine_prefix (Cursor.skip ⟨'#' :: rest, p⟩ ['#'] rest)
    · exact List.cons_ne_nil _ _
    · exact takeLine_reaches _
  · have hreaches := readName_reaches p rest p [] false
    rcases hread : readName p rest p [] false with ⟨e | token, cursor⟩
    · rw [hread] at h
      have hnone := (Prod.mk.inj h).1
      contradiction
    · rw [hread] at h hreaches
      obtain ⟨ht, rfl⟩ := Prod.mk.inj h
      obtain rfl := Option.some.inj (Except.ok.inj ht)
      obtain ⟨hposition, more, htext, hmore, -⟩ := readName_mark (fun _ => hfirst) hread
      have hmark : token.mark = token.text.toList := by
        rw [Token.mark, kind_readName hread]
      have hname := readName_isReadable (by simp) hread
      rw [Token.IsReadable, kind_readName hread] at hname
      refine ⟨hposition, ?_, ?_, hreaches, Or.inl (length_readName_lt hread)⟩
      · rwa [hmark, htext]
      · intro hnil
        rw [hmark, String.toList_eq_nil_iff] at hnil
        exact absurd hnil hname.1

theorem readSingleQuoted_mark {start p : Position} {rest text : List Char} {t : Token} {d : Cursor}
    (h : readSingleQuoted start rest p text = (.ok t, d)) :
    t.kind = .string .single ∧ t.position = start := by
  fun_induction readSingleQuoted start rest p text with
  | case1 => simp [fail] at h
  | case2 _ _ _ ih => exact ih h
  | case3 =>
    obtain rfl := Except.ok.inj (Prod.mk.inj h).1
    exact ⟨rfl, rfl⟩
  | case4 _ _ _ _ _ _ ih => exact ih h

theorem readJson_mark {start p : Position} {rest text : List Char} {t : Token} {d : Cursor}
    (h : readJson start rest p text = (.ok t, d)) :
    t.kind = .json ∧ t.position = start ∧
      ∃ more, t.text.toList = text.reverse ++ more ∧ more <+: rest ∧ more ≠ [] := by
  fun_induction readJson start rest p text with
  | case1 => simp [fail] at h
  | case2 x rest p text =>
    obtain rfl := Except.ok.inj (Prod.mk.inj h).1
    refine ⟨rfl, rfl, [x], by simp, ?_, by simp⟩
    exact ⟨rest, rfl⟩
  | case3 x rest p text _ ih =>
    obtain ⟨hkind, hposition, more, htext, hmore, -⟩ := ih h
    refine ⟨hkind, hposition, x :: more, ?_, ?_, by simp⟩
    · simpa using htext
    · exact (List.prefix_cons_inj x).2 hmore

theorem readYaml_mark {start : Position} {c d : Cursor} {text : List Char} {t : Token}
    (h : readYaml start c text = (.ok t, d)) : t.kind = .yaml ∧ t.position = start := by
  fun_induction readYaml start c text with
  | case1 => simp [fail] at h
  | case2 =>
    obtain rfl := Except.ok.inj (Prod.mk.inj h).1
    exact ⟨rfl, rfl⟩
  | case3 _ _ _ _ _ ih => exact ih h

theorem scalarRun_spans {c : Cursor} {x : Char} {rest : List Char} {p : Position}
    (hc : c.skipWhile inLine = ⟨x :: rest, p⟩) (hbegun : atLineBreak (x :: rest) = false) :
    (Token.scalar (String.ofList (trimEnd (scalarRun true (x :: rest)).1)) p).Spans ⟨x :: rest, p⟩
      (Cursor.skip ⟨x :: rest, p⟩ (scalarRun true (x :: rest)).1 (scalarRun true (x :: rest)).2) := by
  have hrun : (scalarRun true (x :: rest)).1 = x :: (scalarRun false rest).1 := by
    rw [scalarRun, hbegun]
    simp
  have hsplit := append_scalarRun true (x :: rest)
  have hmark : trimEnd (scalarRun true (x :: rest)).1 <+: (scalarRun true (x :: rest)).1 :=
    List.rdropWhile_prefix isBlank _
  have hreaches : Reaches ⟨x :: rest, p⟩
      (Cursor.skip ⟨x :: rest, p⟩ (scalarRun true (x :: rest)).1 (scalarRun true (x :: rest)).2) :=
    Reaches.skip hsplit
  refine ⟨rfl, ?_, ?_, hreaches, Or.inl ?_⟩
  · rw [mark_scalar, String.toList_ofList]
    apply hmark.trans
    exact ⟨_, hsplit.symm⟩
  · rw [mark_scalar, String.toList_ofList]
    intro hnil y hy
    obtain rfl : x = y := by simpa using hy
    have hblank : isBlank x :=
      List.rdropWhile_eq_nil_iff.1 hnil x (hrun ▸ List.mem_cons_self)
    have hstop := head_skipWhile c inLine x (by rw [hc]; rfl)
    simpa [inLine, hblank, or_iff_not_imp_left] using hstop
  · have hlength := congrArg List.length hsplit
    simp only [hrun, List.length_append, List.length_cons] at hlength
    simp only [Cursor.skip, List.length_cons]
    omega

theorem head_atLineBreak {rest : List Char} (h : rest = [] ∨ atLineBreak rest) :
    ∀ x ∈ rest.head?, x = '\n' ∨ x = '\r' := by
  unfold atLineBreak at h
  split at h <;> simp_all

theorem Token.spans_quote {t : Token} {x : Char} {rest : List Char} {p : Position}
    {step : Step Token} {d : Cursor} (h : step = (.ok t, d)) (hposition : t.position = p)
    (hmark : t.mark = [x]) (hreaches : Reaches ⟨rest, p.after x⟩ step.2) :
    t.Spans ⟨x :: rest, p⟩ d := by
  rw [h] at hreaches
  apply Token.spans_mark hposition _ _ hreaches
  · rw [hmark]
    exact List.prefix_append [x] rest
  · rw [hmark]
    exact List.cons_ne_nil _ _

theorem prefix_of_atFrontMatter {rest : List Char} (h : atFrontMatter rest) :
    ['-', '-', '-'] <+: rest := by
  unfold atFrontMatter at h
  split at h
  · next behind => exact List.prefix_append ['-', '-', '-'] behind
  · contradiction

theorem readValue_spans {options : ReaderOptions} {c d : Cursor} {t : Token}
    (h : readValue options c = (.ok t, d)) : t.Spans (c.skipWhile inLine) d := by
  rcases hs : c.skipWhile inLine with ⟨rest, p⟩
  by_cases hended : rest = [] ∨ atLineBreak rest
  · rw [readValue_ended hs hended] at h
    obtain ⟨ht, rfl⟩ := Prod.mk.inj h
    obtain rfl := Except.ok.inj ht
    exact ⟨rfl, List.nil_prefix, fun _ => head_atLineBreak hended, Reaches.refl _,
      Or.inr ⟨rfl, rfl, hended⟩⟩
  unfold readValue at h
  rw [show c.skipWhile (fun x => isBlank x && x != '\n' && x != '\r') = ⟨rest, p⟩ from hs] at h
  dsimp only at h
  rw [if_neg (by simpa using hended)] at h
  split at h
  · next rest =>
    obtain ⟨value, rfl⟩ := readEscaped_token h
    exact Token.spans_quote h rfl rfl (readEscaped_reaches ..)
  · next rest =>
    obtain ⟨hkind, hposition⟩ := readSingleQuoted_mark h
    exact Token.spans_quote h hposition (by rw [Token.mark, hkind]) (readSingleQuoted_reaches ..)
  · obtain ⟨x, behind, rfl⟩ := List.exists_cons_of_ne_nil (fun hnil => hended (Or.inl hnil))
    rw [List.head?_cons, List.tail_cons] at h
    split at h
    · next hbacktick =>
      obtain rfl : x = '\x60' := by simp_all
      obtain ⟨value, rfl⟩ := readEscaped_token h
      exact Token.spans_quote h rfl rfl (readEscaped_reaches ..)
    split at h
    · next hjson =>
      obtain rfl : x = '{' := by simp_all
      -- The brace is read like any other character, but it cannot end the block.
      rw [readJson, if_neg (by simp)] at h
      obtain ⟨hkind, hposition, more, htext, hmore, -⟩ := readJson_mark h
      have hmark : t.mark = '{' :: more := by
        rw [Token.mark, hkind]
        exact htext
      have hreaches := readJson_reaches p behind (p.after '{') ['{']
      rw [h] at hreaches
      apply Token.spans_mark hposition _ _ hreaches
      · rw [hmark]
        exact (List.prefix_cons_inj '{').2 hmore
      · rw [hmark]
        exact List.cons_ne_nil _ _
    split at h
    · next hyaml =>
      obtain ⟨hkind, hposition⟩ := readYaml_mark h
      have hmark : t.mark = ['-', '-', '-'] := by rw [Token.mark, hkind]
      have hreaches := readYaml_reaches p (takeLine ⟨x :: behind, p⟩).2 []
      rw [h] at hreaches
      refine ⟨hposition, ?_, ?_, (takeLine_reaches _).trans hreaches, Or.inl ?_⟩
      · rw [hmark]
        exact prefix_of_atFrontMatter (Bool.and_eq_true _ _ ▸ hyaml).1
      · rw [hmark]
        intro hnil
        exact absurd hnil (List.cons_ne_nil _ _)
      · apply Nat.lt_of_le_of_lt hreaches.length_le
        exact length_takeLine_lt (List.cons_ne_nil _ _)
    · obtain ⟨ht, rfl⟩ := Prod.mk.inj h
      obtain rfl := Except.ok.inj ht
      exact scalarRun_spans hs (by simpa using hended)

theorem length_skipBreak_lt {c : Cursor} (h : atLineBreak c.rest) :
    (c.skipWhile isBlank).rest.length < c.rest.length := by
  obtain ⟨rest, p⟩ := c
  obtain ⟨x, behind, rfl⟩ : ∃ x behind, rest = x :: behind :=
    List.exists_cons_of_ne_nil (by rintro rfl; contradiction)
  have hblank : isBlank x := by
    rcases head_atLineBreak (Or.inr h) x rfl with rfl | rfl <;> rfl
  have hlength : (behind.dropWhile isBlank).length ≤ behind.length :=
    (List.dropWhile_sublist _).length_le
  simp only [Cursor.skipWhile, Cursor.skip, List.dropWhile_cons_of_pos hblank, List.length_cons]
  omega

/-- The offset in a text at which a token stands. -/
structure Token.StandsAt (text : List Char) (t : Token) (offset : Nat) : Prop where
  le_length : offset ≤ text.length
  line : t.position.line = 1 + (text.take offset).count '\n'
  column : t.position.column = 1 + ((text.take offset).reverse.takeWhile (· != '\n')).length
  mark : t.mark <+: text.drop offset
  /-- Nothing is marked only where the line or the text ends. -/
  unmarked : t.mark = [] → ∀ x ∈ (text.drop offset).head?, x = '\n' ∨ x = '\r'

theorem Token.standsAt_of_spans {text : List Char} {t : Token} {c d : Cursor}
    (hc : Reaches ⟨text, {}⟩ c) (h : t.Spans c d) :
    t.StandsAt text (text.length - c.rest.length) := by
  obtain ⟨front, htext, hposition⟩ := hc
  obtain rfl : text = front ++ c.rest := htext
  rw [List.length_append, Nat.add_sub_cancel]
  refine ⟨?_, ?_, ?_, ?_, ?_⟩
  · simp
  · rw [h.position, hposition, Position.line_over, List.take_left]
  · rw [h.position, hposition, Position.column_over, List.take_left]
  · rw [List.drop_left]
    exact h.mark
  · rw [List.drop_left]
    exact h.unmarked

namespace Reader

def start (r : Reader) : Cursor :=
  r.cursor.skipWhile (if r.expectsValue then inLine else isBlank)

theorem next_spans {r s : Reader} {t : Token} (h : r.next = (.ok (some t), s)) :
    t.Spans r.start s.cursor := by
  obtain ⟨options, c, expectsValue⟩ := r
  unfold next at h
  cases expectsValue with
  | true =>
    rw [if_pos rfl] at h
    rcases hread : readValue options c with ⟨e | token, d⟩
    · rw [hread] at h
      have hnone := (Prod.mk.inj h).1
      contradiction
    · rw [hread] at h
      obtain ⟨ht, rfl⟩ := Prod.mk.inj h
      obtain rfl := Option.some.inj (Except.ok.inj ht)
      exact readValue_spans hread
  | false =>
    rw [if_neg Bool.false_ne_true] at h
    rcases hread : readNameOrComment c with ⟨token, d⟩
    rw [hread] at h
    obtain ⟨rfl, rfl⟩ := Prod.mk.inj h
    exact readNameOrComment_spans hread

theorem reaches_start (r : Reader) : r.cursor.Reaches r.start :=
  skipWhile_reaches _ _

theorem tokens_of_ended {r : Reader} (hr : r.expectsValue = false) (hrest : r.cursor.rest = []) :
    r.tokens = ([], none) := by
  obtain ⟨options, ⟨rest, p⟩, expectsValue⟩ := r
  obtain rfl : expectsValue = false := hr
  obtain rfl : rest = [] := hrest
  exact tokens_of_none rfl

theorem length_start_next {r s : Reader} {t : Token} (h : r.next = (.ok (some t), s))
    (hs : s.tokens.1 ≠ []) : s.start.rest.length < r.start.rest.length := by
  have hskip := s.reaches_start.length_le
  rcases (next_spans h).progress with hprogress | ⟨hstay, hkind, hended⟩
  · omega
  have hs' : s.expectsValue = false := by
    cases comes_of_next h with
    | name _ hname => simp [hname] at hkind
    | comment _ _ hs => exact hs
    | value _ _ hs => exact hs
  rw [← hstay] at hended ⊢
  rcases hended with hended | hbreak
  · simp [tokens_of_ended hs' hended] at hs
  · rw [start, hs']
    exact length_skipBreak_lt hbreak

theorem exists_offsets {text : List Char} {r : Reader} (h : Reaches ⟨text, {}⟩ r.start) :
    ∃ offsets, (∀ o ∈ offsets, text.length - r.start.rest.length ≤ o) ∧
      offsets.Pairwise (· < ·) ∧ List.Forall₂ (Token.StandsAt text) r.tokens.1 offsets := by
  fun_induction tokens r with
  | case1 | case2 => exact ⟨[], by simp, List.Pairwise.nil, .nil⟩
  | case3 r t s hnext more error htokens ih =>
    have hspans := next_spans hnext
    have hs : Reaches ⟨text, {}⟩ s.start := (h.trans hspans.reaches).trans s.reaches_start
    obtain ⟨offsets, hbehind, hincreasing, hstand⟩ := ih hs
    rw [htokens] at hstand
    have hfurther : ∀ o ∈ offsets, text.length - r.start.rest.length < o := by
      intro o ho
      have hsome : s.tokens.1 ≠ [] := by
        rw [htokens]
        rintro rfl
        cases hstand
        contradiction
      have hlength := length_start_next hnext hsome
      have hle : r.start.rest.length ≤ text.length := h.length_le
      have hfrom := hbehind o ho
      omega
    refine ⟨(text.length - r.start.rest.length) :: offsets, ?_, ?_, ?_⟩
    · intro o ho
      rcases List.mem_cons.1 ho with rfl | ho
      · exact Nat.le_refl _
      · exact Nat.le_of_lt (hfurther o ho)
    · exact List.pairwise_cons.2 ⟨hfurther, hincreasing⟩
    · exact .cons (Token.standsAt_of_spans h hspans) hstand

end Reader

/-- Every token up to the end or the first fault stands at an offset of the text, with the
line and the column of that offset and its mark there, and each stands behind the one before. -/
theorem positions_of_tokens (text : String) (options : ReaderOptions) :
    ∃ offsets : List Nat, offsets.Pairwise (· < ·) ∧
      List.Forall₂ (Token.StandsAt text.toList) (tokens text options).1 offsets := by
  have hstart : Reaches ⟨text.toList, {}⟩ (Reader.ofText text options).start :=
    skipWhile_reaches _ _
  obtain ⟨offsets, -, hincreasing, hstand⟩ := Reader.exists_offsets hstart
  exact ⟨offsets, hincreasing, hstand⟩

end SecretDotenv.Dotenv
