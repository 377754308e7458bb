import Mathlib.Data.List.TakeWhile
import SecretDotenv.Proofs.Dotenv.Shifted
import SecretDotenv.Proofs.Text.Trimmed

/-! Texts one behind the other. A text that can be read, a line break and any other text
read as the nodes of the one and then those of the other. -/
namespace SecretDotenv.Dotenv

open SecretDotenv.Text

def Cursor.onto (c : Cursor) (tail : List Char) : Cursor :=
  { c with rest := c.rest ++ tail }

def Cursor.last (c : Cursor) : Position :=
  c.position.over c.rest

theorem atLineBreak_cons_cons (c x : Char) (rest : List Char) :
    atLineBreak (c :: x :: rest) = (c == '\n' || c == '\r' && x == '\n') := by
  unfold atLineBreak
  split <;> simp_all

theorem atLineBreak_append {c : Char} {rest : List Char} (tail : List Char) (h : rest ≠ []) :
    atLineBreak (c :: (rest ++ tail)) = atLineBreak (c :: rest) := by
  cases rest with
  | nil => exact absurd rfl h
  | cons x rest => rw [List.cons_append, atLineBreak_cons_cons, atLineBreak_cons_cons]

theorem readName_onto {start p : Position} {rest name : List Char} {ended : Bool} {t : Token}
    {c : Cursor} (h : readName start rest p name ended = (.ok t, c)) (tail : List Char) :
    readName start (rest ++ tail) p name ended = (.ok t, c.onto tail) ∧ c.last = p.over rest := by
  have hne : ∀ {x rest} {q : Position} {before : List Char} {ended : Bool},
      ¬ atLineBreak (x :: rest) = true → readName start rest q before ended = (.ok t, c) →
        atLineBreak (x :: (rest ++ tail)) = false := by
    intro x rest q before ended hbreak h
    rw [atLineBreak_append, Bool.not_eq_true] at *
    · exact hbreak
    · rintro rfl
      simp [readName, fail] at h
  fun_induction readName start rest p name ended with
  | case3 p name ended rest hname =>
    obtain ⟨ht, rfl⟩ := Prod.mk.inj h
    simp [readName, hname, ht, Cursor.onto, Cursor.last]
  | case6 p name ended x rest heq hbreak hx hended ih =>
    rw [List.cons_append, readName, if_neg heq, hne hbreak h]
    simpa [hx, hended] using ih h
  | case7 p name ended x rest heq hbreak hx hblank ih =>
    rw [List.cons_append, readName, if_neg heq, hne hbreak h]
    simpa [hx, hblank] using ih h
  | case1 | case2 | case4 | case5 | case8 => simp [fail] at h

theorem hexRun_append_drop (s : List Char) : hexRun s ++ s.drop (hexRun s).length = s :=
  List.prefix_iff_eq_append.1 ((List.takeWhile_prefix _).trans (List.take_prefix 4 s))

theorem hexRun_append {s : List Char} (tail : List Char)
    (h : ¬((hexRun s).length < 4 ∧ s.length = (hexRun s).length)) :
    hexRun (s ++ tail) = hexRun s := by
  unfold hexRun at h ⊢
  rw [List.take_append]
  by_cases hlong : 4 ≤ s.length
  · simp [Nat.sub_eq_zero_of_le hlong]
  · rw [List.take_of_length_le (Nat.le_of_not_le hlong)] at h ⊢
    rw [List.takeWhile_append, if_neg]
    intro hall
    omega

theorem readEscaped_onto {quote : Char} {cause : ParseError.Cause} {token : String → Token}
    {rest text : List Char} {p : Position} {t : Token} {c : Cursor}
    (h : readEscaped quote cause token rest p text = (.ok t, c)) (tail : List Char) :
    readEscaped quote cause token (rest ++ tail) p text = (.ok t, c.onto tail) ∧
      c.last = p.over rest := by
  fun_induction readEscaped quote cause token rest p text with
  | case2 rest p text =>
    obtain ⟨ht, rfl⟩ := Prod.mk.inj h
    obtain rfl := Except.ok.inj ht
    exact ⟨readEscaped_quote .., rfl⟩
  | case1 | case3 | case4 => simp [fail] at h
  | case5 p text more digits hlong hquote behind ih =>
    obtain ⟨hread, hlast⟩ := ih h
    have hdigits : hexRun (more ++ tail) = digits := hexRun_append tail (by simpa using hlong)
    have hle : digits.length ≤ more.length := length_hexRun_le more
    refine ⟨?_, ?_⟩
    · rw [List.cons_append, List.cons_append, readEscaped, if_neg hquote, if_pos rfl, hdigits, ← hread,
        ← List.drop_append_of_le_length hle]
      refine if_neg ?_
      simp only [Bool.and_eq_true, decide_eq_true_eq, List.length_append] at hlong ⊢
      omega
    · rw [hlast, ← Position.over_append, hexRun_append_drop]
      rfl
  | case6 p text next more hnext e he hquote ih =>
    rw [List.cons_append, List.cons_append, readEscaped, if_neg hquote, he]
    · exact ih h
    · exact hnext
  | case7 p text next more hnext he hquote ih =>
    rw [List.cons_append, List.cons_append, readEscaped, if_neg hquote, he]
    · exact ih h
    · exact hnext
  | case8 c rest p text hquote hback ih =>
    rw [List.cons_append, readEscaped_plain _ _ _ _ _ hquote hback]
    exact ih h

theorem readSingleQuoted_onto {start p : Position} {rest text : List Char} {t : Token}
    {c : Cursor} (h : readSingleQuoted start rest p text = (.ok t, c)) (tail : List Char) :
    readSingleQuoted start (rest ++ tail) p text = (.ok t, c.onto tail) ∧ c.last = p.over rest := by
  fun_induction readSingleQuoted start rest p text with
  | case1 => simp [fail] at h
  | case2 p text rest ih => exact ih h
  | case3 p text rest hclose =>
    obtain ⟨ht, rfl⟩ := Prod.mk.inj h
    obtain rfl := Except.ok.inj ht
    exact ⟨by simp [readSingleQuoted, Cursor.onto], rfl⟩
  | case4 x rest p text hescape hquote ih =>
    cases rest with
    | nil => simp [readSingleQuoted, fail] at h
    | cons y rest =>
      rw [List.cons_append, List.cons_append, readSingleQuoted, if_neg hquote]
      · exact ih h
      · intro behind hx hbehind
        exact hescape rest hx (by rw [(List.cons.inj hbehind).1])

theorem readJson_onto {start p : Position} {rest text : List Char} {t : Token} {c : Cursor}
    (h : readJson start rest p text = (.ok t, c)) (tail : List Char) :
    readJson start (rest ++ tail) p text = (.ok t, c.onto tail) ∧ c.last = p.over rest := by
  fun_induction readJson start rest p text with
  | case1 => simp [fail] at h
  | case2 p text x rest hclose =>
    obtain ⟨ht, rfl⟩ := Prod.mk.inj h
    obtain rfl := Except.ok.inj ht
    rw [List.cons_append, readJson, if_pos hclose]
    exact ⟨rfl, rfl⟩
  | case3 p text x rest hopen ih =>
    rw [List.cons_append, readJson, if_neg hopen]
    exact ih h

theorem Cursor.skipWhile_onto {q : Char → Bool} (c : Cursor) {tail : List Char}
    (hstop : (c.skipWhile q).rest = [] → ∀ x ∈ tail.head?, q x = false) :
    (c.onto tail).skipWhile q = (c.skipWhile q).onto tail := by
  have hsplit : c.onto tail =
      ⟨c.rest.takeWhile q ++ (c.rest.dropWhile q ++ tail), c.position⟩ := by
    rw [← List.append_assoc, List.takeWhile_append_dropWhile]
    rfl
  rw [hsplit, skipWhile_append _ fun _ => List.mem_takeWhile_imp]
  · rfl
  · intro x hx
    have hhead := List.head?_dropWhile_not q c.rest
    cases hdrop : c.rest.dropWhile q with
    | nil => exact hstop hdrop x (by simpa [hdrop] using hx)
    | cons y rest =>
      obtain rfl : y = x := by simpa [hdrop] using hx
      simpa [hdrop] using hhead

theorem Cursor.last_skipWhile (q : Char → Bool) (c : Cursor) : (c.skipWhile q).last = c.last := by
  simp [skipWhile, skip, last, ← Position.over_append]

theorem Cursor.skipWhile_over {q : Char → Bool} {taken : List Char} (rest : List Char)
    (p : Position) (htaken : ∀ c ∈ taken, q c) :
    skipWhile q ⟨taken ++ rest, p⟩ = skipWhile q ⟨rest, p.over taken⟩ := by
  simp [skipWhile, skip, List.takeWhile_append_of_pos htaken, List.dropWhile_append_of_pos htaken,
    Position.over_append]

theorem atLineBreak_onto {rest : List Char} (tail : List Char) (h : atLineBreak rest) :
    atLineBreak (rest ++ tail) := by
  unfold atLineBreak at h
  split at h
  · rfl
  · rfl
  · contradiction

theorem eq_return_of_atLineBreak {c : Char} {rest tail : List Char}
    (h : atLineBreak (c :: rest) = false) (hjoined : atLineBreak (c :: (rest ++ tail))) :
    rest = [] ∧ c = '\r' := by
  by_cases hrest : rest = []
  · subst hrest
    refine ⟨rfl, ?_⟩
    unfold atLineBreak at h hjoined
    grind
  · rw [atLineBreak_append _ hrest, h] at hjoined
    contradiction

/-- A carriage return at the end of the text is a part of the value, and of the line break
if a line feed is behind it. It is blank, so the value is the same. -/
theorem scalarRun_onto (first : Bool) (rest more : List Char) :
    ∃ kept ended left, scalarRun first rest = (kept ++ ended, left) ∧
      scalarRun first (rest ++ '\n' :: more) = (kept, ended ++ (left ++ '\n' :: more)) ∧
      (∀ c ∈ ended, isBlank c) ∧ rest = kept ++ ended ++ left := by
  fun_induction scalarRun first rest with
  | case1 first => exact ⟨[], [], [], rfl, by simp [scalarRun, atLineBreak], by simp, rfl⟩
  | case2 first c rest hstop =>
    refine ⟨[], [], c :: rest, rfl, ?_, by simp, rfl⟩
    have hjoined : (atLineBreak (c :: (rest ++ '\n' :: more)) || c == '#' && !first) = true := by
      rw [Bool.or_eq_true] at hstop ⊢
      exact hstop.imp_left (atLineBreak_onto _)
    rw [List.cons_append, scalarRun, if_pos hjoined]
    rfl
  | case3 first c rest hgoes taken left hrest ih =>
    obtain ⟨kept, ended, left', heq, hjoined, hended, hsplit⟩ := ih
    simp only [Bool.or_eq_true, not_or, Bool.not_eq_true] at hgoes
    rw [List.cons_append]
    by_cases hbreak : atLineBreak (c :: (rest ++ '\n' :: more))
    · obtain ⟨rfl, rfl⟩ := eq_return_of_atLineBreak hgoes.1 hbreak
      refine ⟨[], ['\r'], [], ?_, ?_, List.forall_mem_singleton.2 rfl, rfl⟩
      · simpa [scalarRun] using hrest.symm
      · rw [scalarRun, hbreak]
        rfl
    · refine ⟨c :: kept, ended, left', ?_, ?_, hended, by rw [hsplit]; rfl⟩
      · simp_all
      · rw [scalarRun, hjoined]
        simp [hbreak, hgoes.2]

def inLine (x : Char) : Bool :=
  isBlank x && x != '\n' && x != '\r'

theorem readValue_ended {options : ReaderOptions} {c s : Cursor} (hskip : c.skipWhile inLine = s)
    (hended : s.rest = [] ∨ atLineBreak s.rest) :
    readValue options c =
      (.ok { kind := .string .bare, text := "", position := s.position }, s) := by
  have hcond : (s.rest.isEmpty || atLineBreak s.rest) = true := by simpa using hended
  subst hskip
  exact if_pos hcond

/-- What is read of a value that begins with `x`, where no YAML is read. -/
def readFrom (options : ReaderOptions) (p : Position) (x : Char) (rest : List Char) : Step Token :=
  if x = '"' then
    readEscaped '"' (.unterminatedCapture .double p.line)
      (fun text => { kind := .string .double, text, position := p }) rest (p.after '"') []
  else if x = '\'' then readSingleQuoted p rest (p.after '\'') []
  else if x = '\x60' ∧ options.allowBackticks then
    readEscaped '\x60' (.unterminatedCapture .backtick p.line)
      (fun text => { kind := .string .backtick, text, position := p }) rest (p.after '\x60') []
  else if x = '{' ∧ options.allowJson then readJson p (x :: rest) p []
  else
    (.ok (Token.scalar (String.ofList (trimEnd (scalarRun true (x :: rest)).1)) p),
      ⟨(scalarRun true (x :: rest)).2, p.over (scalarRun true (x :: rest)).1⟩)

theorem readValue_begun {options : ReaderOptions} (hyaml : options.allowYaml = false) {c : Cursor}
    {x : Char} {rest : List Char} {p : Position} (hskip : c.skipWhile inLine = ⟨x :: rest, p⟩)
    (hbegun : atLineBreak (x :: rest) = false) :
    readValue options c = readFrom options p x rest := by
  change c.skipWhile (fun x => isBlank x && x != '\n' && x != '\r') = _ at hskip
  unfold readValue readFrom
  rw [hskip]
  simp only [List.isEmpty_cons, hbegun, Bool.or_self, Bool.false_eq_true, if_false]
  by_cases hdouble : x = '"'
  · subst hdouble
    rfl
  by_cases hsingle : x = '\''
  · subst hsingle
    rfl
  rw [if_neg hdouble, if_neg hsingle]
  split
  · next heq => exact absurd (List.cons.inj heq).1 hdouble
  · next heq => exact absurd (List.cons.inj heq).1 hsingle
  · simp [hyaml, Cursor.skip]

/-- A capture ends at its mark; a bare value may leave blanks to the line break behind it. -/
theorem readFrom_onto {options : ReaderOptions} {p : Position} {x : Char} {rest : List Char}
    {t : Token} {d : Cursor} (h : readFrom options p x rest = (.ok t, d)) (more : List Char) :
    ∃ e, readFrom options p x (rest ++ '\n' :: more) = (.ok t, e) ∧
      e.skipWhile isBlank = (d.onto ('\n' :: more)).skipWhile isBlank ∧
      d.last = p.over (x :: rest) := by
  unfold readFrom at h ⊢
  by_cases hdouble : x = '"'
  · subst hdouble
    rw [if_pos rfl] at h ⊢
    obtain ⟨hread, hlast⟩ := readEscaped_onto h ('\n' :: more)
    exact ⟨_, hread, rfl, hlast⟩
  rw [if_neg hdouble] at h ⊢
  by_cases hsingle : x = '\''
  · subst hsingle
    rw [if_pos rfl] at h ⊢
    obtain ⟨hread, hlast⟩ := readSingleQuoted_onto h ('\n' :: more)
    exact ⟨_, hread, rfl, hlast⟩
  rw [if_neg hsingle] at h ⊢
  by_cases hbacktick : x = '\x60' ∧ options.allowBackticks
  · rw [if_pos hbacktick] at h ⊢
    obtain rfl := hbacktick.1
    obtain ⟨hread, hlast⟩ := readEscaped_onto h ('\n' :: more)
    exact ⟨_, hread, rfl, hlast⟩
  rw [if_neg hbacktick] at h ⊢
  by_cases hjson : x = '{' ∧ options.allowJson
  · rw [if_pos hjson] at h ⊢
    obtain ⟨hread, hlast⟩ := readJson_onto h ('\n' :: more)
    exact ⟨_, hread, rfl, hlast⟩
  rw [if_neg hjson] at h ⊢
  obtain ⟨kept, ended, left, hrun, hrunJoined, hblank, hsplit⟩ := scalarRun_onto true (x :: rest) more
  rw [List.cons_append] at hrunJoined
  rw [hrunJoined, ← trimEnd_append kept hblank]
  rw [hrun] at h
  obtain ⟨ht, rfl⟩ := Prod.mk.inj h
  refine ⟨_, Prod.ext ht rfl, ?_, ?_⟩
  · rw [Cursor.skipWhile_over _ _ hblank, ← Position.over_append]
    rfl
  · simp [Cursor.last, hsplit, Position.over_append]

theorem readValue_onto {options : ReaderOptions} (hyaml : options.allowYaml = false)
    {c d : Cursor} {t : Token} (h : readValue options c = (.ok t, d)) (more : List Char) :
    ∃ e, readValue options (c.onto ('\n' :: more)) = (.ok t, e) ∧
      e.skipWhile isBlank = (d.onto ('\n' :: more)).skipWhile isBlank ∧ d.last = c.last := by
  have hjoined : (c.onto ('\n' :: more)).skipWhile inLine = (c.skipWhile inLine).onto ('\n' :: more) :=
    c.skipWhile_onto fun _ x hx => by
      obtain rfl := Option.some.inj hx
      rfl
  rw [← c.last_skipWhile inLine]
  rcases hskip : c.skipWhile inLine with ⟨rest, p⟩
  rw [hskip] at hjoined
  by_cases hended : rest = [] ∨ atLineBreak rest
  · rw [readValue_ended hskip hended] at h
    obtain ⟨ht, rfl⟩ := Prod.mk.inj h
    refine ⟨_, ?_, rfl, rfl⟩
    rw [readValue_ended hjoined, ← ht]
    · rfl
    · right
      exact hended.elim (fun hnil => by subst hnil; rfl) (atLineBreak_onto _)
  obtain ⟨x, rest, rfl⟩ := List.exists_cons_of_ne_nil (not_or.1 hended).1
  have hbegun : atLineBreak (x :: rest) = false := by simpa using (not_or.1 hended).2
  rw [readValue_begun hyaml hskip hbegun] at h
  by_cases hbreak : atLineBreak (x :: (rest ++ '\n' :: more))
  · -- The lone carriage return is a value without text, and then a part of the line break.
    obtain ⟨rfl, rfl⟩ := eq_return_of_atLineBreak hbegun hbreak
    obtain ⟨ht, rfl⟩ := Prod.mk.inj h
    refine ⟨⟨['\r'] ++ '\n' :: more, p⟩, ?_, ?_, rfl⟩
    · rw [readValue_ended hjoined (Or.inr hbreak), ← ht]
      rfl
    · exact Cursor.skipWhile_over _ _ (List.forall_mem_singleton.2 rfl)
  · rw [readValue_begun hyaml hjoined (by simpa using hbreak)]
    exact readFrom_onto h more

theorem takeLine_last {c : Cursor} (h : '\n' ∉ c.rest) :
    takeLine c = (withoutReturn c.rest, ⟨[], c.last⟩) := by
  have hall : ∀ x ∈ c.rest, (x != '\n') = true := by
    intro x hx
    simpa using fun heq : x = '\n' => h (heq ▸ hx)
  simp [takeLine, withoutReturn, Cursor.skip, Cursor.last, List.takeWhile_eq_self_iff.2 hall,
    List.dropWhile_eq_nil_iff.2 hall]

theorem takeLine_onto (c : Cursor) (more : List Char) :
    (takeLine (c.onto ('\n' :: more))).1 = (takeLine c).1 ∧
      (takeLine (c.onto ('\n' :: more))).2.skipWhile isBlank =
        ((takeLine c).2.onto ('\n' :: more)).skipWhile isBlank ∧
      (takeLine c).2.last = c.last := by
  obtain ⟨rest, p⟩ := c
  by_cases hmem : '\n' ∈ rest
  · obtain ⟨line, behind, rfl, hline⟩ := List.eq_append_cons_of_mem hmem
    have hjoined : takeLine ⟨line ++ '\n' :: (behind ++ '\n' :: more), p⟩ = _ :=
      takeLine_append hline
    simp only [Cursor.onto, List.append_assoc, List.cons_append, hjoined, takeLine_append hline,
      Cursor.last, Position.over_append, Position.over_cons, true_and]
    rfl
  · rw [takeLine_last (c := ⟨rest, p⟩) hmem, Cursor.onto, takeLine_append hmem]
    refine ⟨rfl, ?_, rfl⟩
    rw [Position.over_append]
    exact (Cursor.skipWhile_over more _ (List.forall_mem_singleton.2 rfl)).symm

theorem readNameOrComment_congr {c e : Cursor} (h : e.skipWhile isBlank = c.skipWhile isBlank) :
    readNameOrComment e = readNameOrComment c := by
  unfold readNameOrComment
  rw [h]

theorem readNameOrComment_onto {c d : Cursor} {t : Token}
    (h : readNameOrComment c = (.ok (some t), d)) (more : List Char) :
    ∃ e, readNameOrComment (c.onto ('\n' :: more)) = (.ok (some t), e) ∧
      (t.kind = .name → e = d.onto ('\n' :: more)) ∧
      e.skipWhile isBlank = (d.onto ('\n' :: more)).skipWhile isBlank ∧ d.last = c.last := by
  rw [← c.last_skipWhile isBlank]
  rcases hskip : c.skipWhile isBlank with ⟨rest, p⟩
  have hjoined : rest ≠ [] →
      (c.onto ('\n' :: more)).skipWhile isBlank = ⟨rest ++ '\n' :: more, p⟩ := by
    intro hrest
    rw [c.skipWhile_onto fun hnil => absurd hnil (by rwa [hskip]), hskip]
    rfl
  unfold readNameOrComment at h ⊢
  rw [hskip] at h
  dsimp only at h ⊢
  split at h
  · simp at h
  · next hash rest =>
    rw [hjoined (List.cons_ne_nil _ _)]
    obtain ⟨htext, hskipped, hlast⟩ := takeLine_onto (Cursor.skip ⟨'#' :: rest, p⟩ ['#'] rest) more
    obtain ⟨ht, rfl⟩ := Prod.mk.inj h
    obtain rfl := Option.some.inj (Except.ok.inj ht)
    refine ⟨_, ?_, by simp, hskipped, hlast⟩
    simp only [List.cons_append]
    rw [← htext]
    rfl
  · next hnil hhash =>
    rcases hread : readName p rest p [] false with ⟨result, after⟩
    rw [hread] at h
    obtain ⟨ht, rfl⟩ := Prod.mk.inj h
    obtain ⟨name, rfl, hname⟩ := map_eq_ok ht
    obtain rfl := Option.some.inj hname
    obtain ⟨hreadJoined, hlast⟩ := readName_onto hread ('\n' :: more)
    rw [hjoined hnil]
    refine ⟨_, ?_, fun _ => rfl, rfl, hlast⟩
    split
    · next heq => simp at heq
    · next tail heq =>
      obtain ⟨x, behind, rfl⟩ := List.exists_cons_of_ne_nil hnil
      exact absurd (by rw [(List.cons.inj heq).1]) (hhash behind)
    · rw [hreadJoined]
      rfl

theorem readNameOrComment_end {c d : Cursor} (h : readNameOrComment c = (.ok none, d))
    (more : List Char) :
    (c.onto ('\n' :: more)).skipWhile isBlank =
      Cursor.skipWhile isBlank ⟨more, c.last.after '\n'⟩ := by
  have hrest : (c.skipWhile isBlank).rest = [] := by
    unfold readNameOrComment at h
    dsimp only at h
    split at h
    · next hnil => exact hnil
    · simp at h
    · obtain ⟨ht, -⟩ := Prod.mk.inj h
      obtain ⟨name, -, hname⟩ := map_eq_ok ht
      contradiction
  have hblank : ∀ x ∈ c.rest ++ ['\n'], isBlank x := by
    intro x hx
    rcases List.mem_append.1 hx with hx | hx
    · exact List.dropWhile_eq_nil_iff.1 hrest x hx
    · obtain rfl := List.mem_singleton.1 hx
      rfl
  have hskipped := Cursor.skipWhile_over more c.position hblank
  rw [Position.over_append, List.append_assoc] at hskipped
  exact hskipped

namespace Reader

/-- `s` reads a text that goes on with a line break and `more` where that of `r` ends. Blanks
in front of a name may be left to either side of the cut. -/
structure Continues (more : List Char) (r s : Reader) : Prop where
  options : s.options = r.options
  expectsValue : s.expectsValue = r.expectsValue
  value : r.expectsValue → s.cursor = r.cursor.onto ('\n' :: more)
  name : s.cursor.skipWhile isBlank = (r.cursor.onto ('\n' :: more)).skipWhile isBlank

theorem next_continues {more : List Char} {r s u : Reader} {t : Token}
    (hyaml : r.options.allowYaml = false) (h : Continues more r s) (hr : r.next = (.ok (some t), u)) :
    ∃ v, s.next = (.ok (some t), v) ∧ Continues more u v ∧ u.options = r.options ∧
      u.cursor.last = r.cursor.last := by
  unfold next at hr ⊢
  rw [h.options, h.expectsValue]
  cases hexpects : r.expectsValue with
  | true =>
    simp only [hexpects, if_true] at hr ⊢
    rcases hread : readValue r.options r.cursor with ⟨result, d⟩
    rw [hread] at hr
    obtain ⟨ht, rfl⟩ := Prod.mk.inj hr
    obtain ⟨value, rfl, hvalue⟩ := map_eq_ok ht
    obtain rfl := Option.some.inj hvalue
    obtain ⟨e, hjoined, hskipped, hlast⟩ := readValue_onto hyaml hread more
    rw [h.value hexpects, hjoined]
    exact ⟨_, rfl, ⟨rfl, rfl, by simp, hskipped⟩, rfl, hlast⟩
  | false =>
    simp only [hexpects, Bool.false_eq_true, if_false] at hr ⊢
    rcases hread : readNameOrComment r.cursor with ⟨result, d⟩
    rw [hread] at hr
    obtain ⟨rfl, rfl⟩ := Prod.mk.inj hr
    obtain ⟨e, hjoined, hname, hskipped, hlast⟩ := readNameOrComment_onto hread more
    rw [readNameOrComment_congr h.name, hjoined]
    exact ⟨_, rfl, ⟨rfl, rfl, fun hkind => hname (by simpa using hkind), hskipped⟩, rfl, hlast⟩

def behind (r : Reader) (more : List Char) : Reader :=
  { options := r.options, cursor := ⟨more, r.cursor.last.after '\n'⟩ }

theorem next_behind {more : List Char} {r s u : Reader} (h : Continues more r s)
    (hr : r.next = (.ok none, u)) : s.next = (r.behind more).next := by
  unfold next at hr ⊢
  cases hexpects : r.expectsValue with
  | true =>
    simp only [hexpects, if_true] at hr
    obtain ⟨value, -, hvalue⟩ := map_eq_ok (Prod.mk.inj hr).1
    contradiction
  | false =>
    simp only [hexpects, Bool.false_eq_true, if_false] at hr
    have hread : readNameOrComment r.cursor = (.ok none, (readNameOrComment r.cursor).2) :=
      Prod.ext (Prod.mk.inj hr).1 rfl
    have hcursor := h.name.trans (readNameOrComment_end hread more)
    simp only [h.options, h.expectsValue, hexpects, behind, readNameOrComment_congr hcursor,
      Bool.false_eq_true, if_false]

theorem tokens_congr {r s : Reader} (h : s.next = r.next) : s.tokens = r.tokens := by
  rcases hr : r.next with ⟨e | t, u⟩
  · rw [tokens_of_error hr, tokens_of_error (h.trans hr)]
  · cases t with
    | none => rw [tokens_of_none hr, tokens_of_none (h.trans hr)]
    | some t => rw [tokens_of_some hr, tokens_of_some (h.trans hr)]

theorem tokens_continues {more : List Char} {r s : Reader}
    (hyaml : r.options.allowYaml = false) (h : Continues more r s) (hr : r.tokens.2 = none) :
    s.tokens = (r.tokens.1 ++ (r.behind more).tokens.1, (r.behind more).tokens.2) := by
  fun_induction tokens r generalizing s with
  | case1 r u hnext => exact tokens_congr (next_behind h hnext)
  | case2 => contradiction
  | case3 r t u hnext rest error htokens ih =>
    obtain ⟨v, hs, hcontinues, hoptions, hlast⟩ := next_continues hyaml h hnext
    have hbehind : u.behind more = r.behind more := by
      rw [behind, behind, hoptions, hlast]
    rw [htokens, hbehind] at ih
    rw [tokens_of_some hs, ih (by rwa [hoptions]) hcontinues hr]
    rfl

end Reader

theorem Position.line_over (p : Position) (text : List Char) :
    (p.over text).line = p.line + text.count '\n' := by
  induction text generalizing p with
  | nil => rfl
  | cons c text ih =>
    rw [Position.over_cons, ih, List.count_cons]
    unfold Position.after
    by_cases hc : c = '\n'
    · simp [hc, Nat.add_right_comm, Nat.add_assoc]
    · simp [hc]

theorem tokens_joined {first : String} {options : ReaderOptions}
    (hyaml : options.allowYaml = false) (h : (tokens first options).2 = none) (second : String) :
    tokens (first ++ "\n" ++ second) options =
      ((tokens first options).1 ++
        (tokens second options).1.map (Token.shift (1 + first.toList.count '\n')),
        (tokens second options).2.map (ParseError.shift (1 + first.toList.count '\n'))) := by
  have hcontinues : Reader.Continues second.toList (.ofText first options)
      (.ofText (first ++ "\n" ++ second) options) := by
    have hcursor : (Reader.ofText (first ++ "\n" ++ second) options).cursor =
        (Reader.ofText first options).cursor.onto ('\n' :: second.toList) := by
      simp [Reader.ofText, Cursor.onto]
    exact ⟨rfl, rfl, fun _ => hcursor, by rw [hcursor]⟩
  have hbehind : (Reader.ofText first options).behind second.toList =
      (Reader.ofText second options).shift (1 + first.toList.count '\n') := by
    have hline := Position.line_over {} first.toList
    simp only [Reader.behind, Reader.ofText, Reader.shift, Cursor.shift, Cursor.last,
      Position.after, Position.shift, if_true, hline]
    congr 3
    omega
  unfold tokens at h ⊢
  rw [Reader.tokens_continues hyaml hcontinues h, hbehind, Reader.tokens_shift]

namespace Document

/-- A text that can be read, a line break and another text: the document of the one and then
that of the other, or the fault of the other so much further down. -/
theorem parse_joined {first : String} {options : ReaderOptions} {document : Document}
    (hyaml : options.allowYaml = false) (h : parse first options = .ok document)
    (second : String) :
    parse (first ++ "\n" ++ second) options =
      match parse second options with
      | .ok other => .ok (document.append other)
      | .error e => .error (e.shift (1 + first.toList.count '\n')) := by
  rcases parse_cases first options with ⟨nodes, herror, hpaired, hparse⟩ | ⟨e, _, _, _, _, hparse⟩
  · obtain rfl := Except.ok.inj (hparse.symm.trans h)
    have hjoined := tokens_joined hyaml herror second
    have hfront := nodesOfTokens_append hpaired
    rcases parse_cases second options with ⟨others, hended, hothers, hsecond⟩ |
      ⟨e, last, others, hfault, hothers, hsecond⟩
    · rw [← paired?_shift (1 + first.toList.count '\n')] at hothers
      rw [hsecond]
      simp only [parse, hjoined, hfront, nodesOfTokens_of_paired hothers, hended]
      rfl
    · rw [← paired?_shift (1 + first.toList.count '\n')] at hothers
      have hback := nodesOfTokens_append hothers []
      rw [List.append_nil] at hback
      rw [hsecond]
      simp only [parse, hjoined, hfront, hback, hfault]
      cases last <;> rfl
  · rw [hparse] at h
    contradiction

theorem parse_joined_return :
    parse "# a\nA=1 \r" = .ok { nodes := [.comment " a", .entry { name := "A", value := "1" }] } ∧
      parse ("# a\nA=1 \r" ++ "\n" ++ "B='x\ny'\nC") =
        .error { cause := .missingAssignment "C", position := { line := 5, column := 2 } } := by
  have hfirst : parse "# a\nA=1 \r" =
      .ok { nodes := [.comment " a", .entry { name := "A", value := "1" }] } := by
    decide +kernel
  have hsecond : parse "B='x\ny'\nC" =
      .error { cause := .missingAssignment "C", position := { line := 3, column := 2 } } := by
    decide +kernel
  refine ⟨hfirst, ?_⟩
  rw [parse_joined rfl hfirst, hsecond]
  decide +kernel

end Document

end SecretDotenv.Dotenv
