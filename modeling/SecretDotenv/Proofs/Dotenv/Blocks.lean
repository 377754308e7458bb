import SecretDotenv.Proofs.Dotenv.Concatenation
import SecretDotenv.Proofs.Dotenv.Placeless
import SecretDotenv.Proofs.Text.Pieces

/-! Values over several lines. Front matter is the lines between two lines of dashes; JSON ends
with the first closing brace at the start of a line. A block is read as it is, and what follows
it is read as if it stood alone; a block that nothing closes is open to the end of the text. -/
namespace SecretDotenv.Dotenv

open SecretDotenv.Text

theorem withoutReturn_append (line : List Char) : withoutReturn (line ++ ['\r']) = line := by
  simp [withoutReturn]

theorem takeLine_break {line ending : List Char} (rest : List Char) (p : Position)
    (hline : '\n' ∉ line) (hlast : line.getLast? ≠ some '\r') (hending : ending ∈ lineBreaks) :
    takeLine ⟨line ++ (ending ++ rest), p⟩ = (line, ⟨rest, p.over (line ++ ending)⟩) := by
  simp only [lineBreaks, List.mem_cons, List.not_mem_nil, or_false] at hending
  rcases hending with rfl | rfl
  · rw [List.singleton_append, takeLine_append hline, withoutReturn, if_neg hlast]
  · have hreturn : '\n' ∉ line ++ ['\r'] := by simpa using hline
    have htake : takeLine ⟨(line ++ ['\r']) ++ '\n' :: rest, p⟩ =
        (withoutReturn (line ++ ['\r']), ⟨rest, p.over (line ++ ['\r'] ++ ['\n'])⟩) :=
      takeLine_append hreturn
    rw [withoutReturn_append] at htake
    simpa using htake

def NoDashes (text : List Char) : Prop :=
  ∀ line ∈ splitOn (· == '\n') text, withoutReturn line ≠ ['-', '-', '-']

instance : DecidablePred NoDashes :=
  fun _ => List.decidableBAll (fun line => withoutReturn line ≠ ['-', '-', '-']) _

theorem noDashes_nil : NoDashes [] := by
  simp [NoDashes, splitOn, withoutReturn]

theorem beq_lineFeed_of_not_mem {line : List Char} (h : '\n' ∉ line) :
    ∀ x ∈ line, (x == '\n') = false := by
  intro x hx
  exact beq_false_of_ne (ne_of_mem_of_not_mem hx h)

theorem noDashes_append {line : List Char} (rest : List Char) (h : '\n' ∉ line) :
    NoDashes (line ++ '\n' :: rest) ↔ withoutReturn line ≠ ['-', '-', '-'] ∧ NoDashes rest := by
  rw [NoDashes, splitOn_append (beq_lineFeed_of_not_mem h) rfl, List.forall_mem_cons]
  rfl

theorem noDashes_takeLine (c : Cursor) :
    NoDashes c.rest ↔ (takeLine c).1 ≠ ['-', '-', '-'] ∧ NoDashes (takeLine c).2.rest := by
  obtain ⟨rest, p⟩ := c
  by_cases hmem : '\n' ∈ rest
  · obtain ⟨line, behind, rfl, hline⟩ := List.eq_append_cons_of_mem hmem
    rw [takeLine_append hline, noDashes_append behind hline]
  · rw [takeLine_last (c := ⟨rest, p⟩) hmem, NoDashes,
      splitOn_of_not (beq_lineFeed_of_not_mem hmem), List.forall_mem_singleton]
    exact (and_iff_left noDashes_nil).symm

structure IsBlockLine (line : List Char) : Prop where
  unbroken : '\n' ∉ line
  last : line.getLast? ≠ some '\r'
  ne_dashes : line ≠ ['-', '-', '-']

inductive WritesLines : List (List Char) → List Char → Prop where
  | nil : WritesLines [] []
  | cons {line ending written : List Char} {lines : List (List Char)} (hline : IsBlockLine line)
      (hending : ending ∈ lineBreaks) (hrest : WritesLines lines written) :
      WritesLines (line :: lines) (line ++ (ending ++ written))

def withoutFeed (text : List Char) : List Char :=
  if text.getLast? = some '\n' then text.dropLast else text

theorem flatMap_feed {lines : List (List Char)} (h : lines ≠ []) :
    lines.flatMap (· ++ ['\n']) = ['\n'].intercalate lines ++ ['\n'] := by
  induction lines with
  | nil => exact absurd rfl h
  | cons line lines ih =>
    cases lines with
    | nil => simp
    | cons next lines =>
      rw [List.flatMap_cons, ih (List.cons_ne_nil _ _), List.intercalate_cons_cons]
      simp

theorem withoutFeed_lines (lines : List (List Char)) :
    withoutFeed (lines.flatMap (· ++ ['\n'])) = ['\n'].intercalate lines := by
  cases lines with
  | nil => rfl
  | cons line lines => simp [withoutFeed, flatMap_feed (List.cons_ne_nil line lines)]

theorem readYaml_written (start : Position) {lines : List (List Char)} {written ending : List Char}
    (rest : List Char) (p : Position) (text : List Char) (hlines : WritesLines lines written)
    (hending : ending ∈ lineBreaks) :
    readYaml start ⟨written ++ (['-', '-', '-'] ++ (ending ++ rest)), p⟩ text =
      (.ok { kind := .yaml
             text := String.ofList (withoutFeed (text ++ lines.flatMap (· ++ ['\n'])))
             position := start },
        ⟨rest, p.over (written ++ (['-', '-', '-'] ++ ending))⟩) := by
  induction hlines generalizing p text with
  | nil =>
    rw [List.nil_append, List.nil_append, readYaml_line (by simp),
      takeLine_break rest p (by decide) (by decide) hending]
    simp [withoutFeed]
  | cons hline hbreak hrest ih =>
    rw [List.append_assoc, List.append_assoc, readYaml_line (by simp),
      takeLine_break _ p hline.unbroken hline.last hbreak, if_neg hline.ne_dashes, ih]
    simp [Position.over_append]

/-- A block is open to the end of the text exactly if no line behind it is three dashes. -/
theorem readYaml_open_iff (start : Position) (c : Cursor) (text : List Char) :
    (readYaml start c text).1 =
        .error { cause := .unterminatedCapture .yaml start.line, position := c.last } ↔
      NoDashes c.rest := by
  fun_induction readYaml start c text with
  | case1 c text hrest => simp [fail, Cursor.last, hrest, noDashes_nil]
  | case2 c text hrest line hline =>
    rw [noDashes_takeLine]
    simp [line, hline]
  | case3 c text hrest line hline ih =>
    rw [noDashes_takeLine, ← (takeLine_onto c []).2.2, ih]
    exact (and_iff_right hline).symm

theorem readValue_dashes_break {options : ReaderOptions} (hyaml : options.allowYaml)
    {opening : List Char} (hopening : opening ∈ lineBreaks) (rest : List Char) (p : Position) :
    readValue options ⟨['-', '-', '-'] ++ (opening ++ rest), p⟩ =
      readYaml p ⟨rest, p.over (['-', '-', '-'] ++ opening)⟩ [] := by
  have hbreak : atLineBreak (opening ++ rest) := by
    simp only [lineBreaks, List.mem_cons, List.not_mem_nil, or_false] at hopening
    rcases hopening with rfl | rfl <;> rfl
  have htake := takeLine_break rest p (by decide : '\n' ∉ ['-', '-', '-']) (by decide) hopening
  have hfront : atFrontMatter (['-', '-', '-'] ++ (opening ++ rest)) := hbreak
  have hblank : atLineBreak (['-', '-', '-'] ++ (opening ++ rest)) = false := rfl
  unfold readValue
  rw [List.cons_append, skipWhile_value _ _ rfl]
  simp only [List.cons_append, List.nil_append] at hfront hblank htake ⊢
  simp [hfront, hblank, hyaml, htake]

/-- A text that begins as JSON does and has a closing brace at the start of a line where it
ends and nowhere else. -/
structure IsJsonBlock (block : List Char) : Prop where
  opens : block.head? = some '{'
  closes : ['\n', '}'] <:+ block
  once : ¬ ['\n', '}'] <:+: block.dropLast

theorem closed_cons_iff (c : Char) (text : List Char) :
    ['\n', '}'] <:+: (c :: text).reverse ↔
      (c = '}' ∧ text.head? = some '\n') ∨ ['\n', '}'] <:+: text.reverse := by
  have hlast : ['\n', '}'] <:+ text.reverse ++ [c] ↔ c = '}' ∧ text.head? = some '\n' := by
    cases text with
    | nil => simp [List.suffix_cons_iff]
    | cons d text => simp [← List.reverse_prefix, and_comm, eq_comm]
  rw [List.reverse_cons, List.infix_concat_iff, hlast]

theorem readJson_append (start : Position) {front : List Char} (rest : List Char) (p : Position)
    (text : List Char) (h : ¬ ['\n', '}'] <:+: text.reverse ++ front) :
    readJson start (front ++ rest) p text =
      readJson start rest (p.over front) (front.reverse ++ text) := by
  induction front generalizing p text with
  | nil => rfl
  | cons c front ih =>
    have hopen : ¬ (c = '}' ∧ text.head? = some '\n') := fun hclosed =>
      h (((closed_cons_iff c text).2 (Or.inl hclosed)).trans ⟨[], front, by simp⟩)
    rw [List.cons_append, readJson, if_neg (by simpa using hopen), ih _ _ (by simpa using h)]
    simp

theorem readJson_open_iff (start : Position) (rest : List Char) (p : Position) (text : List Char)
    (h : ¬ ['\n', '}'] <:+: text.reverse) :
    (readJson start rest p text).1 =
        .error { cause := .unterminatedCapture .json start.line, position := p.over rest } ↔
      ¬ ['\n', '}'] <:+: text.reverse ++ rest := by
  fun_induction readJson start rest p text with
  | case1 => simpa [fail] using h
  | case2 c rest p text hclosed =>
    have hinfix : ['\n', '}'] <:+: (c :: text).reverse :=
      (closed_cons_iff c text).2 (Or.inl (by simpa using hclosed))
    have hwhole : ['\n', '}'] <:+: text.reverse ++ c :: rest := by
      simpa using hinfix.trans (List.prefix_append _ rest).isInfix
    simp [hwhole]
  | case3 c rest p text hopen ih =>
    have hnone : ¬ ['\n', '}'] <:+: (c :: text).reverse := by
      rw [closed_cons_iff]
      exact not_or.2 ⟨by simpa using hopen, h⟩
    rw [Position.over_cons, ih hnone, List.reverse_cons, List.append_assoc, List.singleton_append]

theorem readValue_brace {options : ReaderOptions} (hjson : options.allowJson) (rest : List Char)
    (p : Position) :
    readValue options ⟨'{' :: rest, p⟩ = readJson p ('{' :: rest) p [] := by
  unfold readValue
  rw [skipWhile_value _ _ rfl]
  simp [atLineBreak, hjson]

theorem readJson_block (start : Position) {block : List Char} (rest : List Char) (p : Position)
    (h : IsJsonBlock block) :
    readJson start (block ++ rest) p [] =
      (.ok { kind := .json, text := String.ofList block, position := start },
        ⟨rest, p.over block⟩) := by
  obtain ⟨front, rfl⟩ := h.closes
  have honce := h.once
  have hfront : front ++ ['\n', '}'] = (front ++ ['\n']) ++ ['}'] := by simp
  rw [hfront, List.dropLast_concat] at honce
  rw [hfront, List.append_assoc, readJson_append start _ p [] (by simpa using honce)]
  simp [readJson, Position.over_append]

/-- The blocks that a reader accepts: what kind of value they are, its text, and how they are
written. -/
inductive Block (options : ReaderOptions) : TokenKind → List Char → List Char → Prop where
  | yaml {opening closing written : List Char} {lines : List (List Char)}
      (hon : options.allowYaml) (hopening : opening ∈ lineBreaks)
      (hlines : WritesLines lines written) (hclosing : closing ∈ lineBreaks) :
      Block options .yaml (['\n'].intercalate lines)
        (['-', '-', '-'] ++ (opening ++ (written ++ (['-', '-', '-'] ++ closing))))
  | json {block : List Char} (hon : options.allowJson) (h : IsJsonBlock block) :
      Block options .json block block

theorem readValue_block {options : ReaderOptions} {kind : TokenKind} {text written : List Char}
    (rest : List Char) (p : Position) (h : Block options kind text written) :
    readValue options ⟨written ++ rest, p⟩ =
      (.ok { kind, text := String.ofList text, position := p }, ⟨rest, p.over written⟩) := by
  cases h with
  | yaml hon hopening hlines hclosing =>
    rw [List.append_assoc, List.append_assoc, List.append_assoc, List.append_assoc,
      readValue_dashes_break hon hopening, readYaml_written _ _ _ _ hlines hclosing,
      List.nil_append, withoutFeed_lines]
    simp [Position.over_append]
  | json hon h =>
    obtain ⟨more, rfl⟩ := List.head?_eq_some_iff.1 h.opens
    rw [List.cons_append, readValue_brace hon, ← List.cons_append, readJson_block p rest p h]

namespace Reader

/-- A reader gives a name, and then fails at the end of the text in a capture that began in the
line where it stood. -/
structure LeavesOpen (r : Reader) (name : String) (capture : Capture) : Prop where
  contents : r.contents = ([(.name, name)], some (.unterminatedCapture capture 0))
  name : contentOf (r.given 0) = .ok (some (.name, name))
  value : r.given 1 = .error
    { cause := .unterminatedCapture capture r.cursor.position.line, position := r.cursor.last }

theorem leavesOpen_iff {options : ReaderOptions} {name : String} {written : List Char}
    {capture : Capture} (hne : name ≠ "") (hname : ∀ c ∈ name.toList, c.isAlphanum ∨ c = '_')
    {p : Position} (hp : p = Position.over {} (name.toList ++ ['='])) :
    (ofText (name ++ "=" ++ String.ofList written) options).LeavesOpen name capture ↔
      (readValue options ⟨written, p⟩).1 =
        .error { cause := .unterminatedCapture capture p.line, position := p.over written } := by
  have hnext := next_assignment options written hne hname
  rw [← hp] at hnext
  have hline : p.line = 1 := by
    have hnone : '\n' ∉ name.toList := fun hmem => absurd (hname _ hmem) (by decide)
    simp [hp, Position.line_over, List.count_eq_zero.2 hnone]
  have hlast : (ofText (name ++ "=" ++ String.ofList written) options).cursor.last =
      p.over written := by
    rw [hp, ← Position.over_append]
    simp [ofText, Cursor.last]
  rcases hread : readValue options ⟨written, p⟩ with ⟨result, c⟩
  have hvalue := next_value hread
  constructor
  · intro h
    have hgiven := h.value
    rw [given_succ, hnext, given, after, hvalue, hlast] at hgiven
    cases result with
    | error e => simpa [ofText, hline, Except.map] using hgiven
    | ok t => simp [Except.map] at hgiven
  · rintro rfl
    refine ⟨?_, ?_, ?_⟩
    · rw [contents, tokens_of_some hnext, tokens_of_error hvalue]
      simp [Token.content, ParseError.content, ParseError.Cause.placeless]
    · rw [given, after, hnext]
      simp [contentOf, Except.map, Except.mapError, Token.content]
    · rw [given_succ, hnext, given, after, hvalue, hlast, hline]
      rfl

end Reader

/-- A block is read as its text, and what follows it is read as it is read alone; front matter
that no line of three dashes closes, and JSON that no brace at the start of a line closes, are
open to the end of the text, and no others are. -/
theorem reads_blocks {options : ReaderOptions} {name : String} (rest : String) (hne : name ≠ "")
    (hname : ∀ c ∈ name.toList, c.isAlphanum ∨ c = '_') :
    (∀ kind value written, Block options kind value.toList written.toList →
      (Reader.ofText (name ++ "=" ++ written ++ rest) options).Assigns
        (Reader.ofText rest options) name (kind, value)) ∧
    (options.allowYaml → ∀ opening ∈ lineBreaks,
      ((Reader.ofText (name ++ "=---" ++ String.ofList opening ++ rest) options).LeavesOpen name
        .yaml ↔ NoDashes rest.toList)) ∧
    (options.allowJson →
      ((Reader.ofText (name ++ "=\x7b" ++ rest) options).LeavesOpen name .json ↔
        ¬ ['\n', '}'] <:+: rest.toList)) := by
  refine ⟨fun kind value written h => ?_, fun hyaml opening hopening => ?_, fun hjson => ?_⟩
  · have hread : ∀ p, ∃ t q, readValue options ⟨written.toList ++ rest.toList, p⟩ =
        (.ok t, ⟨rest.toList, q⟩) ∧ t.content = (kind, value) := fun p =>
      ⟨_, _, readValue_block rest.toList p h, by simp [Token.content]⟩
    have hassigns := Reader.assigns_of_readValue hne hname hread
    rwa [String.ofList_toList, String.ofList_toList] at hassigns
  · have hwritten : name ++ "=---" ++ String.ofList opening ++ rest =
        name ++ "=" ++ String.ofList (['-', '-', '-'] ++ (opening ++ rest.toList)) := by
      rw [← String.toList_inj]
      simp
    rw [hwritten, Reader.leavesOpen_iff hne hname rfl, readValue_dashes_break hyaml hopening]
    generalize Position.over {} (name.toList ++ ['=']) = p
    have hlast : p.over (['-', '-', '-'] ++ (opening ++ rest.toList)) =
        Cursor.last ⟨rest.toList, p.over (['-', '-', '-'] ++ opening)⟩ := by
      rw [Cursor.last, ← Position.over_append, List.append_assoc]
    rw [hlast]
    exact readYaml_open_iff p _ []
  · have hwritten : name ++ "=\x7b" ++ rest =
        name ++ "=" ++ String.ofList ('{' :: rest.toList) := by
      rw [← String.toList_inj]
      simp
    rw [hwritten, Reader.leavesOpen_iff hne hname rfl, readValue_brace hjson,
      readJson_open_iff _ _ _ _ (by simp)]
    simp [List.infix_cons_iff]

/-- An empty line, two dashes, and both line breaks; a brace that closes nothing; what follows is
a fault, and front matter that would need a third dash. -/
theorem reads_blocks_mixed :
    let options : ReaderOptions := { allowJson := true, allowYaml := true }
    let rest := " '\n--"
    ((Reader.ofText ("A_1" ++ "=" ++ "---\r\n\n--\r\n---\n" ++ rest) options).Assigns
        (Reader.ofText rest options) "A_1" (.yaml, "\n--") ∧
      (Reader.ofText ("A_1" ++ "=" ++ "\x7b \x7d\n\x7d" ++ rest) options).Assigns
        (Reader.ofText rest options) "A_1" (.json, "\x7b \x7d\n\x7d")) ∧
    (Reader.ofText ("A_1" ++ "=---" ++ "\r\n" ++ rest) options).LeavesOpen "A_1" .yaml ∧
      (Reader.ofText ("A_1" ++ "=\x7b" ++ rest) options).LeavesOpen "A_1" .json := by
  intro options rest
  have hne : "A_1" ≠ "" := by decide
  have hname : ∀ c ∈ "A_1".toList, c.isAlphanum ∨ c = '_' := by simp
  have hlines : WritesLines [[], ['-', '-']]
      ([] ++ (['\n'] ++ (['-', '-'] ++ (['\r', '\n'] ++ [])))) :=
    .cons ⟨by decide, by decide, by decide⟩ (by decide) <|
    .cons ⟨by decide, by decide, by decide⟩ (by decide) .nil
  have hyaml : Block options .yaml "\n--".toList "---\r\n\n--\r\n---\n".toList :=
    Block.yaml rfl (by decide : ['\r', '\n'] ∈ lineBreaks) hlines (by decide : ['\n'] ∈ lineBreaks)
  have hjson : Block options .json "\x7b \x7d\n\x7d".toList "\x7b \x7d\n\x7d".toList :=
    .json rfl ⟨by decide, by decide, by decide⟩
  obtain ⟨hblock, hdashes, hbrace⟩ := @reads_blocks options "A_1" rest hne hname
  exact ⟨⟨hblock _ _ _ hyaml, hblock _ _ _ hjson⟩,
    (hdashes rfl ['\r', '\n'] (by decide)).2 (by decide), (hbrace rfl).2 (by decide)⟩

end SecretDotenv.Dotenv
