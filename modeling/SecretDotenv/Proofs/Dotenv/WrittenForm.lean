import Mathlib.Tactic.SplitIfs
import SecretDotenv.Dotenv.Written

/-! Reading undoes writing. Each lemma says what one reader takes from the text
that the writer put in front of an arbitrary rest, so that the document is read
node by node. A written comment loses a carriage return at its end, which is
read as a part of the line break; everything else comes back as it was. -/
namespace SecretDotenv.Dotenv

open SecretDotenv.Text

theorem toNat_of_isAlphanum {c : Char} (h : c.isAlphanum) :
    (48 ≤ c.toNat ∧ c.toNat ≤ 57) ∨ (65 ≤ c.toNat ∧ c.toNat ≤ 90) ∨
      (97 ≤ c.toNat ∧ c.toNat ≤ 122) := by
  unfold Char.isAlphanum Char.isAlpha Char.isUpper Char.isLower Char.isDigit at h
  simp only [Bool.or_eq_true, decide_eq_true_eq, UInt32.le_iff_toNat_le, ge_iff_le] at h
  simp only [Char.toNat]
  simpa [or_comm, or_assoc, or_left_comm] using h

theorem isBlank_eq_false_of_isBareSafe {c : Char} (h : isBareSafe c) : isBlank c = false := by
  simp only [isBareSafe, Bool.or_eq_true, decide_eq_true_eq] at h
  rcases h with h | h
  · have hrange := toNat_of_isAlphanum h
    simp [isBlank]
    omega
  · simp only [List.mem_cons, List.not_mem_nil, or_false] at h
    rcases h with rfl | rfl | rfl | rfl | rfl | rfl | rfl | rfl | rfl <;> rfl

theorem isBareSafe_of_isNameChar {c : Char} (h : isNameChar c) : isBareSafe c := by
  simp only [isNameChar, Bool.or_eq_true, beq_iff_eq] at h
  rcases h with h | rfl
  · simp [isBareSafe, h]
  · rfl

theorem ne_of_class {p : Char → Bool} {c x : Char} (hc : p c) (hx : p x = false) : c ≠ x := by
  rintro rfl
  simp [hx] at hc

theorem atLineBreak_cons {c : Char} (rest : List Char) (hn : c ≠ '\n') (hr : c ≠ '\r') :
    atLineBreak (c :: rest) = false := by
  unfold atLineBreak
  split <;> simp_all

theorem atLineBreak_of_isBareSafe {c : Char} (rest : List Char) (h : isBareSafe c) :
    atLineBreak (c :: rest) = false :=
  atLineBreak_cons rest (ne_of_class h rfl) (ne_of_class h rfl)

theorem Position.over_append (p : Position) (a b : List Char) :
    p.over (a ++ b) = (p.over a).over b :=
  List.foldl_append

@[simp] theorem Position.over_cons (p : Position) (c : Char) (text : List Char) :
    p.over (c :: text) = (p.after c).over text := rfl

@[simp] theorem Position.over_nil (p : Position) : p.over [] = p := rfl

theorem Cursor.skipWhile_append {q : Char → Bool} {taken rest : List Char} (p : Position)
    (htaken : ∀ c ∈ taken, q c) (hrest : ∀ c ∈ rest.head?, q c = false) :
    Cursor.skipWhile q ⟨taken ++ rest, p⟩ = ⟨rest, p.over taken⟩ := by
  have htake : rest.takeWhile q = [] := by
    cases rest with
    | nil => rfl
    | cons c rest => simp [hrest c rfl]
  have hdrop : rest.dropWhile q = rest := by
    cases rest with
    | nil => rfl
    | cons c rest => simp [hrest c rfl]
  simp [Cursor.skipWhile, Cursor.skip, List.takeWhile_append_of_pos htaken,
    List.dropWhile_append_of_pos htaken, htake, hdrop]

theorem readName_append (start : Position) (name rest : List Char) (p : Position)
    (before : List Char) (hname : ∀ c ∈ name, isNameChar c) (hne : before ≠ [] ∨ name ≠ []) :
    readName start (name ++ '=' :: rest) p before false =
      (.ok { kind := .name, text := String.ofList (before.reverse ++ name), position := start },
        ⟨rest, p.over (name ++ ['='])⟩) := by
  induction name generalizing p before with
  | nil =>
    have hbefore : before ≠ [] := by simpa using hne
    simp [readName, hbefore]
  | cons c name ih =>
    have hc : isNameChar c := hname c List.mem_cons_self
    have heq : c ≠ '=' := ne_of_class hc rfl
    have hbreak : atLineBreak (c :: (name ++ '=' :: rest)) = false :=
      atLineBreak_of_isBareSafe _ (isBareSafe_of_isNameChar hc)
    rw [List.cons_append, readName, if_neg heq, hbreak]
    simp only [Bool.false_eq_true, if_false, hc, if_true]
    rw [ih (p.after c) (c :: before) (fun x hx => hname x (List.mem_cons_of_mem _ hx))
      (Or.inl (List.cons_ne_nil _ _))]
    simp

theorem readNameOrComment_name {blank name : List Char} (rest : List Char) (p : Position)
    (hblank : ∀ c ∈ blank, isBlank c) (hname : ∀ c ∈ name, isNameChar c) (hne : name ≠ []) :
    readNameOrComment ⟨blank ++ (name ++ '=' :: rest), p⟩ =
      (.ok (some { kind := .name, text := String.ofList name, position := p.over blank }),
        ⟨rest, p.over (blank ++ (name ++ ['=']))⟩) := by
  cases name with
  | nil => exact absurd rfl hne
  | cons c name =>
    have hc : isNameChar c := hname c List.mem_cons_self
    have hskip : Cursor.skipWhile isBlank ⟨blank ++ (c :: name ++ '=' :: rest), p⟩ =
        ⟨c :: name ++ '=' :: rest, p.over blank⟩ :=
      Cursor.skipWhile_append _ hblank (by
        simpa using isBlank_eq_false_of_isBareSafe (isBareSafe_of_isNameChar hc))
    have hhash : c ≠ '#' := ne_of_class hc rfl
    unfold readNameOrComment
    rw [hskip]
    simp only [List.cons_append]
    split
    · contradiction
    · next h => exact absurd (List.cons.inj h).1 hhash
    · rw [← List.cons_append, readName_append _ _ _ _ _ hname (Or.inr (List.cons_ne_nil _ _))]
      simp [Except.map, Position.over_append]

def withoutReturn (line : List Char) : List Char :=
  if line.getLast? = some '\r' then line.dropLast else line

theorem takeLine_append {line rest : List Char} {p : Position} (hline : '\n' ∉ line) :
    takeLine ⟨line ++ '\n' :: rest, p⟩ = (withoutReturn line, ⟨rest, p.over (line ++ ['\n'])⟩) := by
  have htaken : ∀ c ∈ line, (c != '\n') = true := by
    intro c hc
    simpa using fun h : c = '\n' => hline (h ▸ hc)
  simp [takeLine, Cursor.skip, withoutReturn, List.takeWhile_append_of_pos htaken,
    List.dropWhile_append_of_pos htaken]

theorem readNameOrComment_comment {blank line : List Char} (rest : List Char) (p : Position)
    (hblank : ∀ c ∈ blank, isBlank c) (hline : '\n' ∉ line) :
    readNameOrComment ⟨blank ++ '#' :: (line ++ '\n' :: rest), p⟩ =
      (.ok (some { kind := .comment, text := String.ofList (withoutReturn line),
                   position := p.over blank }),
        ⟨rest, p.over (blank ++ '#' :: (line ++ ['\n']))⟩) := by
  have hskip : Cursor.skipWhile isBlank ⟨blank ++ '#' :: (line ++ '\n' :: rest), p⟩ =
      ⟨'#' :: (line ++ '\n' :: rest), p.over blank⟩ :=
    Cursor.skipWhile_append _ hblank (by simp [isBlank])
  unfold readNameOrComment
  rw [hskip]
  simp [Cursor.skip, takeLine_append hline, Position.over_append]

theorem readEscaped_quote (quote : Char) (cause : ParseError.Cause) (token : String → Token)
    (rest : List Char) (p : Position) (text : List Char) :
    readEscaped quote cause token (quote :: rest) p text =
      (.ok (token (String.ofList text.reverse)), ⟨rest, p.after quote⟩) := by
  rw [readEscaped.eq_def]
  simp

theorem readEscaped_plain {quote c : Char} (cause : ParseError.Cause) (token : String → Token)
    (rest : List Char) (p : Position) (text : List Char) (hquote : c ≠ quote) (hback : c ≠ '\\') :
    readEscaped quote cause token (c :: rest) p text =
      readEscaped quote cause token rest (p.after c) (c :: text) := by
  rw [readEscaped.eq_def]
  simp [hquote, hback]

theorem readEscaped_escape {quote next e : Char} (cause : ParseError.Cause)
    (token : String → Token) (rest : List Char) (p : Position) (text : List Char)
    (hquote : '\\' ≠ quote) (hnext : next ≠ 'u') (h : escaped? quote next = some e) :
    readEscaped quote cause token ('\\' :: next :: rest) p text =
      readEscaped quote cause token rest ((p.after '\\').after next) (e :: text) := by
  rw [readEscaped.eq_def]
  simp [hquote, h]

theorem hexRun_of_digits {digits : List Char} (rest : List Char) (hlength : digits.length = 4)
    (hdigits : ∀ d ∈ digits, isHexDigit d) : hexRun (digits ++ rest) = digits := by
  have hall : (digits ++ []).takeWhile isHexDigit = digits ++ [] :=
    List.takeWhile_append_of_pos hdigits
  rw [List.append_nil] at hall
  rw [hexRun, ← hlength, List.take_left, hall]

theorem readEscaped_unicode {quote c : Char} {digits : List Char} (cause : ParseError.Cause)
    (token : String → Token) (rest : List Char) (p : Position) (text : List Char)
    (hquote : '\\' ≠ quote) (hlength : digits.length = 4) (hdigits : ∀ d ∈ digits, isHexDigit d)
    (h : hexNumber digits = c.toNat) :
    readEscaped quote cause token ('\\' :: 'u' :: (digits ++ rest)) p text =
      readEscaped quote cause token rest (p.over ('\\' :: 'u' :: digits)) (c :: text) := by
  have hvalid : (hexNumber digits).isValidChar := h ▸ c.valid
  have hcharacter : unicodeEscape digits = [c] := by
    simp only [unicodeEscape, hlength, hvalid, decide_true, Bool.and_self, if_true]
    rw [h, Char.ofNat_toNat]
  rw [readEscaped.eq_def]
  simp [hquote, hexRun_of_digits rest hlength hdigits, hlength, hcharacter]

/-- The ways to write a character between delimiters `quote`. -/
inductive Spells (quote : Char) : Char → List Char → Prop where
  | plain {c : Char} (hback : c ≠ '\\') (hquote : c ≠ quote) : Spells quote c [c]
  | newline : Spells quote '\n' ['\\', 'n']
  | carriageReturn : Spells quote '\r' ['\\', 'r']
  | tab : Spells quote '\t' ['\\', 't']
  | backspace : Spells quote '\x08' ['\\', 'b']
  | mark {c : Char} (h : c ∈ ['\\', '"', '\'', quote]) : Spells quote c ['\\', c]
  | unicode {c : Char} {digits : List Char} (hlength : digits.length = 4)
      (hdigits : ∀ d ∈ digits, isHexDigit d) (h : hexNumber digits = c.toNat) :
      Spells quote c ('\\' :: 'u' :: digits)

inductive SpellsAll (quote : Char) : List Char → List Char → Prop where
  | nil : SpellsAll quote [] []
  | cons {c : Char} {part value written : List Char} (h : Spells quote c part)
      (hrest : SpellsAll quote value written) : SpellsAll quote (c :: value) (part ++ written)

def delimiters : List Char := ['"', '\x60']

theorem escaped?_mark {quote c : Char} (hquote : quote ∈ delimiters)
    (h : c ∈ ['\\', '"', '\'', quote]) : c ≠ 'u' ∧ escaped? quote c = some c := by
  simp only [delimiters, List.mem_cons, List.not_mem_nil, or_false] at hquote h
  rcases hquote with rfl | rfl <;> rcases h with rfl | rfl | rfl | rfl <;> decide

theorem readEscaped_spells {quote c : Char} {part : List Char} (cause : ParseError.Cause)
    (token : String → Token) (rest : List Char) (p : Position) (text : List Char)
    (hquote : quote ∈ delimiters) (h : Spells quote c part) :
    readEscaped quote cause token (part ++ rest) p text =
      readEscaped quote cause token rest (p.over part) (c :: text) := by
  have hback : '\\' ≠ quote := by
    rintro rfl
    exact absurd hquote (by decide)
  cases h with
  | plain hplain hother => exact readEscaped_plain cause token rest p text hother hplain
  | newline | carriageReturn | tab | backspace =>
    exact readEscaped_escape cause token rest p text hback (by decide) rfl
  | mark h =>
    obtain ⟨hother, hmark⟩ := escaped?_mark hquote h
    exact readEscaped_escape cause token rest p text hback hother hmark
  | unicode hlength hdigits h =>
    exact readEscaped_unicode cause token rest p text hback hlength hdigits h

theorem readEscaped_spellsAll {quote : Char} {value written : List Char} (cause : ParseError.Cause)
    (token : String → Token) (rest : List Char) (p : Position) (text : List Char)
    (hquote : quote ∈ delimiters) (h : SpellsAll quote value written) :
    readEscaped quote cause token (written ++ quote :: rest) p text =
      (.ok (token (String.ofList (text.reverse ++ value))),
        ⟨rest, p.over (written ++ [quote])⟩) := by
  induction h generalizing p text with
  | nil => simp [readEscaped_quote]
  | cons h _ ih =>
    rw [List.append_assoc, readEscaped_spells _ _ _ _ _ hquote h, ih]
    simp [Position.over_append]

theorem spells_escapeChar (c : Char) : Spells '"' c (escapeChar c) := by
  unfold escapeChar
  split_ifs with h1 h2 h3 h4 h5 h6
  · subst h1
    exact .mark (by decide)
  · subst h2
    exact .mark (by decide)
  · exact h3 ▸ .newline
  · exact h4 ▸ .carriageReturn
  · exact h5 ▸ .tab
  · exact h6 ▸ .backspace
  · exact .plain h1 h2

theorem spellsAll_escaped (value : List Char) :
    SpellsAll '"' value (value.flatMap escapeChar) := by
  induction value with
  | nil => exact .nil
  | cons c value ih => exact .cons (spells_escapeChar c) ih

theorem readEscaped_escaped (cause : ParseError.Cause) (token : String → Token)
    (value rest : List Char) (p : Position) (text : List Char) :
    readEscaped '"' cause token (value.flatMap escapeChar ++ '"' :: rest) p text =
      (.ok (token (String.ofList (text.reverse ++ value))),
        ⟨rest, p.over (value.flatMap escapeChar ++ ['"'])⟩) :=
  readEscaped_spellsAll cause token rest p text (by decide) (spellsAll_escaped value)

theorem scalarRun_append (first : Bool) {value : List Char} (rest : List Char)
    (hvalue : ∀ c ∈ value, isBareSafe c) :
    scalarRun first (value ++ '\n' :: rest) = (value, '\n' :: rest) := by
  induction value generalizing first with
  | nil => simp [scalarRun, atLineBreak]
  | cons c value ih =>
    have hc : isBareSafe c := hvalue c List.mem_cons_self
    have hhash : (c == '#') = false := by simpa using ne_of_class hc rfl
    rw [List.cons_append, scalarRun, atLineBreak_of_isBareSafe _ hc, hhash,
      ih false (fun x hx => hvalue x (List.mem_cons_of_mem _ hx))]
    simp

theorem trimEnd_of_isBareSafe {value : List Char} (hvalue : ∀ c ∈ value, isBareSafe c) :
    trimEnd value = value := by
  unfold trimEnd
  have hkeep : value.reverse.dropWhile isBlank = value.reverse := by
    cases hr : value.reverse with
    | nil => rfl
    | cons c rest =>
      have hc : c ∈ value := by
        rw [← List.mem_reverse, hr]
        exact List.mem_cons_self
      simp [isBlank_eq_false_of_isBareSafe (hvalue c hc)]
  rw [hkeep, List.reverse_reverse]

theorem atFrontMatter_append {value : List Char} (rest : List Char)
    (hvalue : ∀ c ∈ value, isBareSafe c) (hdashes : value ≠ ['-', '-', '-']) :
    atFrontMatter (value ++ '\n' :: rest) = false := by
  match value, hvalue, hdashes with
  | [], _, _ => rfl
  | [a], _, _ => unfold atFrontMatter; split <;> simp_all
  | [a, b], _, _ => unfold atFrontMatter; split <;> simp_all
  | [a, b, c], _, hdashes => unfold atFrontMatter; split <;> simp_all
  | a :: b :: c :: d :: more, hvalue, _ =>
    have hd : isBareSafe d := hvalue d (by simp)
    simp only [List.cons_append]
    unfold atFrontMatter
    split
    · next h =>
      have hrest := (List.cons.inj (List.cons.inj (List.cons.inj h).2).2).2
      rw [← hrest]
      exact atLineBreak_of_isBareSafe _ hd
    · rfl

theorem isValue_scalarKind (text : String) : (scalarKind text).isValue := by
  unfold scalarKind
  split
  · rfl
  · split
    · rfl
    · split <;> rfl

theorem skipWhile_value {c : Char} (rest : List Char) (p : Position) (hc : isBlank c = false) :
    Cursor.skipWhile (fun x => isBlank x && x != '\n' && x != '\r') ⟨c :: rest, p⟩ =
      ⟨c :: rest, p⟩ :=
  Cursor.skipWhile_append p (fun x hx => absurd hx List.not_mem_nil) (by simp [hc])

theorem readValue_bare (options : ReaderOptions) {value : List Char} (rest : List Char)
    (p : Position) (hvalue : ∀ c ∈ value, isBareSafe c)
    (hyaml : options.allowYaml → value ≠ ['-', '-', '-']) :
    ∃ token, readValue options ⟨value ++ '\n' :: rest, p⟩ =
        (.ok token, ⟨'\n' :: rest, p.over value⟩) ∧
      token.kind.isValue ∧ token.text = String.ofList value := by
  cases value with
  | nil => exact ⟨_, rfl, rfl, rfl⟩
  | cons c value =>
    have hc : isBareSafe c := hvalue c List.mem_cons_self
    have hfront : (atFrontMatter (c :: (value ++ '\n' :: rest)) && options.allowYaml) = false := by
      cases hy : options.allowYaml with
      | false => simp
      | true => simpa using atFrontMatter_append rest hvalue (hyaml hy)
    refine ⟨Token.scalar (String.ofList (c :: value)) p, ?_, ?_, rfl⟩
    · unfold readValue
      rw [List.cons_append, skipWhile_value _ _ (isBlank_eq_false_of_isBareSafe hc)]
      have hbrace : c ≠ '{' := ne_of_class hc rfl
      have htick : c ≠ '\x60' := ne_of_class hc rfl
      simp only [List.isEmpty_cons, atLineBreak_of_isBareSafe _ hc, Bool.or_false,
        Bool.false_eq_true, if_false]
      split
      · next h => exact absurd (List.cons.inj h).1 (ne_of_class hc rfl)
      · next h => exact absurd (List.cons.inj h).1 (ne_of_class hc rfl)
      · have hrun := scalarRun_append true rest hvalue
        rw [List.cons_append] at hrun
        simp [hbrace, htick, hfront, hrun, trimEnd_of_isBareSafe hvalue, Cursor.skip]
    · exact isValue_scalarKind _

theorem readValue_quoted (options : ReaderOptions) (value rest : List Char) (p : Position) :
    readValue options ⟨'"' :: (value.flatMap escapeChar ++ '"' :: rest), p⟩ =
      (.ok { kind := .string .double, text := String.ofList value, position := p },
        ⟨rest, p.over ('"' :: (value.flatMap escapeChar ++ ['"']))⟩) := by
  unfold readValue
  rw [skipWhile_value _ _ rfl]
  simp [atLineBreak, readEscaped_escaped]

theorem readValue_writeValue (options : ReaderOptions) (value rest : List Char) (p : Position)
    (hyaml : options.allowYaml → value ≠ ['-', '-', '-']) :
    ∃ token, readValue options ⟨writeValue value ++ '\n' :: rest, p⟩ =
        (.ok token, ⟨'\n' :: rest, p.over (writeValue value)⟩) ∧
      token.kind.isValue ∧ token.text = String.ofList value := by
  by_cases hbare : value.all isBareSafe
  · have hwritten : writeValue value = value := by simp [writeValue, hbare]
    rw [hwritten]
    exact readValue_bare options rest p (by simpa using hbare) hyaml
  · have hwritten : writeValue value = '"' :: (value.flatMap escapeChar ++ ['"']) := by
      simp [writeValue, hbare]
    refine ⟨{ kind := .string .double, text := String.ofList value, position := p }, ?_, rfl, rfl⟩
    rw [hwritten]
    simpa using readValue_quoted options value ('\n' :: rest) p

theorem Reader.tokens_of_some {r s : Reader} {t : Token} (h : r.next = (.ok (some t), s)) :
    r.tokens = (t :: s.tokens.1, s.tokens.2) := by
  rw [Reader.tokens]
  split
  · next h' => simp [h] at h'
  · next h' => simp [h] at h'
  · next h' =>
    rw [h] at h'
    obtain ⟨ht, hs⟩ := Prod.mk.inj h'
    obtain rfl := Option.some.inj (Except.ok.inj ht)
    rw [hs]

theorem Reader.tokens_of_none {r s : Reader} (h : r.next = (.ok none, s)) :
    r.tokens = ([], none) := by
  rw [Reader.tokens]
  split
  · rfl
  · next h' => simp [h] at h'
  · next h' => simp [h] at h'

theorem Reader.next_name (options : ReaderOptions) {blank name : List Char} (behind : List Char)
    (p : Position) (hblank : ∀ c ∈ blank, isBlank c) (hname : ∀ c ∈ name, isNameChar c)
    (hne : name ≠ []) :
    Reader.next { options, cursor := ⟨blank ++ (name ++ '=' :: behind), p⟩ } =
      (.ok (some { kind := .name, text := String.ofList name, position := p.over blank }),
        { options, cursor := ⟨behind, p.over (blank ++ (name ++ ['=']))⟩, expectsValue := true }) := by
  have hread := readNameOrComment_name behind p hblank hname hne
  simp only [Reader.next, hread, Bool.false_eq_true, if_false]
  rfl

theorem Reader.next_value {options : ReaderOptions} {c d : Cursor}
    {result : Except ParseError Token} (h : readValue options c = (result, d)) :
    Reader.next { options, cursor := c, expectsValue := true } =
      (result.map some, { options, cursor := d }) := by
  simp only [Reader.next, h, if_true]

theorem Reader.next_comment (options : ReaderOptions) {blank line : List Char} (rest : List Char)
    (p : Position) (hblank : ∀ c ∈ blank, isBlank c) (hline : '\n' ∉ line) :
    Reader.next { options, cursor := ⟨blank ++ '#' :: (line ++ '\n' :: rest), p⟩ } =
      (.ok (some { kind := .comment, text := String.ofList (withoutReturn line),
                   position := p.over blank }),
        { options, cursor := ⟨rest, p.over (blank ++ '#' :: (line ++ ['\n']))⟩ }) := by
  have hread := readNameOrComment_comment rest p hblank hline
  simp only [Reader.next, hread, Bool.false_eq_true, if_false]
  rfl

/-- The rest of the text reads without error, as these nodes. -/
def Reader.Yields (r : Reader) (nodes : List Node) : Prop :=
  ∃ tokens, r.tokens = (tokens, none) ∧ Document.nodesOfTokens none tokens = .ok nodes

theorem Reader.yields_nil {r s : Reader} (h : r.next = (.ok none, s)) : r.Yields [] :=
  ⟨[], Reader.tokens_of_none h, rfl⟩

theorem Reader.yields_comment {r s : Reader} {t : Token} {nodes : List Node}
    (h : r.next = (.ok (some t), s)) (hkind : t.kind = .comment) (hs : s.Yields nodes) :
    r.Yields (.comment t.text :: nodes) := by
  obtain ⟨tokens, htokens, hnodes⟩ := hs
  refine ⟨t :: tokens, ?_, ?_⟩
  · rw [Reader.tokens_of_some h, htokens]
  · simp [Document.nodesOfTokens, hkind, hnodes, Functor.map, Except.map]

theorem Reader.yields_entry {r s u : Reader} {name value : Token} {nodes : List Node}
    (hr : r.next = (.ok (some name), s)) (hname : name.kind = .name)
    (hs : s.next = (.ok (some value), u)) (hvalue : value.kind.isValue) (hu : u.Yields nodes) :
    r.Yields (.entry { name := name.text, value := value.text } :: nodes) := by
  obtain ⟨tokens, htokens, hnodes⟩ := hu
  refine ⟨name :: value :: tokens, ?_, ?_⟩
  · rw [Reader.tokens_of_some hr, Reader.tokens_of_some hs, htokens]
  · have hpaired : Document.nodesOfTokens (some name.text) (value :: tokens) =
        .ok (.entry { name := name.text, value := value.text } :: nodes) := by
      cases hk : value.kind with
      | name | comment => simp [hk, TokenKind.isValue] at hvalue
      | _ => simp [Document.nodesOfTokens, hk, hnodes, Functor.map, Except.map]
    rw [Document.nodesOfTokens, hname, hpaired]
    rfl

theorem Document.parse_of_yields {text : String} {options : ReaderOptions} {nodes : List Node}
    (h : (Reader.ofText text options).Yields nodes) :
    Document.parse text options = .ok { nodes } := by
  obtain ⟨tokens, htokens, hnodes⟩ := h
  simp [Document.parse, Dotenv.tokens, htokens, hnodes, Functor.map, Except.map]

/-- What the reader can give back: names of letters, digits and underscores, and comments
on one line. -/
def Node.IsReadable : Node → Prop
  | .entry e => e.name ≠ "" ∧ ∀ c ∈ e.name.toList, c.isAlphanum ∨ c = '_'
  | .comment text => '\n' ∉ text.toList

instance : DecidablePred Node.IsReadable
  | .entry e =>
    -- Over the letters of the name, not over all characters that there are.
    have : Decidable (∀ c ∈ e.name.toList, c.isAlphanum ∨ c = '_') := List.decidableBAll _ _
    inferInstanceAs (Decidable (e.name ≠ "" ∧ ∀ c ∈ e.name.toList, c.isAlphanum ∨ c = '_'))
  | .comment text => inferInstanceAs (Decidable ('\n' ∉ text.toList))

theorem isNameChar_iff {c : Char} : isNameChar c ↔ c.isAlphanum ∨ c = '_' := by
  simp [isNameChar]

def Node.reread : Node → Node
  | .entry e => .entry e
  | .comment text => .comment (String.ofList (withoutReturn text.toList))

/-- The text reads as these nodes, wherever it starts and whatever blanks stand before it. -/
def ReadsAs (options : ReaderOptions) (text : List Char) (nodes : List Node) : Prop :=
  ∀ (blank : List Char) (p : Position), (∀ c ∈ blank, isBlank c) →
    Reader.Yields { options, cursor := ⟨blank ++ text, p⟩ } nodes

theorem readsAs_nil (options : ReaderOptions) : ReadsAs options [] [] := by
  intro blank p hblank
  have hskip : Cursor.skipWhile isBlank ⟨blank ++ [], p⟩ = ⟨[], p.over blank⟩ :=
    Cursor.skipWhile_append _ hblank (by simp)
  have hread : readNameOrComment ⟨blank ++ [], p⟩ = (.ok none, ⟨[], p.over blank⟩) := by
    simp only [readNameOrComment, hskip]
  refine Reader.yields_nil (s := { options, cursor := ⟨[], p.over blank⟩ }) ?_
  simp only [Reader.next, hread, Bool.false_eq_true, if_false]

theorem readsAs_comment {options : ReaderOptions} {text : String} {rest : List Char}
    {nodes : List Node} (htext : '\n' ∉ text.toList) (hrest : ReadsAs options rest nodes) :
    ReadsAs options (writeNode (.comment text) ++ rest) (Node.reread (.comment text) :: nodes) := by
  intro blank p hblank
  have hwritten : writeNode (.comment text) ++ rest = '#' :: (text.toList ++ '\n' :: rest) := by
    simp [writeNode]
  rw [hwritten]
  exact Reader.yields_comment (Reader.next_comment options rest p hblank htext) rfl
    (hrest [] _ (by simp))

theorem readsAs_entry {options : ReaderOptions} {e : Entry} {rest : List Char}
    {nodes : List Node} (he : (Node.entry e).IsReadable)
    (hyaml : options.allowYaml → e.value.toList ≠ ['-', '-', '-'])
    (hrest : ReadsAs options rest nodes) :
    ReadsAs options (writeNode (.entry e) ++ rest) (.entry e :: nodes) := by
  intro blank p hblank
  let behind := writeValue e.value.toList ++ '\n' :: rest
  let q := p.over (blank ++ (e.name.toList ++ ['=']))
  have hname := Reader.next_name options behind p hblank
    (fun c hc => isNameChar_iff.2 (he.2 c hc)) (by simpa using he.1)
  obtain ⟨value, hvalue, hkind, htext⟩ := readValue_writeValue options e.value.toList rest q hyaml
  have hyields := Reader.yields_entry hname rfl (Reader.next_value hvalue) hkind
    (hrest ['\n'] _ (by simp [isBlank]))
  have hwritten : writeNode (.entry e) ++ rest = e.name.toList ++ '=' :: behind := by
    simp [writeNode, behind]
  rw [hwritten]
  simpa [htext] using hyields

theorem readsAs_written {options : ReaderOptions} {nodes : List Node}
    (hnodes : ∀ node ∈ nodes, node.IsReadable)
    (hyaml : options.allowYaml → ∀ e, .entry e ∈ nodes → e.value.toList ≠ ['-', '-', '-']) :
    ReadsAs options (nodes.flatMap writeNode) (nodes.map Node.reread) := by
  induction nodes with
  | nil => exact readsAs_nil options
  | cons node nodes ih =>
    have hrest := ih (fun x hx => hnodes x (List.mem_cons_of_mem _ hx))
      (fun hy e he => hyaml hy e (List.mem_cons_of_mem _ he))
    have hnode := hnodes node List.mem_cons_self
    rw [List.flatMap_cons, List.map_cons]
    cases node with
    | comment text => exact readsAs_comment hnode hrest
    | entry e => exact readsAs_entry hnode (fun hy => hyaml hy e List.mem_cons_self) hrest

/-- A written document reads back but for the carriage returns at the ends of comments. -/
theorem Document.parse_write_reread {d : Document} (hd : ∀ node ∈ d.nodes, node.IsReadable) :
    Document.parse d.write = .ok { nodes := d.nodes.map Node.reread } := by
  apply Document.parse_of_yields
  have hreads : ReadsAs {} (d.nodes.flatMap writeNode) (d.nodes.map Node.reread) :=
    readsAs_written hd (by simp)
  simpa [Reader.ofText, Document.write] using hreads [] {} (by simp)

/-- What comes back whole: no comment ends in a carriage return. -/
def Node.IsWritable : Node → Prop
  | .entry e => (Node.entry e).IsReadable
  | .comment text => '\n' ∉ text.toList ∧ text.toList.getLast? ≠ some '\r'

instance : DecidablePred Node.IsWritable
  | .entry e => inferInstanceAs (Decidable (Node.entry e).IsReadable)
  | .comment text =>
    inferInstanceAs (Decidable ('\n' ∉ text.toList ∧ text.toList.getLast? ≠ some '\r'))

theorem Node.isReadable_of_isWritable {node : Node} (h : node.IsWritable) : node.IsReadable := by
  cases node with
  | entry e => exact h
  | comment text => exact h.1

theorem Node.reread_of_isWritable {node : Node} (h : node.IsWritable) : node.reread = node := by
  cases node with
  | entry e => rfl
  | comment text => simp [Node.reread, withoutReturn, h.2]

theorem Document.parse_write {d : Document} (hd : ∀ node ∈ d.nodes, node.IsWritable) :
    Document.parse d.write = .ok d := by
  rw [Document.parse_write_reread fun node hnode => Node.isReadable_of_isWritable (hd node hnode)]
  have hsame : d.nodes.map Node.reread = d.nodes := by
    rw [List.map_congr_left fun node hnode => Node.reread_of_isWritable (hd node hnode)]
    exact List.map_id d.nodes
  rw [hsame]

/-- A name twice, a value of quotes, escapes and a line break, and one that looks like a comment. -/
theorem Document.parse_write_tangled :
    let d : Document := { nodes := [
      .comment "\t# A=1 \r ", .entry { name := "A_1", value := "\"\\u0041\\\n'#" },
      .entry { name := "A_1", value := " # " }, .entry { name := "9", value := "" }] }
    (∀ node ∈ d.nodes, node.IsWritable) ∧ Document.parse d.write = .ok d := by
  intro d
  have hd : ∀ node ∈ d.nodes, node.IsWritable := by decide
  exact ⟨hd, Document.parse_write hd⟩

/-- The carriage return is taken for a part of the line break. -/
example : (Document.parse (Document.write { nodes := [.comment "a\r"] })).toOption =
    some { nodes := [.comment "a"] } := by
  decide +kernel

end SecretDotenv.Dotenv
