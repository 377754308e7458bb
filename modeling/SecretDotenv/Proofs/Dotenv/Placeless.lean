import SecretDotenv.Proofs.Dotenv.Shifted

/-! The same text anywhere else. What a token is, and what a fault is, depends on the text
that is left and on nothing in front of it; only where they are is counted from the front. -/
namespace SecretDotenv.Dotenv

open SecretDotenv.Text

def Token.content (t : Token) : TokenKind × String :=
  (t.kind, t.text)

/-- A fault without the line where a capture began. -/
def ParseError.Cause.placeless : ParseError.Cause → ParseError.Cause
  | .unterminatedCapture capture _ => .unterminatedCapture capture 0
  | cause => cause

def ParseError.content (e : ParseError) : ParseError.Cause :=
  e.cause.placeless

def Step.content {α β : Type} (of : α → β) (step : Step α) :
    Except ParseError.Cause β × List Char :=
  ((step.1.map of).mapError ParseError.content, step.2.rest)

@[simp] theorem Step.content_ok {α β : Type} (of : α → β) (a : α) (c : Cursor) :
    Step.content of (.ok a, c) = (.ok (of a), c.rest) := rfl

@[simp] theorem Step.content_fail {α β : Type} (of : α → β) (cause : ParseError.Cause) (c : Cursor) :
    Step.content of (fail cause c) = (.error cause.placeless, c.rest) := rfl

theorem Step.content_some (step : Step Token) :
    Step.content (Option.map Token.content) (step.1.map some, step.2) =
      ((step.content Token.content).1.map some, (step.content Token.content).2) := by
  rcases step with ⟨e | t, c⟩ <;> rfl

theorem readName_content {start start' p : Position} (p' : Position) (rest name : List Char)
    (ended : Bool) :
    (readName start rest p name ended).content Token.content =
      (readName start' rest p' name ended).content Token.content := by
  fun_induction readName start rest p name ended generalizing p' with
  | case1 => rfl
  | case2 | case3 | case4 | case5 | case8 => simp_all [readName, Token.content]
  | case6 c _ _ _ _ _ _ _ _ ih =>
    refine (ih (p'.after c)).trans ?_
    simp_all [readName]
  | case7 c _ _ _ _ _ _ _ _ ih =>
    refine (ih (p'.after c)).trans ?_
    simp_all [readName]

theorem readEscaped_content {quote : Char} {cause cause' : ParseError.Cause}
    {token token' : String → Token} (hcause : cause.placeless = cause'.placeless)
    (htoken : ∀ text, (token text).content = (token' text).content) (rest : List Char)
    {p : Position} (p' : Position) (text : List Char) :
    (readEscaped quote cause token rest p text).content Token.content =
      (readEscaped quote cause' token' rest p' text).content Token.content := by
  fun_induction readEscaped quote cause token rest p text generalizing p' with
  | case1 => simp [readEscaped, hcause]
  | case2 => simp [readEscaped_quote, htoken]
  | case3 => simp_all [readEscaped]
  | case4 p text more digits hshort hquote =>
    rw [readEscaped, if_neg hquote]
    simp only [if_true, Step.content_fail]
    rw [if_pos hshort]
    rfl
  | case5 p text more digits hlong hquote behind =>
    rename_i ih
    rw [readEscaped, if_neg hquote]
    simp only [if_true]
    rw [if_neg hlong]
    exact ih _
  | case6 p text next more hnext e hescaped hquote ih =>
    refine (ih ((p'.after '\\').after next)).trans ?_
    simp_all [readEscaped]
  | case7 p text next more hnext hescaped hquote ih =>
    refine (ih (p'.after '\\')).trans ?_
    simp_all [readEscaped]
  | case8 c rest p text hquote hback ih =>
    rw [readEscaped_plain _ _ _ _ _ hquote hback]
    exact ih _

theorem readSingleQuoted_content {start start' p : Position} (p' : Position) (rest text : List Char) :
    (readSingleQuoted start rest p text).content Token.content =
      (readSingleQuoted start' rest p' text).content Token.content := by
  fun_induction readSingleQuoted start rest p text generalizing p' with
  | case1 => rfl
  | case2 _ _ _ ih => exact ih _
  | case3 => simp_all [readSingleQuoted, Token.content]
  | case4 c rest p text hescape hquote ih =>
    refine (ih (p'.after c)).trans ?_
    simp_all [readSingleQuoted]

theorem readJson_content {start start' p : Position} (p' : Position) (rest text : List Char) :
    (readJson start rest p text).content Token.content =
      (readJson start' rest p' text).content Token.content := by
  fun_induction readJson start rest p text generalizing p' with
  | case1 => rfl
  | case2 => simp_all [readJson, Token.content]
  | case3 c rest p text hopen ih =>
    rw [readJson, if_neg hopen]
    exact ih _

theorem takeLine_content {c d : Cursor} (h : c.rest = d.rest) :
    (takeLine c).1 = (takeLine d).1 ∧ (takeLine c).2.rest = (takeLine d).2.rest := by
  unfold takeLine
  rw [h]
  split <;> exact ⟨rfl, rfl⟩

theorem readYaml_line {start : Position} {c : Cursor} (h : c.rest ≠ []) (text : List Char) :
    readYaml start c text =
      if (takeLine c).1 = ['-', '-', '-'] then
        (.ok { kind := .yaml
               text := String.ofList (if text.getLast? = some '\n' then text.dropLast else text)
               position := start }, (takeLine c).2)
      else readYaml start (takeLine c).2 (text ++ (takeLine c).1 ++ ['\n']) := by
  rw [readYaml, dif_neg h]

theorem readYaml_content {start start' : Position} {c d : Cursor} (h : c.rest = d.rest)
    (text : List Char) :
    (readYaml start c text).content Token.content =
      (readYaml start' d text).content Token.content := by
  obtain ⟨htext, hleft⟩ := takeLine_content h
  fun_induction readYaml start c text generalizing d with
  | case1 c text hrest =>
    rw [readYaml, dif_pos (by rwa [← h])]
    simp [h, ParseError.Cause.placeless]
  | case2 c text hrest line hline =>
    rw [readYaml_line (by rwa [← h]), ← htext, if_pos hline, Step.content_ok, Step.content_ok,
      ← hleft]
    rfl
  | case3 c text hrest line hline =>
    rename_i ih
    obtain ⟨htext', hleft'⟩ := takeLine_content hleft
    rw [readYaml_line (c := d) (by rwa [← h]), ← htext, if_neg hline]
    exact ih hleft htext' hleft'

theorem Cursor.skipWhile_content {c d : Cursor} (h : c.rest = d.rest) (q : Char → Bool) :
    (c.skipWhile q).rest = (d.skipWhile q).rest := by
  simp [Cursor.skipWhile, Cursor.skip, h]

theorem readValue_content (options : ReaderOptions) {c d : Cursor} (h : c.rest = d.rest) :
    (readValue options c).content Token.content = (readValue options d).content Token.content := by
  unfold readValue
  have hskipped := Cursor.skipWhile_content h fun x => isBlank x && x != '\n' && x != '\r'
  generalize c.skipWhile (fun x => isBlank x && x != '\n' && x != '\r') = c' at hskipped ⊢
  generalize d.skipWhile (fun x => isBlank x && x != '\n' && x != '\r') = d' at hskipped ⊢
  obtain ⟨rest, p⟩ := c'
  obtain ⟨rest', p'⟩ := d'
  obtain rfl : rest = rest' := hskipped
  dsimp only
  split
  · rfl
  · split
    · exact readEscaped_content (by rfl) (fun _ => by rfl) ..
    · exact readSingleQuoted_content ..
    · split
      · exact readEscaped_content (by rfl) (fun _ => by rfl) ..
      · split
        · exact readJson_content ..
        · split
          · obtain ⟨-, hleft⟩ := takeLine_content (c := ⟨rest, p⟩) (d := ⟨rest, p'⟩) rfl
            exact readYaml_content hleft []
          · rfl

theorem readNameOrComment_content {c d : Cursor} (h : c.rest = d.rest) :
    (readNameOrComment c).content (Option.map Token.content) =
      (readNameOrComment d).content (Option.map Token.content) := by
  unfold readNameOrComment
  have hskipped := Cursor.skipWhile_content h isBlank
  generalize c.skipWhile isBlank = c' at hskipped ⊢
  generalize d.skipWhile isBlank = d' at hskipped ⊢
  obtain ⟨rest, p⟩ := c'
  obtain ⟨rest', p'⟩ := d'
  obtain rfl : rest = rest' := hskipped
  dsimp only
  split
  · rfl
  · next rest =>
    obtain ⟨htext, hleft⟩ := takeLine_content (c := Cursor.skip ⟨'#' :: rest, p⟩ ['#'] rest)
      (d := Cursor.skip ⟨'#' :: rest, p'⟩ ['#'] rest) rfl
    simp [Step.content, Except.map, Except.mapError, Token.content, htext, hleft]
  · rw [Step.content_some, Step.content_some, readName_content]

def contentOf (given : Except ParseError (Option Token)) :
    Except ParseError.Cause (Option (TokenKind × String)) :=
  (given.map (Option.map Token.content)).mapError ParseError.content

namespace Reader

structure SameRest (r s : Reader) : Prop where
  options : r.options = s.options
  rest : r.cursor.rest = s.cursor.rest
  expectsValue : r.expectsValue = s.expectsValue

def isDue (given : Except ParseError.Cause (Option (TokenKind × String))) : Bool :=
  match given with
  | .ok (some (kind, _)) => kind == .name
  | _ => false

theorem expectsValue_next {r : Reader} (h : r.expectsValue = false) :
    r.next.2.expectsValue = isDue (contentOf r.next.1) := by
  simp only [next, h, Bool.false_eq_true, if_false]
  rcases readNameOrComment r.cursor with ⟨e | _ | t, c⟩ <;> rfl

theorem next_content {r s : Reader} (h : r.SameRest s) :
    contentOf r.next.1 = contentOf s.next.1 ∧ r.next.2.SameRest s.next.2 := by
  obtain ⟨options, cursor, expectsValue⟩ := r
  obtain ⟨options', cursor', expectsValue'⟩ := s
  obtain ⟨rfl, hrest, rfl⟩ := h
  cases expectsValue with
  | true =>
    have hvalue := congrArg (fun step => (step.1.map some, step.2)) (readValue_content options hrest)
    simp only [← Step.content_some] at hvalue
    obtain ⟨hgiven, hleft⟩ := Prod.mk.inj hvalue
    exact ⟨hgiven, rfl, hleft, rfl⟩
  | false =>
    obtain ⟨hgiven, hleft⟩ := Prod.mk.inj (readNameOrComment_content hrest)
    refine ⟨hgiven, rfl, hleft, ?_⟩
    rw [expectsValue_next rfl, expectsValue_next rfl]
    exact congrArg isDue hgiven

theorem given_content {r s : Reader} (h : r.SameRest s) (n : Nat) :
    contentOf (r.given n) = contentOf (s.given n) := by
  induction n generalizing r s with
  | zero => exact (next_content h).1
  | succ n ih =>
    rw [given_succ, given_succ]
    exact ih (next_content h).2

def contents (r : Reader) : List (TokenKind × String) × Option ParseError.Cause :=
  (r.tokens.1.map Token.content, r.tokens.2.map ParseError.content)

theorem contents_of_next (r : Reader) :
    r.contents = match contentOf r.next.1 with
      | .ok none => ([], none)
      | .error cause => ([], some cause)
      | .ok (some t) => (t :: r.next.2.contents.1, r.next.2.contents.2) := by
  rcases hnext : r.next with ⟨e | _ | t, s⟩
  · rw [contents, tokens_of_error hnext]
    rfl
  · rw [contents, tokens_of_none hnext]
    rfl
  · rw [contents, tokens_of_some hnext]
    rfl

theorem contents_eq {r s : Reader} (h : r.SameRest s) : r.contents = s.contents := by
  obtain ⟨hgiven, hleft⟩ := next_content h
  fun_induction tokens r generalizing s with
  | case1 r u hnext =>
    rw [contents_of_next r, contents_of_next s, ← hgiven, hnext]
    rfl
  | case2 r e u hnext =>
    rw [contents_of_next r, contents_of_next s, ← hgiven, hnext]
    rfl
  | case3 r t u hnext more error htokens ih =>
    rw [contents_of_next r, contents_of_next s, ← hgiven]
    rw [hnext] at hleft ⊢
    obtain ⟨hgiven', hleft'⟩ := next_content hleft
    simp only [ih hleft hgiven' hleft']

/-- A reader gives a name and a value, and then what another gives: as tokens up to the first
fault, and call by call behind it too. -/
structure Assigns (whole behind : Reader) (name : String) (value : TokenKind × String) : Prop where
  contents : whole.contents = ((.name, name) :: value :: behind.contents.1, behind.contents.2)
  name : contentOf (whole.given 0) = .ok (some (.name, name))
  value : contentOf (whole.given 1) = .ok (some value)
  behind : ∀ n, contentOf (whole.given (n + 2)) = contentOf (behind.given n)

theorem assigns_of_next {whole r s behind : Reader} {first second : Token} {name : String}
    (hfirst : whole.next = (.ok (some first), r)) (hname : first.content = (.name, name))
    (hsecond : r.next = (.ok (some second), s)) (hrest : s.SameRest behind) :
    whole.Assigns behind name second.content where
  contents := by
    rw [contents, tokens_of_some hfirst, tokens_of_some hsecond, ← contents_eq hrest, ← hname]
    rfl
  name := by
    rw [given, after, hfirst, ← hname]
    rfl
  value := by
    rw [given_succ, hfirst, given, after, hsecond]
    rfl
  behind n := by
    rw [given_succ, hfirst, given_succ, hsecond]
    exact given_content hrest n

theorem next_assignment (options : ReaderOptions) {name : String} (written : List Char)
    (hne : name ≠ "") (hname : ∀ c ∈ name.toList, c.isAlphanum ∨ c = '_') :
    (ofText (name ++ "=" ++ String.ofList written) options).next =
      (.ok (some { kind := .name, text := name, position := {} }),
        { options, cursor := ⟨written, Position.over {} (name.toList ++ ['='])⟩
          expectsValue := true }) := by
  have hnext := next_name options written {} (show ∀ c ∈ [], isBlank c by simp)
    (fun c hc => isNameChar_iff.2 (hname c hc)) (by simpa using hne)
  simpa [ofText] using hnext

/-- What is read behind `=` decides; where it is read does not. -/
theorem assigns_of_readValue {options : ReaderOptions} {name : String} {written rest : List Char}
    {value : TokenKind × String} (hne : name ≠ "")
    (hname : ∀ c ∈ name.toList, c.isAlphanum ∨ c = '_')
    (hread : ∀ p, ∃ t q, readValue options ⟨written ++ rest, p⟩ = (.ok t, ⟨rest, q⟩) ∧
      t.content = value) :
    (ofText (name ++ "=" ++ String.ofList written ++ String.ofList rest) options).Assigns
      (ofText (String.ofList rest) options) name value := by
  obtain ⟨t, q, hvalue, rfl⟩ := hread (Position.over {} (name.toList ++ ['=']))
  have hwhole : name ++ "=" ++ String.ofList written ++ String.ofList rest =
      name ++ "=" ++ String.ofList (written ++ rest) := by
    rw [String.ofList_append, String.append_assoc]
  rw [hwhole]
  exact assigns_of_next (next_assignment options (written ++ rest) hne hname) rfl (next_value hvalue)
    ⟨rfl, by simp [ofText], rfl⟩

end Reader

end SecretDotenv.Dotenv
