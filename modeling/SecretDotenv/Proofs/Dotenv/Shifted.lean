import SecretDotenv.Proofs.Dotenv.Alternation

/-! The same text some lines further down. No reader looks at the line it is on, so
tokens and faults are the same there, each with its line that much greater. -/
namespace SecretDotenv.Dotenv

open SecretDotenv.Text

def Position.shift (n : Nat) (p : Position) : Position :=
  { p with line := p.line + n }

def Cursor.shift (n : Nat) (c : Cursor) : Cursor :=
  { c with position := c.position.shift n }

def Token.shift (n : Nat) (t : Token) : Token :=
  { t with position := t.position.shift n }

/-- The fault itself stays: what shifts is the line where a capture began, which is told with it. -/
def ParseError.Cause.shift (n : Nat) : ParseError.Cause → ParseError.Cause
  | .unterminatedCapture capture startLine => .unterminatedCapture capture (startLine + n)
  | cause => cause

def ParseError.shift (n : Nat) (e : ParseError) : ParseError :=
  { cause := e.cause.shift n, position := e.position.shift n }

def Step.shift {α : Type} (n : Nat) (move : α → α) (step : Step α) : Step α :=
  ((step.1.map move).mapError (ParseError.shift n), step.2.shift n)

section Steps

variable {α : Type} (n : Nat)

@[simp] theorem Position.after_shift (p : Position) (c : Char) :
    (p.shift n).after c = (p.after c).shift n := by
  unfold Position.after
  split
  · simp [Position.shift, Nat.add_right_comm]
  · rfl

@[simp] theorem Position.over_shift (p : Position) (text : List Char) :
    (p.shift n).over text = (p.over text).shift n := by
  induction text generalizing p with
  | nil => rfl
  | cons c text ih => rw [Position.over_cons, Position.over_cons, Position.after_shift, ih]

@[simp] theorem Cursor.skipWhile_shift (q : Char → Bool) (c : Cursor) :
    (c.shift n).skipWhile q = (c.skipWhile q).shift n := by
  simp [Cursor.skipWhile, Cursor.skip, Cursor.shift]

@[simp] theorem Step.shift_ok (move : α → α) (a : α) (c : Cursor) :
    Step.shift n move (.ok a, c) = (.ok (move a), c.shift n) := rfl

@[simp] theorem Step.shift_error (move : α → α) (e : ParseError) (c : Cursor) :
    Step.shift n move (.error e, c) = (.error (e.shift n), c.shift n) := rfl

theorem fail_shift (move : α → α) (cause : ParseError.Cause) (rest : List Char) (p : Position) :
    Step.shift n move (fail cause ⟨rest, p⟩) = fail (cause.shift n) ⟨rest, p.shift n⟩ := rfl

theorem readName_shift (start : Position) (rest : List Char) (p : Position) (name : List Char)
    (ended : Bool) :
    readName (start.shift n) rest (p.shift n) name ended =
      Step.shift n (Token.shift n) (readName start rest p name ended) := by
  fun_induction readName start rest p name ended with
  | case1 => rfl
  | case2 | case4 | case5 | case8 => simp_all [readName, fail_shift, ParseError.Cause.shift]
  | case3 => simp_all [readName, Token.shift, Cursor.shift]
  | case6 | case7 => simp_all [readName]

theorem readEscaped_shift (quote : Char) (cause : ParseError.Cause) (token : String → Token)
    (rest : List Char) (p : Position) (text : List Char) :
    readEscaped quote (cause.shift n) (fun text => (token text).shift n) rest (p.shift n) text =
      Step.shift n (Token.shift n) (readEscaped quote cause token rest p text) := by
  fun_induction readEscaped quote cause token rest p text with
  | case1 => simp only [readEscaped, fail_shift]
  | case2 => simp [readEscaped_quote, Cursor.shift]
  | case3 => simp_all [readEscaped, fail_shift]
  | case4 p text more digits hshort hquote =>
    rw [readEscaped, if_neg hquote, fail_shift]
    simp only [if_true, Position.after_shift, Position.over_shift]
    exact if_pos hshort
  | case5 p text more digits hlong hquote behind ih =>
    rw [readEscaped, if_neg hquote, ← ih]
    simp only [if_true, Position.after_shift, Position.over_shift]
    exact if_neg hlong
  | case6 | case7 => simp_all [readEscaped]
  | case8 c rest p text hquote hback ih =>
    rw [readEscaped_plain _ _ _ _ _ hquote hback, Position.after_shift, ih]

theorem readSingleQuoted_shift (start : Position) (rest : List Char) (p : Position)
    (text : List Char) :
    readSingleQuoted (start.shift n) rest (p.shift n) text =
      Step.shift n (Token.shift n) (readSingleQuoted start rest p text) := by
  fun_induction readSingleQuoted start rest p text with
  | case1 => rfl
  | case2 => simp_all [readSingleQuoted]
  | case3 => simp_all [readSingleQuoted, Token.shift, Cursor.shift]
  | case4 => simp_all [readSingleQuoted]

theorem readJson_shift (start : Position) (rest : List Char) (p : Position) (text : List Char) :
    readJson (start.shift n) rest (p.shift n) text =
      Step.shift n (Token.shift n) (readJson start rest p text) := by
  fun_induction readJson start rest p text with
  | case1 => rfl
  | case2 => simp_all [readJson, Token.shift, Cursor.shift]
  | case3 => simp_all [readJson]

theorem takeLine_shift (c : Cursor) :
    takeLine (c.shift n) = ((takeLine c).1, (takeLine c).2.shift n) := by
  unfold takeLine
  dsimp only [Cursor.shift]
  split
  · simp [Cursor.skip]
  · simp [Cursor.skip]

theorem readYaml_shift (start : Position) (c : Cursor) (text : List Char) :
    readYaml (start.shift n) (c.shift n) text =
      Step.shift n (Token.shift n) (readYaml start c text) := by
  fun_induction readYaml start c text with
  | case1 c text hrest =>
    rw [readYaml, dif_pos (by exact hrest)]
    rfl
  | case2 c text hrest line hline body =>
    rw [readYaml, dif_neg (by exact hrest), takeLine_shift]
    exact if_pos hline
  | case3 c text hrest line hline ih =>
    rw [readYaml, dif_neg (by exact hrest), takeLine_shift, ← ih]
    exact if_neg hline

theorem readValue_shift (options : ReaderOptions) (c : Cursor) :
    readValue options (c.shift n) = Step.shift n (Token.shift n) (readValue options c) := by
  unfold readValue
  rw [Cursor.skipWhile_shift]
  generalize c.skipWhile (fun x => isBlank x && x != '\n' && x != '\r') = d
  obtain ⟨rest, p⟩ := d
  dsimp only [Cursor.shift]
  split
  · rfl
  · split
    · rw [Position.after_shift]
      exact readEscaped_shift n _ (.unterminatedCapture .double p.line)
        (fun text => { kind := .string .double, text, position := p }) ..
    · rw [Position.after_shift]
      exact readSingleQuoted_shift n ..
    · split
      · rw [Position.after_shift]
        exact readEscaped_shift n _ (.unterminatedCapture .backtick p.line)
          (fun text => { kind := .string .backtick, text, position := p }) ..
      · split
        · exact readJson_shift n ..
        · split
          · have hline := takeLine_shift n ⟨rest, p⟩
            rw [Cursor.shift] at hline
            rw [hline]
            exact readYaml_shift n ..
          · simp [Token.scalar, Token.shift, Cursor.skip, Cursor.shift]

theorem readNameOrComment_shift (c : Cursor) :
    readNameOrComment (c.shift n) =
      Step.shift n (Option.map (Token.shift n)) (readNameOrComment c) := by
  unfold readNameOrComment
  rw [Cursor.skipWhile_shift]
  generalize c.skipWhile isBlank = d
  obtain ⟨rest, p⟩ := d
  dsimp only [Cursor.shift]
  split
  · rfl
  · next rest =>
    have hline := takeLine_shift n (Cursor.skip ⟨'#' :: rest, p⟩ ['#'] rest)
    simp only [Cursor.skip, Cursor.shift, Position.over_shift] at hline ⊢
    rw [hline]
    rfl
  · rw [readName_shift]
    rcases readName p rest p [] false with ⟨token | e, d⟩ <;> rfl

end Steps

namespace Reader

def shift (n : Nat) (r : Reader) : Reader :=
  { r with cursor := r.cursor.shift n }

theorem next_shift (n : Nat) (r : Reader) :
    (r.shift n).next =
      ((r.next.1.map (Option.map (Token.shift n))).mapError (ParseError.shift n),
        r.next.2.shift n) := by
  obtain ⟨options, cursor, expectsValue⟩ := r
  cases expectsValue with
  | true =>
    simp only [next, shift, if_true, readValue_shift]
    rcases readValue options cursor with ⟨e | token, d⟩ <;> rfl
  | false =>
    simp only [next, shift, Bool.false_eq_true, if_false, readNameOrComment_shift]
    rcases readNameOrComment cursor with ⟨e | token, d⟩
    · rfl
    · cases token <;> rfl

theorem tokens_of_error {r s : Reader} {e : ParseError} (h : r.next = (.error e, s)) :
    r.tokens = ([], some e) := by
  rw [tokens]
  split
  · next h' => simp [h] at h'
  · next h' => simp_all
  · next h' => simp [h] at h'

theorem tokens_shift (n : Nat) (r : Reader) :
    (r.shift n).tokens = (r.tokens.1.map (Token.shift n), r.tokens.2.map (ParseError.shift n)) := by
  fun_induction tokens r with
  | case1 r s hnext =>
    refine tokens_of_none (s := s.shift n) ?_
    rw [next_shift, hnext]
    rfl
  | case2 r e s hnext =>
    refine tokens_of_error (s := s.shift n) ?_
    rw [next_shift, hnext]
    rfl
  | case3 r t s hnext more error htokens ih =>
    have hshifted : (r.shift n).next = (.ok (some (t.shift n)), s.shift n) := by
      rw [next_shift, hnext]
      rfl
    rw [tokens_of_some hshifted, ih, htokens]
    rfl

end Reader

theorem Document.paired?_shift (n : Nat) (pending : Option String) (tokens : List Token) :
    paired? pending (tokens.map (Token.shift n)) = paired? pending tokens := by
  fun_induction paired? pending tokens with
  | case1 => rfl
  | case2 t rest hkind ih => simp [paired?, Token.shift, hkind, ih]
  | case3 t rest hkind ih => simp [paired?, Token.shift, hkind, ih]
  | case4 => simp_all [paired?, Token.shift]
  | case5 name t rest hvalue ih => simp [paired?, Token.shift, hvalue, ih]
  | case6 => simp_all [paired?, Token.shift]

end SecretDotenv.Dotenv
