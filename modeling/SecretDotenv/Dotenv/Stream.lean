import SecretDotenv.Dotenv.Reader

/-! All tokens of a text. Each token takes characters, or is the value of a name
that did; `Reader.remaining` measures that, so the stream ends on every text. -/
namespace SecretDotenv.Dotenv

open SecretDotenv.Text

theorem Cursor.length_skipWhile_le (p : Char → Bool) (c : Cursor) :
    (c.skipWhile p).rest.length ≤ c.rest.length :=
  (List.dropWhile_sublist _).length_le

theorem length_takeLine_le (c : Cursor) : (takeLine c).2.rest.length ≤ c.rest.length := by
  by_cases h : c.rest = []
  · simp [takeLine, h, Cursor.skip]
  · exact Nat.le_of_lt (length_takeLine_lt h)

theorem length_readName_lt {start : Position} {rest : List Char} {p : Position}
    {name : List Char} {ended : Bool} {t : Token} {c : Cursor}
    (h : readName start rest p name ended = (.ok t, c)) : c.rest.length < rest.length := by
  fun_induction readName start rest p name ended with
  | case3 => grind
  | case6 | case7 => grind
  | _ => simp [fail] at h

theorem length_readEscaped_le (quote : Char) (cause : ParseError.Cause) (token : String → Token)
    (rest : List Char) (p : Position) (text : List Char) :
    (readEscaped quote cause token rest p text).2.rest.length ≤ rest.length := by
  fun_induction readEscaped quote cause token rest p text with
  | case1 | case3 | case4 => simp [fail]
  | case2 => simp
  | case5 _ _ more _ _ _ _ ih =>
    exact Nat.le_trans ih (Nat.le_succ_of_le (Nat.le_succ_of_le (List.drop_sublist _ _).length_le))
  | case6 | case7 | case8 =>
    simp only [List.length_cons] at *
    omega

theorem length_readSingleQuoted_le (start : Position) (rest : List Char) (p : Position)
    (text : List Char) : (readSingleQuoted start rest p text).2.rest.length ≤ rest.length := by
  fun_induction readSingleQuoted start rest p text with
  | case1 => simp [fail]
  | case2 _ _ _ ih => exact Nat.le_succ_of_le (Nat.le_succ_of_le ih)
  | case3 => simp
  | case4 _ _ _ _ _ _ ih => exact Nat.le_succ_of_le ih

theorem length_readJson_le (start : Position) (rest : List Char) (p : Position)
    (text : List Char) : (readJson start rest p text).2.rest.length ≤ rest.length := by
  fun_induction readJson start rest p text with
  | case1 => simp [fail]
  | case2 => simp
  | case3 _ _ _ _ _ ih => exact Nat.le_succ_of_le ih

theorem length_readYaml_le (start : Position) (c : Cursor) (text : List Char) :
    (readYaml start c text).2.rest.length ≤ c.rest.length := by
  fun_induction readYaml start c text with
  | case1 => simp [fail]
  | case2 c => exact length_takeLine_le c
  | case3 c _ _ _ _ ih => exact Nat.le_trans ih (length_takeLine_le c)

theorem length_scalarRun_le (first : Bool) (rest : List Char) :
    (scalarRun first rest).2.length ≤ rest.length := by
  fun_induction scalarRun first rest with
  | case1 | case2 => simp
  | case3 _ _ _ _ _ _ h ih =>
    rw [h] at ih
    exact Nat.le_succ_of_le ih

theorem length_readValue_le (options : ReaderOptions) (c : Cursor) :
    (readValue options c).2.rest.length ≤ c.rest.length := by
  unfold readValue
  have hs := Cursor.length_skipWhile_le (fun x => isBlank x && x != '\n' && x != '\r') c
  generalize c.skipWhile (fun x => isBlank x && x != '\n' && x != '\r') = d at hs
  refine Nat.le_trans ?_ hs
  dsimp only
  split
  · exact Nat.le_refl _
  · split
    · next rest h => simpa [h] using Nat.le_succ_of_le (length_readEscaped_le ..)
    · next rest h => simpa [h] using Nat.le_succ_of_le (length_readSingleQuoted_le ..)
    · split
      · exact Nat.le_trans (length_readEscaped_le ..) (by simp)
      · split
        · exact length_readJson_le ..
        · split
          · exact Nat.le_trans (length_readYaml_le ..) (length_takeLine_le d)
          · exact length_scalarRun_le ..

/-- Twice what is left of the text, and one more while a value is due. -/
def Reader.remaining (r : Reader) : Nat :=
  2 * r.cursor.rest.length + if r.expectsValue then 1 else 0

theorem Reader.remaining_next_lt {r : Reader} {t : Token} {s : Reader}
    (h : r.next = (.ok (some t), s)) : s.remaining < r.remaining := by
  unfold Reader.next at h
  split at h
  · next hv =>
    have hl := length_readValue_le r.options r.cursor
    simp only [Prod.mk.injEq] at h
    rw [← h.2]
    simp [Reader.remaining, hv]
    omega
  · next hv =>
    have hl : (readNameOrComment r.cursor).2.rest.length < r.cursor.rest.length := by
      have hs := Cursor.length_skipWhile_le isBlank r.cursor
      simp only [Prod.mk.injEq] at h
      have h1 := h.1
      unfold readNameOrComment at h1 ⊢
      dsimp only at h1 ⊢
      split
      · simp_all
      · next rest hr =>
        have := length_takeLine_le ((r.cursor.skipWhile isBlank).skip ['#'] rest)
        simp only [Cursor.skip] at this ⊢
        rw [hr, List.length_cons] at hs
        omega
      · split at h1
        · simp_all
        · simp_all
        · generalize hn : readName _ _ _ _ _ = n at h1 ⊢
          obtain ⟨(e | t'), c⟩ := n
          · simp [Except.map] at h1
          · exact Nat.lt_of_lt_of_le (length_readName_lt hn) hs
    simp only [Prod.mk.injEq] at h
    rw [← h.2]
    simp only [Reader.remaining, hv]
    grind

def Reader.tokens (r : Reader) : List Token × Option ParseError :=
  match _ : r.next with
  | (.ok none, _) => ([], none)
  | (.error e, _) => ([], some e)
  | (.ok (some t), s) =>
    let (more, error) := s.tokens
    (t :: more, error)
  termination_by r.remaining
  decreasing_by exact Reader.remaining_next_lt ‹_›

def tokens (text : String) (options : ReaderOptions) : List Token × Option ParseError :=
  (Reader.ofText text options).tokens

end SecretDotenv.Dotenv
