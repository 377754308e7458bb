import SecretDotenv.Proofs.Dotenv.Placeless

/-! Values between quotes. However a value is spelled, it is read as it is, and the reader
stands right behind the closing quote: what follows is read as if it stood alone. -/
namespace SecretDotenv.Dotenv

open SecretDotenv.Text

def singleChar (c : Char) : List Char :=
  if c = '\'' then ['\\', '\''] else [c]

theorem singleChar_of_ne {c : Char} (h : c ≠ '\'') : singleChar c = [c] := by
  simp [singleChar, h]

theorem readSingleQuoted_plain (start : Position) {c : Char} {rest : List Char} (p : Position)
    (text : List Char) (hquote : c ≠ '\'') (hescape : c = '\\' → rest.head? ≠ some '\'') :
    readSingleQuoted start (c :: rest) p text =
      readSingleQuoted start rest (p.after c) (c :: text) := by
  have hplain : ∀ more, c = '\\' → rest ≠ '\'' :: more := by
    rintro more hback rfl
    exact hescape hback rfl
  rw [readSingleQuoted.eq_3 _ _ _ _ _ hplain, if_neg hquote]

theorem head?_singleChar (c : Char) (more : List Char) :
    (singleChar c ++ more).head? ≠ some '\'' := by
  unfold singleChar
  split <;> simp_all

theorem readSingleQuoted_escaped (start : Position) {value : List Char} (rest : List Char)
    (p : Position) (text : List Char) (hlast : value.getLast? ≠ some '\\') :
    readSingleQuoted start (value.flatMap singleChar ++ '\'' :: rest) p text =
      (.ok { kind := .string .single, text := String.ofList (text.reverse ++ value)
             position := start },
        ⟨rest, p.over (value.flatMap singleChar ++ ['\''])⟩) := by
  induction value generalizing p text with
  | nil => simp [readSingleQuoted]
  | cons c value ih =>
    have hbehind : value.getLast? ≠ some '\\' := by
      cases value with
      | nil => simp
      | cons d value => simpa using hlast
    rw [List.flatMap_cons, List.append_assoc]
    by_cases hc : c = '\''
    · subst hc
      simp only [singleChar, if_true, List.cons_append, List.nil_append, readSingleQuoted,
        ih _ _ hbehind]
      simp
    · have hescape : c = '\\' → (value.flatMap singleChar ++ '\'' :: rest).head? ≠ some '\'' := by
        rintro rfl
        cases value with
        | nil => simp at hlast
        | cons d value =>
          rw [List.flatMap_cons, List.append_assoc]
          exact head?_singleChar d _
      rw [singleChar_of_ne hc, List.cons_append, List.nil_append,
        readSingleQuoted_plain start p text hc hescape, ih _ _ hbehind]
      simp

inductive Delimited (options : ReaderOptions) : Quote → List Char → List Char → Prop where
  | double {value written : List Char} (h : SpellsAll '"' value written) :
      Delimited options .double value ('"' :: (written ++ ['"']))
  | backtick {value written : List Char} (hon : options.allowBackticks)
      (h : SpellsAll '\x60' value written) :
      Delimited options .backtick value ('\x60' :: (written ++ ['\x60']))
  | single {value : List Char} (hlast : value.getLast? ≠ some '\\') :
      Delimited options .single value ('\'' :: (value.flatMap singleChar ++ ['\'']))

theorem readValue_delimited {options : ReaderOptions} {quote : Quote} {value written : List Char}
    (rest : List Char) (p : Position) (h : Delimited options quote value written) :
    readValue options ⟨written ++ rest, p⟩ =
      (.ok { kind := .string quote, text := String.ofList value, position := p },
        ⟨rest, p.over written⟩) := by
  unfold readValue
  cases h with
  | double h =>
    rw [List.cons_append, skipWhile_value _ _ rfl]
    simp [atLineBreak, readEscaped_spellsAll _ _ _ _ _ (by decide) h]
  | backtick hon h =>
    rw [List.cons_append, skipWhile_value _ _ rfl]
    simp [atLineBreak, hon, readEscaped_spellsAll _ _ _ _ _ (by decide) h]
  | single hlast =>
    rw [List.cons_append, skipWhile_value _ _ rfl]
    simp [atLineBreak, readSingleQuoted_escaped _ _ _ _ hlast]

/-- A value between quotes is read as it is, however each of its characters is spelled; what
follows is read as it is read alone. -/
theorem assigns_delimited {options : ReaderOptions} {name value written : String} {quote : Quote}
    (rest : String) (hne : name ≠ "") (hname : ∀ c ∈ name.toList, c.isAlphanum ∨ c = '_')
    (h : Delimited options quote value.toList written.toList) :
    (Reader.ofText (name ++ "=" ++ written ++ rest) options).Assigns
      (Reader.ofText rest options) name (.string quote, value) := by
  have hread : ∀ p, ∃ t q, readValue options ⟨written.toList ++ rest.toList, p⟩ =
      (.ok t, ⟨rest.toList, q⟩) ∧ t.content = (.string quote, value) := fun p =>
    ⟨_, _, readValue_delimited rest.toList p h, by simp [Token.content]⟩
  have hassigns := Reader.assigns_of_readValue hne hname hread
  rwa [String.ofList_toList, String.ofList_toList] at hassigns

/-- An escape in front of a digit, a backslash in front of the quote, and a rest with a fault. -/
theorem assigns_delimited_spelled :
    let written := "\"\\u0001F\n\\n\\u00E9\\\\\""
    let value := "\x01F\n\né\\"
    Delimited {} .double value.toList written.toList ∧
      (Reader.ofText ("A_1" ++ "=" ++ written ++ " '\n") {}).Assigns (Reader.ofText " '\n" {}) "A_1"
        (.string .double, value) := by
  intro written value
  have hspelled : SpellsAll '"' ['\x01', 'F', '\n', '\n', 'é', '\\']
      (['\\', 'u', '0', '0', '0', '1'] ++ (['F'] ++ (['\n'] ++ (['\\', 'n'] ++
        (['\\', 'u', '0', '0', 'E', '9'] ++ (['\\', '\\'] ++ [])))))) :=
    .cons (.unicode rfl (List.all_eq_true.1 rfl) (by decide)) <|
    .cons (.plain (by decide) (by decide)) <|
    .cons (.plain (by decide) (by decide)) <|
    .cons .newline <|
    .cons (.unicode rfl (List.all_eq_true.1 rfl) (by decide)) <|
    .cons (.mark (by decide)) .nil
  have hvalue : value.toList = ['\x01', 'F', '\n', '\n', 'é', '\\'] := by decide
  have hwritten : written.toList = '"' :: (['\\', 'u', '0', '0', '0', '1', 'F', '\n', '\\', 'n',
      '\\', 'u', '0', '0', 'E', '9', '\\', '\\'] ++ ['"']) := by
    decide
  have h : Delimited {} .double value.toList written.toList := by
    rw [hvalue, hwritten]
    exact .double hspelled
  exact ⟨h, assigns_delimited " '\n" (by decide) (by simp) h⟩

end SecretDotenv.Dotenv
