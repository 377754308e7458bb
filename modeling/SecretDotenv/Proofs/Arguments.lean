import SecretDotenv.Arguments
import SecretDotenv.Proofs.Text.Pieces

/-! Arguments are read back from every text that writes them: bare or between quotes, and with any
white space and joined lines between them, before them and behind them. No text has an empty
argument. -/
namespace SecretDotenv.Arguments

open SecretDotenv.Text

def quotes : List Char := ['\'', '"']

def joints : List Char := ['\\', '\x60']

/-- The ways to write an argument. -/
inductive Writes (word : List Char) : List Char → Prop where
  | bare (hblank : ∀ c ∈ word, isBlank c = false) (hquote : ∀ c ∈ word.head?, c ∉ quotes) :
      Writes word word
  | quoted {quote : Char} (hquote : quote ∈ quotes) (h : quote ∉ word) :
      Writes word (quote :: (word ++ [quote]))

inductive IsGap : List Char → Prop where
  | nil : IsGap []
  | blank {c : Char} {gap : List Char} (hc : isBlank c) (hgap : IsGap gap) : IsGap (c :: gap)
  | joined {joint : Char} {ending gap : List Char} (hjoint : joint ∈ joints)
      (hending : ending ∈ lineBreaks) (hgap : IsGap gap) : IsGap (joint :: (ending ++ gap))

inductive Separates : List Char → Prop where
  | space {gap : List Char} (h : IsGap gap) : Separates (' ' :: gap)

/-- What may stand in front of the first argument and behind the last. -/
def IsEdge (text : List Char) : Prop :=
  text = [] ∨ Separates text

/-- Arguments as they are written, with a separator behind each but the last. -/
inductive WritesAll : List (List Char) → List Char → Prop where
  | nil : WritesAll [] []
  | single {word written : List Char} (h : Writes word written) : WritesAll [word] written
  | cons {word written separator text : List Char} {words : List (List Char)}
      (h : Writes word written) (hseparator : Separates separator) (hrest : WritesAll words text) :
      WritesAll (word :: words) (written ++ (separator ++ text))

theorem emit_of_ne_nil {word : List Char} (h : word ≠ []) (more : List (List Char)) :
    emit word more = word.reverse :: more := by
  simp [emit, h]

theorem splitFrom_nil (quote : Option Char) (word : List Char) :
    splitFrom quote word [] = emit word [] := by
  cases quote <;> rfl

theorem splitFrom_some (quote c : Char) (word rest : List Char) :
    splitFrom (some quote) word (c :: rest) =
      if c = quote then emit word (splitFrom none [] rest)
      else splitFrom (some quote) (c :: word) rest := rfl

theorem splitFrom_none {c : Char} {word rest : List Char}
    (h : word = [] → c ∈ joints → ∀ d ∈ rest.head?, d ∉ ['\n', '\r']) :
    splitFrom none word (c :: rest) =
      if isBlank c then emit word (splitFrom none [] rest)
      else if word.isEmpty && (c = '\'' || c = '"') then splitFrom (some c) [] rest
      else splitFrom none (c :: word) rest := by
  have hopen : ∀ {d more}, d ∈ ['\n', '\r'] → rest = d :: more → c ∈ joints → word ≠ [] := by
    rintro d more hd rfl hc hword
    exact h hword hc d rfl hd
  rw [splitFrom.eq_def]
  split
  case h_1 | h_2 => contradiction
  case h_7 htext =>
    obtain ⟨rfl, rfl⟩ := List.cons.inj htext
    rfl
  all_goals
    next htext =>
    obtain ⟨rfl, hrest⟩ := List.cons.inj htext
    exact absurd rfl (hopen (by decide) hrest (by decide))

theorem isBlank_of_mem_joints {c : Char} (h : c ∈ joints) : isBlank c = false := by
  simp only [joints, List.mem_cons, List.not_mem_nil, or_false] at h
  rcases h with rfl | rfl <;> rfl

theorem splitFrom_blank {c : Char} (hc : isBlank c) (word rest : List Char) :
    splitFrom none word (c :: rest) = emit word (splitFrom none [] rest) := by
  rw [splitFrom_none fun _ hjoint => by simp [isBlank_of_mem_joints hjoint] at hc, if_pos hc]

theorem splitFrom_joined {joint : Char} {ending : List Char} (hjoint : joint ∈ joints)
    (hending : ending ∈ lineBreaks) (rest : List Char) :
    splitFrom none [] (joint :: (ending ++ rest)) = splitFrom none [] rest := by
  simp only [joints, lineBreaks, List.mem_cons, List.not_mem_nil, or_false] at hjoint hending
  rcases hjoint with rfl | rfl <;> rcases hending with rfl | rfl <;> rfl

theorem splitFrom_open {quote : Char} (hquote : quote ∈ quotes) (rest : List Char) :
    splitFrom none [] (quote :: rest) = splitFrom (some quote) [] rest := by
  simp only [quotes, List.mem_cons, List.not_mem_nil, or_false] at hquote
  rcases hquote with rfl | rfl <;> rfl

theorem splitFrom_plain {c : Char} {word rest : List Char} (hblank : isBlank c = false)
    (hquote : word = [] → c ∉ quotes)
    (hrest : word = [] → ∀ d ∈ rest.head?, d ∉ ['\n', '\r']) :
    splitFrom none word (c :: rest) = splitFrom none (c :: word) rest := by
  have hopen : (word.isEmpty && (c = '\'' || c = '"')) = false := by
    cases word with
    | nil => simpa [quotes] using hquote rfl
    | cons d word => rfl
  rw [splitFrom_none fun hword _ => hrest hword, hblank, hopen]
  simp

theorem splitFrom_gap {gap : List Char} (h : IsGap gap) (rest : List Char) :
    splitFrom none [] (gap ++ rest) = splitFrom none [] rest := by
  induction h with
  | nil => rfl
  | blank hc _ ih =>
    rw [List.cons_append, splitFrom_blank hc, ih]
    rfl
  | joined hjoint hending _ ih =>
    rw [List.cons_append, List.append_assoc, splitFrom_joined hjoint hending, ih]

theorem splitFrom_separates {separator : List Char} (h : Separates separator) (rest : List Char) :
    splitFrom none [] (separator ++ rest) = splitFrom none [] rest := by
  obtain ⟨h⟩ := h
  exact splitFrom_gap (.blank rfl h) rest

theorem splitFrom_bare {word : List Char} (hblank : ∀ c ∈ word, isBlank c = false)
    {before rest : List Char} (hbefore : before ≠ []) (hrest : ∀ c ∈ rest.head?, c = ' ') :
    splitFrom none before (word ++ rest) = (before.reverse ++ word) :: splitFrom none [] rest := by
  induction word generalizing before with
  | nil =>
    cases rest with
    | nil => rw [List.append_nil, splitFrom_nil, splitFrom_nil, emit_of_ne_nil hbefore]; simp [emit]
    | cons c rest =>
      obtain rfl := hrest c rfl
      rw [List.nil_append, splitFrom_blank rfl, splitFrom_blank rfl, emit_of_ne_nil hbefore]
      simp [emit]
  | cons c word ih =>
    obtain ⟨hc, hword⟩ := List.forall_mem_cons.1 hblank
    rw [List.cons_append, splitFrom_plain hc (absurd · hbefore) (absurd · hbefore),
      ih hword (List.cons_ne_nil _ _)]
    simp

theorem splitFrom_quoted {quote : Char} {word : List Char} (h : quote ∉ word)
    (before rest : List Char) :
    splitFrom (some quote) before (word ++ quote :: rest) =
      emit (word.reverse ++ before) (splitFrom none [] rest) := by
  induction word generalizing before with
  | nil => rw [List.nil_append, splitFrom_some, if_pos rfl, List.reverse_nil, List.nil_append]
  | cons c word ih =>
    obtain ⟨hc, hword⟩ := not_or.1 (mt List.mem_cons.2 h)
    rw [List.cons_append, splitFrom_some, if_neg (Ne.symm hc), ih hword]
    simp

theorem splitFrom_writes {word written rest : List Char} (h : Writes word written)
    (hne : word ≠ []) (hrest : ∀ c ∈ rest.head?, c = ' ') :
    splitFrom none [] (written ++ rest) = word :: splitFrom none [] rest := by
  cases h with
  | bare hblank hquote =>
    cases word with
    | nil => exact absurd rfl hne
    | cons c word =>
      obtain ⟨hc, hword⟩ := List.forall_mem_cons.1 hblank
      have hnext : ∀ d ∈ (word ++ rest).head?, d ∉ ['\n', '\r'] := by
        cases word with
        | nil =>
          intro d hd
          rw [hrest d hd]
          decide
        | cons e word =>
          rintro d ⟨⟩ hd
          have hall : ['\n', '\r'].all isBlank := by decide
          have hblank : isBlank e := List.all_eq_true.1 hall e hd
          simp [hword e List.mem_cons_self] at hblank
      rw [List.cons_append, splitFrom_plain hc (fun _ => hquote c rfl) fun _ => hnext,
        splitFrom_bare hword (List.cons_ne_nil c []) hrest]
      rfl
  | quoted hquote h =>
    rw [List.cons_append, List.append_assoc, splitFrom_open hquote, List.singleton_append,
      splitFrom_quoted h, List.append_nil, emit_of_ne_nil (by simpa using hne),
      List.reverse_reverse]

theorem splitFrom_edge {text : List Char} (h : IsEdge text) : splitFrom none [] text = [] := by
  rcases h with rfl | h
  · rfl
  · have hread := splitFrom_separates h []
    rwa [List.append_nil] at hread

theorem splitFrom_writesAll {words : List (List Char)} {text edge : List Char}
    (h : WritesAll words text) (hne : ∀ word ∈ words, word ≠ []) (hedge : IsEdge edge) :
    splitFrom none [] (text ++ edge) = words := by
  have hspace : ∀ {separator : List Char}, Separates separator → ∀ rest : List Char,
      ∀ c ∈ (separator ++ rest).head?, c = ' ' := by
    rintro separator ⟨h⟩ rest c ⟨⟩
    rfl
  induction h with
  | nil => exact splitFrom_edge hedge
  | single h =>
    have hend : ∀ c ∈ edge.head?, c = ' ' := by
      rcases hedge with rfl | hedge
      · simp
      · simpa using hspace hedge []
    rw [splitFrom_writes h (hne _ List.mem_cons_self) hend, splitFrom_edge hedge]
  | cons h hseparator _ ih =>
    obtain ⟨hword, hwords⟩ := List.forall_mem_cons.1 hne
    rw [List.append_assoc, List.append_assoc, splitFrom_writes h hword (hspace hseparator _),
      splitFrom_separates hseparator, ih hwords]

theorem mem_emit {word w : List Char} {more : List (List Char)} (h : w ∈ emit word more) :
    w ≠ [] ∨ w ∈ more := by
  unfold emit at h
  split at h
  · exact Or.inr h
  · next hne =>
    rcases List.mem_cons.1 h with rfl | h
    · exact Or.inl (by simpa using hne)
    · exact Or.inr h

theorem ne_nil_of_mem_splitFrom {quote : Option Char} {before text word : List Char}
    (h : word ∈ splitFrom quote before text) : word ≠ [] := by
  have hemit : ∀ {taken : List Char} {more : List (List Char)}, word ∈ emit taken more →
      (word ∈ more → word ≠ []) → word ≠ [] := fun h hmore => (mem_emit h).elim id hmore
  fun_induction splitFrom quote before text with
  | case1 => exact hemit h (absurd · List.not_mem_nil)
  | case2 _ _ _ ih => exact hemit h ih
  | case8 => rename_i ih; exact hemit h ih
  | case3 | case4 | case5 | case6 | case7 | case9 | case10 => rename_i ih; exact ih h

/-- The texts in which arguments are written, with white space around them or not. -/
inductive Renders (words : List (List Char)) : List Char → Prop where
  | mk {front text back : List Char} (hfront : IsEdge front) (h : WritesAll words text)
      (hback : IsEdge back) : Renders words (front ++ (text ++ back))

theorem splitChars_renders {words : List (List Char)} {text : List Char} (h : Renders words text)
    (hne : ∀ word ∈ words, word ≠ []) : splitChars text = words := by
  obtain ⟨hfront, h, hback⟩ := h
  rw [splitChars]
  rcases hfront with rfl | hfront
  · rw [List.nil_append, splitFrom_writesAll h hne hback]
  · rw [splitFrom_separates hfront, splitFrom_writesAll h hne hback]

/-- Arguments come back from every text in which they are written, and none is ever empty. -/
theorem split_renders :
    (∀ (words : List String) (text : String), (∀ word ∈ words, word ≠ "") →
      Renders (words.map String.toList) text.toList → split text = words) ∧
    ∀ text, "" ∉ split text := by
  refine ⟨fun words text hne h => ?_, fun text h => ?_⟩
  · have hchars : ∀ word ∈ words.map String.toList, word ≠ [] := by
      intro word hword
      obtain ⟨w, hw, rfl⟩ := List.mem_map.1 hword
      exact mt String.toList_eq_nil_iff.1 (hne w hw)
    rw [split, splitChars_renders h hchars, List.map_map]
    refine (List.map_congr_left fun word _ => ?_).trans (List.map_id words)
    exact String.ofList_toList
  · obtain ⟨word, hword, hempty⟩ := List.mem_map.1 h
    exact ne_nil_of_mem_splitFrom hword (String.ofList_eq_empty_iff.1 hempty)

/-- A backslash in front of a joined line, a quote and a line break between other quotes, and a
quote inside a bare argument. -/
theorem split_renders_joined :
    let words := ["\\", "a'\n", "\x60\"s"]
    let text := " \t\\ \\\r\n\"a'\n\" \x60\n\n\x60\"s "
    (∀ word ∈ words, word ≠ "") ∧ Renders (words.map String.toList) text.toList ∧
      split text = words := by
  intro words text
  have hne : ∀ word ∈ words, word ≠ "" := by decide
  have hfront : Separates [' ', '\t'] := .space (.blank rfl .nil)
  have hfirst : Writes ['\\'] ['\\'] := by
    apply Writes.bare
    · simp
      decide
    · simp [quotes]
  have hjoined : Separates [' ', '\\', '\r', '\n'] :=
    .space (.joined (by decide) (by decide : ['\r', '\n'] ∈ lineBreaks) .nil)
  have hsecond : Writes ['a', '\'', '\n'] ('"' :: (['a', '\'', '\n'] ++ ['"'])) :=
    .quoted (by decide) (by decide)
  have hbroken : Separates [' ', '\x60', '\n', '\n'] :=
    .space (.joined (by decide) (by decide : ['\n'] ∈ lineBreaks) (.blank rfl .nil))
  have hthird : Writes ['\x60', '"', 's'] ['\x60', '"', 's'] := by
    apply Writes.bare
    · simp
      decide
    · simp [quotes]
  have hwords : words.map String.toList = [['\\'], ['a', '\'', '\n'], ['\x60', '"', 's']] := by
    decide
  have htext : text.toList = [' ', '\t', '\\', ' ', '\\', '\r', '\n', '"', 'a', '\'', '\n', '"',
      ' ', '\x60', '\n', '\n', '\x60', '"', 's', ' '] := by
    decide
  have hrenders : Renders (words.map String.toList) text.toList := by
    rw [hwords, htext]
    exact Renders.mk (Or.inr hfront)
      (.cons hfirst hjoined (.cons hsecond hbroken (.single hthird))) (Or.inr (.space .nil))
  exact ⟨hne, hrenders, split_renders.1 words text hne hrenders⟩

end SecretDotenv.Arguments
