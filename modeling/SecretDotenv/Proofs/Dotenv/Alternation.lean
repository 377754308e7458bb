import SecretDotenv.Proofs.Dotenv.ReadNodes

/-! Names and values take turns. A value comes right behind a name and nowhere else, so
the pairing of tokens meets no name that lacks a value and no value that lacks a name:
every text that is read has one node for each name and each comment. -/
namespace SecretDotenv.Dotenv

open SecretDotenv.Text

theorem cause_of_fail {α : Type} {cause : ParseError.Cause} {c d : Cursor} {e : ParseError}
    (h : (fail cause c : Step α) = (.error e, d)) : e.cause = cause := by
  simp only [fail, Prod.mk.injEq, Except.error.injEq] at h
  rw [← h.1]

theorem readName_cause {start p : Position} {rest name : List Char} {ended : Bool} {e : ParseError}
    {c : Cursor} (h : readName start rest p name ended = (.error e, c)) : e.cause ≠ .orphanValue := by
  fun_induction readName start rest p name ended with
  | case3 => simp at h
  | case6 _ _ _ _ _ _ _ _ _ ih => exact ih h
  | case7 _ _ _ _ _ _ _ _ _ ih => exact ih h
  | case1 | case2 | case4 | case5 | case8 =>
    simp [cause_of_fail h]

theorem readEscaped_cause {quote : Char} {cause : ParseError.Cause} {token : String → Token}
    {rest text : List Char} {p : Position} {e : ParseError} {c : Cursor}
    (hcause : cause ≠ .orphanValue)
    (h : readEscaped quote cause token rest p text = (.error e, c)) : e.cause ≠ .orphanValue := by
  fun_induction readEscaped quote cause token rest p text with
  | case2 => simp at h
  | case1 | case3 =>
    rw [cause_of_fail h]
    exact hcause
  | case4 => simp [cause_of_fail h]
  | case5 _ _ _ _ _ _ _ ih => exact ih h
  | case6 | case7 | case8 => simp_all

theorem readSingleQuoted_cause {start p : Position} {rest text : List Char} {e : ParseError}
    {c : Cursor} (h : readSingleQuoted start rest p text = (.error e, c)) :
    e.cause ≠ .orphanValue := by
  fun_induction readSingleQuoted start rest p text with
  | case1 =>
    simp [cause_of_fail h]
  | case2 _ _ _ ih => exact ih h
  | case3 => simp at h
  | case4 _ _ _ _ _ _ ih => exact ih h

theorem readJson_cause {start p : Position} {rest text : List Char} {e : ParseError} {c : Cursor}
    (h : readJson start rest p text = (.error e, c)) : e.cause ≠ .orphanValue := by
  fun_induction readJson start rest p text with
  | case1 =>
    simp [cause_of_fail h]
  | case2 => simp at h
  | case3 _ _ _ _ _ ih => exact ih h

theorem readYaml_cause {start : Position} {c after : Cursor} {text : List Char} {e : ParseError}
    (h : readYaml start c text = (.error e, after)) : e.cause ≠ .orphanValue := by
  fun_induction readYaml start c text with
  | case1 =>
    simp [cause_of_fail h]
  | case2 => simp at h
  | case3 _ _ _ _ _ ih => exact ih h

theorem readValue_cause {options : ReaderOptions} {c after : Cursor} {e : ParseError}
    (h : readValue options c = (.error e, after)) : e.cause ≠ .orphanValue := by
  unfold readValue at h
  dsimp only at h
  split at h
  · simp at h
  · split at h
    · exact readEscaped_cause (by simp) h
    · exact readSingleQuoted_cause h
    · split at h
      · exact readEscaped_cause (by simp) h
      · split at h
        · exact readJson_cause h
        · split at h
          · exact readYaml_cause h
          · simp at h

theorem kind_readName {start p : Position} {rest name : List Char} {ended : Bool} {t : Token}
    {c : Cursor} (h : readName start rest p name ended = (.ok t, c)) : t.kind = .name := by
  fun_induction readName start rest p name ended with
  | case3 =>
    obtain rfl := Except.ok.inj (Prod.mk.inj h).1
    rfl
  | case6 _ _ _ _ _ _ _ _ _ ih => exact ih h
  | case7 _ _ _ _ _ _ _ _ _ ih => exact ih h
  | case1 | case2 | case4 | case5 | case8 => simp [fail] at h

theorem length_readName {start p : Position} {rest name : List Char} {ended : Bool} {t : Token}
    {c : Cursor} (h : readName start rest p name ended = (.ok t, c)) :
    c.rest.length + (if name.isEmpty then 2 else 1) ≤ rest.length := by
  fun_induction readName start rest p name ended with
  | case3 p name ended rest hempty =>
    simp only [Prod.mk.injEq] at h
    simp [← h.2, hempty]
  | case6 p name ended x rest _ _ _ _ ih =>
    have hrest := ih h
    simp only [List.isEmpty_cons, Bool.false_eq_true, if_false, List.length_cons] at hrest ⊢
    split <;> omega
  | case7 p name ended x rest _ _ _ _ ih =>
    have hrest := ih h
    simp only [List.length_cons]
    omega
  | case1 | case2 | case4 | case5 | case8 => simp [fail] at h

theorem readNameOrComment_cases (c : Cursor) :
    (∃ d, readNameOrComment c = (.ok none, d)) ∨
      (∃ t d, readNameOrComment c = (.ok (some t), d) ∧
        (t.kind = .name ∧ d.rest.length + 2 ≤ c.rest.length ∨
          t.kind = .comment ∧ d.rest.length + 1 ≤ c.rest.length)) ∨
      ∃ e d, readNameOrComment c = (.error e, d) ∧ e.cause ≠ .orphanValue ∧
        0 < c.rest.length := by
  have hskipped := Cursor.length_skipWhile_le isBlank c
  unfold readNameOrComment
  dsimp only
  split
  · exact Or.inl ⟨_, rfl⟩
  · next rest hrest =>
    refine Or.inr (Or.inl ⟨_, _, rfl, Or.inr ⟨rfl, ?_⟩⟩)
    have htaken := length_takeLine_le ((c.skipWhile isBlank).skip ['#'] rest)
    rw [hrest, List.length_cons] at hskipped
    simp only [Cursor.skip] at htaken ⊢
    omega
  · next hne _ =>
    rcases hread : readName (c.skipWhile isBlank).position (c.skipWhile isBlank).rest
      (c.skipWhile isBlank).position [] false with ⟨result, d⟩
    cases result with
    | ok t =>
      have htaken := length_readName hread
      refine Or.inr (Or.inl ⟨t, d, rfl, Or.inl ⟨kind_readName hread, ?_⟩⟩)
      simp only [List.isEmpty_nil, if_true] at htaken
      omega
    | error e =>
      refine Or.inr (Or.inr ⟨e, d, rfl, readName_cause hread, ?_⟩)
      have hsome := List.length_pos_iff.2 hne
      omega

namespace Reader

/-- The most that a reader can still give: a token for each character, and a value that is due. -/
def due (r : Reader) : Nat :=
  r.cursor.rest.length + if r.expectsValue then 1 else 0

inductive Comes (r : Reader) : Except ParseError (Option Token) → Reader → Prop
  | ended {s : Reader} (hr : r.expectsValue = false) (hs : s.expectsValue = false) :
    Comes r (.ok none) s
  | name {t : Token} {s : Reader} (hr : r.expectsValue = false) (hkind : t.kind = .name)
    (hs : s.expectsValue = true) (hdue : s.due < r.due) : Comes r (.ok (some t)) s
  | comment {t : Token} {s : Reader} (hr : r.expectsValue = false) (hkind : t.kind = .comment)
    (hs : s.expectsValue = false) (hdue : s.due < r.due) : Comes r (.ok (some t)) s
  | value {t : Token} {s : Reader} (hr : r.expectsValue = true) (hkind : t.kind.isValue)
    (hs : s.expectsValue = false) (hdue : s.due < r.due) : Comes r (.ok (some t)) s
  | fault {e : ParseError} {s : Reader} (hcause : e.cause ≠ .orphanValue)
    (hs : s.expectsValue = false) (hdue : 0 < r.due) : Comes r (.error e) s

theorem next_comes (r : Reader) : r.Comes r.next.1 r.next.2 := by
  unfold next
  cases hr : r.expectsValue with
  | true =>
    rcases hread : readValue r.options r.cursor with ⟨result, d⟩
    cases result with
    | ok t =>
      have hlength := length_readValue_le r.options r.cursor
      rw [hread] at hlength
      refine .value hr (readValue_isValue hread) rfl ?_
      simp only [due, hr, if_true, Bool.false_eq_true, if_false] at hlength ⊢
      omega
    | error e => exact .fault (readValue_cause hread) rfl (by simp [due, hr])
  | false =>
    rcases readNameOrComment_cases r.cursor with ⟨d, hread⟩ |
      ⟨t, d, hread, ⟨hkind, hlength⟩ | ⟨hkind, hlength⟩⟩ | ⟨e, d, hread, hcause, hsome⟩
    · simpa [hread] using .ended hr rfl
    · rw [hread]
      refine .name hr hkind (by simp [hkind]) ?_
      simp only [due, hr, hkind, beq_self_eq_true, Bool.false_eq_true, if_true, if_false]
      omega
    · rw [hread]
      refine .comment hr hkind (by simp [hkind]) ?_
      simp [due, hr, hkind]
      omega
    · rw [hread]
      exact .fault hcause rfl (by simpa [due, hr] using hsome)

theorem comes_of_next {r s : Reader} {given : Except ParseError (Option Token)}
    (h : r.next = (given, s)) : r.Comes given s := by
  have hcomes := r.next_comes
  rwa [h] at hcomes

/-- The reader behind `n` calls, whatever these came to. -/
def after (r : Reader) : Nat → Reader
  | 0 => r
  | n + 1 => (r.after n).next.2

/-- What the call behind `n` others comes to. -/
def given (r : Reader) (n : Nat) : Except ParseError (Option Token) :=
  (r.after n).next.1

theorem after_succ (r : Reader) (n : Nat) : r.after (n + 1) = r.next.2.after n := by
  induction n with
  | zero => rfl
  | succ n ih => exact congrArg (·.next.2) ih

theorem given_succ (r : Reader) (n : Nat) : r.given (n + 1) = r.next.2.given n := by
  rw [given, after_succ, given]

theorem given_comes (r : Reader) (n : Nat) :
    (r.after n).Comes (r.given n) (r.after (n + 1)) :=
  next_comes _

theorem expectsValue_after {r : Reader} {n : Nat} (h : (r.after (n + 1)).expectsValue) :
    ∃ name, r.given n = .ok (some name) ∧ name.kind = .name := by
  have hcomes := r.given_comes n
  generalize r.given n = given at hcomes
  cases hcomes with
  | name _ hkind => exact ⟨_, rfl, hkind⟩
  | ended _ hs | comment _ _ hs | value _ _ hs | fault _ hs => simp [hs] at h

theorem name_of_given_value {r : Reader} (hr : r.expectsValue = false) {n : Nat} {t : Token}
    (ht : r.given n = .ok (some t)) (hvalue : t.kind.isValue) :
    ∃ k name, n = k + 1 ∧ r.given k = .ok (some name) ∧ name.kind = .name := by
  have hexpects : (r.after n).expectsValue := by
    have hcomes := r.given_comes n
    rw [ht] at hcomes
    cases hcomes with
    | value hr => exact hr
    | name _ hkind | comment _ hkind => simp [hkind, TokenKind.isValue] at hvalue
  cases n with
  | zero => simp [after, hr] at hexpects
  | succ k =>
    obtain ⟨name, hname, hkind⟩ := expectsValue_after hexpects
    exact ⟨k, name, rfl, hname, hkind⟩

theorem value_of_given_name {r : Reader} {n : Nat} {name : Token}
    (hname : r.given n = .ok (some name)) (hkind : name.kind = .name) :
    (∃ value, r.given (n + 1) = .ok (some value) ∧ value.kind.isValue) ∨
      ∃ e, r.given (n + 1) = .error e := by
  have hexpects : (r.after (n + 1)).expectsValue := by
    have hcomes := r.given_comes n
    rw [hname] at hcomes
    cases hcomes with
    | name _ _ hs => exact hs
    | comment _ hother => simp [hkind] at hother
    | value _ hvalue => simp [hkind, TokenKind.isValue] at hvalue
  have hcomes := r.given_comes (n + 1)
  generalize r.given (n + 1) = given at hcomes
  cases hcomes with
  | value _ hvalue => exact Or.inl ⟨_, rfl, hvalue⟩
  | fault => exact Or.inr ⟨_, rfl⟩
  | ended hr | name hr | comment hr => simp [hr] at hexpects

theorem given_of_tokens (r : Reader) :
    (∀ n t, r.tokens.1[n]? = some t → r.given n = .ok (some t)) ∧
      r.given r.tokens.1.length = (match r.tokens.2 with | none => .ok none | some e => .error e) := by
  fun_induction Reader.tokens r with
  | case1 r s hnext => simp [given, after, hnext]
  | case2 r e s hnext => simp [given, after, hnext]
  | case3 r t s hnext more error htokens ih =>
    rw [htokens] at ih
    refine ⟨?_, ?_⟩
    · intro n x hx
      cases n with
      | zero =>
        obtain rfl : t = x := by simpa using hx
        simp [given, after, hnext]
      | succ n =>
        rw [given_succ, hnext]
        exact ih.1 n x (by simpa using hx)
    · rw [List.length_cons, given_succ, hnext]
      exact ih.2

theorem length_tokens_le (r : Reader) :
    r.tokens.1.length + r.tokens.2.toList.length ≤ r.due := by
  fun_induction Reader.tokens r with
  | case1 => simp
  | case2 r e s hnext =>
    cases comes_of_next hnext with
    | fault _ _ hdue => exact hdue
  | case3 r t s hnext more error htokens ih =>
    have hdue : s.due < r.due := by
      cases comes_of_next hnext with
      | name _ _ _ hdue | comment _ _ _ hdue | value _ _ _ hdue => exact hdue
    rw [htokens] at ih
    simp only [List.length_cons] at ih ⊢
    omega

theorem tokens_cause {r : Reader} {e : ParseError} (h : r.tokens.2 = some e) :
    e.cause ≠ .orphanValue := by
  have hlast := (given_of_tokens r).2
  rw [h] at hlast
  have hcomes := r.given_comes r.tokens.1.length
  rw [hlast] at hcomes
  cases hcomes with
  | fault hcause => exact hcause

end Reader

namespace Document

/-- The pairing as far as names and values meet: it stops at a name that lacks a value and
at a value that lacks a name. The last name may still wait. -/
def paired? : Option String → List Token → Option (Option String × List Node)
  | pending, [] => some (pending, [])
  | none, t :: rest =>
    match t.kind with
    | .name => paired? (some t.text) rest
    | .comment => (paired? none rest).map fun (last, nodes) => (last, .comment t.text :: nodes)
    | _ => none
  | some name, t :: rest =>
    if t.kind.isValue then
      (paired? none rest).map fun (last, nodes) => (last, .entry { name, value := t.text } :: nodes)
    else none

inductive Pairs : List Token → List Node → Prop
  | nil : Pairs [] []
  | comment {t : Token} {rest : List Token} {nodes : List Node} (hkind : t.kind = .comment)
    (hrest : Pairs rest nodes) : Pairs (t :: rest) (.comment t.text :: nodes)
  | entry {name value : Token} {rest : List Token} {nodes : List Node} (hname : name.kind = .name)
    (hvalue : value.kind.isValue) (hrest : Pairs rest nodes) :
    Pairs (name :: value :: rest) (.entry { name := name.text, value := value.text } :: nodes)

variable {pending last : Option String} {tokens : List Token} {nodes : List Node}

theorem nodesOfTokens_append (h : paired? pending tokens = some (last, nodes)) (more : List Token) :
    nodesOfTokens pending (tokens ++ more) = (nodesOfTokens last more).map (nodes ++ ·) := by
  fun_induction paired? pending tokens generalizing nodes with
  | case1 pending =>
    obtain ⟨rfl, rfl⟩ := Prod.mk.inj (Option.some.inj h)
    rw [List.nil_append]
    cases nodesOfTokens pending more <;> rfl
  | case2 t rest hkind ih =>
    rw [List.cons_append, nodesOfTokens_cons, hkind]
    dsimp only
    rw [ih h]
    cases nodesOfTokens last more <;> rfl
  | case3 t rest hkind ih =>
    obtain ⟨⟨final, front⟩, hfront, heq⟩ := Option.map_eq_some_iff.1 h
    obtain ⟨rfl, rfl⟩ := Prod.mk.inj heq
    rw [List.cons_append, nodesOfTokens_cons, hkind]
    dsimp only
    rw [ih hfront]
    cases nodesOfTokens final more <;> rfl
  | case4 => contradiction
  | case5 name t rest hvalue ih =>
    obtain ⟨⟨final, front⟩, hfront, heq⟩ := Option.map_eq_some_iff.1 h
    obtain ⟨rfl, rfl⟩ := Prod.mk.inj heq
    rw [List.cons_append, nodesOfTokens_cons]
    dsimp only
    rw [ih hfront]
    split
    · next hkind => simp [hkind, TokenKind.isValue] at hvalue
    · next hkind => simp [hkind, TokenKind.isValue] at hvalue
    · cases nodesOfTokens final more <;> rfl
  | case6 => contradiction

theorem nodesOfTokens_of_paired (h : paired? pending tokens = some (none, nodes)) :
    nodesOfTokens pending tokens = .ok nodes := by
  have happend := nodesOfTokens_append h []
  rw [List.append_nil] at happend
  rw [happend]
  simp [nodesOfTokens, Except.map]

theorem pairs_of_paired (h : paired? pending tokens = some (none, nodes)) :
    pending.elim (Pairs tokens nodes) fun name =>
      ∃ value rest more, tokens = value :: rest ∧ value.kind.isValue ∧
        nodes = .entry { name, value := value.text } :: more ∧ Pairs rest more := by
  fun_induction paired? pending tokens generalizing nodes with
  | case1 pending =>
    obtain ⟨rfl, rfl⟩ := Prod.mk.inj (Option.some.inj h)
    exact .nil
  | case2 t rest hkind ih =>
    obtain ⟨value, behind, more, rfl, hvalue, rfl, hrest⟩ := ih h
    exact .entry hkind hvalue hrest
  | case3 t rest hkind ih =>
    obtain ⟨⟨final, front⟩, hfront, heq⟩ := Option.map_eq_some_iff.1 h
    obtain ⟨rfl, rfl⟩ := Prod.mk.inj heq
    exact .comment hkind (ih hfront)
  | case4 => contradiction
  | case5 name t rest hvalue ih =>
    obtain ⟨⟨final, front⟩, hfront, heq⟩ := Option.map_eq_some_iff.1 h
    obtain ⟨rfl, rfl⟩ := Prod.mk.inj heq
    exact ⟨t, rest, front, rfl, hvalue, rfl, ih hfront⟩
  | case6 => contradiction

end Document

/-- What a reader gives can be paired; a name waits at the end only if its value has a fault. -/
theorem Reader.tokens_paired {r : Reader} {pending : Option String}
    (hr : r.expectsValue = pending.isSome) :
    ∃ last nodes, Document.paired? pending r.tokens.1 = some (last, nodes) ∧
      (r.tokens.2 = none → last = none) := by
  fun_induction Reader.tokens r generalizing pending with
  | case1 r s hnext =>
    cases comes_of_next hnext with
    | ended hr' =>
      obtain rfl : pending = none := by simpa [hr'] using hr.symm
      exact ⟨none, [], by simp [Document.paired?], fun _ => rfl⟩
  | case2 r e s hnext => exact ⟨pending, [], by simp [Document.paired?], by simp⟩
  | case3 r t s hnext more error htokens ih =>
    rw [htokens] at ih
    cases comes_of_next hnext with
    | name hr' hkind hs =>
      obtain rfl : pending = none := by simpa [hr'] using hr.symm
      obtain ⟨last, nodes, hpaired, hlast⟩ :=
        ih (show s.expectsValue = (some t.text).isSome from hs)
      exact ⟨last, nodes, by simp [Document.paired?, hkind, hpaired], hlast⟩
    | comment hr' hkind hs =>
      obtain rfl : pending = none := by simpa [hr'] using hr.symm
      obtain ⟨last, nodes, hpaired, hlast⟩ :=
        ih (show s.expectsValue = (none : Option String).isSome from hs)
      exact ⟨last, .comment t.text :: nodes, by simp [Document.paired?, hkind, hpaired], hlast⟩
    | value hr' hkind hs =>
      obtain ⟨name, rfl⟩ : ∃ name, pending = some name := by
        simpa [hr', Option.isSome_iff_exists] using hr.symm
      obtain ⟨last, nodes, hpaired, hlast⟩ :=
        ih (show s.expectsValue = (none : Option String).isSome from hs)
      exact ⟨last, .entry { name, value := t.text } :: nodes,
        by simp [Document.paired?, hkind, hpaired], hlast⟩

theorem Document.parse_cases (text : String) (options : ReaderOptions) :
    (∃ nodes, (Dotenv.tokens text options).2 = none ∧
        paired? none (Dotenv.tokens text options).1 = some (none, nodes) ∧
        parse text options = .ok { nodes }) ∨
      ∃ e last nodes, (Dotenv.tokens text options).2 = some e ∧
        paired? none (Dotenv.tokens text options).1 = some (last, nodes) ∧
        parse text options = .error e := by
  have hstart : (Reader.ofText text options).expectsValue = (none : Option String).isSome := rfl
  obtain ⟨last, nodes, hpaired, hlast⟩ := Reader.tokens_paired hstart
  unfold parse Dotenv.tokens
  generalize (Reader.ofText text options).tokens = stream at hpaired hlast ⊢
  obtain ⟨ts, error⟩ := stream
  cases error with
  | none =>
    obtain rfl := hlast rfl
    refine Or.inl ⟨nodes, rfl, hpaired, ?_⟩
    simp only [nodesOfTokens_of_paired hpaired]
    rfl
  | some e =>
    refine Or.inr ⟨e, last, nodes, rfl, hpaired, ?_⟩
    have hnodes := nodesOfTokens_append hpaired []
    rw [List.append_nil] at hnodes
    simp only [hnodes]
    cases last <;> rfl

/-- What the calls of a reader come to, from the first on, and what is made of it. -/
structure TakesTurns (text : String) (options : ReaderOptions) : Prop where
  value : ∀ n t, (Reader.ofText text options).given n = .ok (some t) → t.kind.isValue →
    ∃ k name, n = k + 1 ∧ (Reader.ofText text options).given k = .ok (some name) ∧
      name.kind = .name
  behind : ∀ n name, (Reader.ofText text options).given n = .ok (some name) → name.kind = .name →
    (∃ value, (Reader.ofText text options).given (n + 1) = .ok (some value) ∧
        value.kind.isValue) ∨
      ∃ e, (Reader.ofText text options).given (n + 1) = .error e
  name : ∀ n t, (Reader.ofText text options).given n = .ok (some t) → t.kind = .name →
    t.text ≠ "" ∧ ∀ c ∈ t.text.toList, c.isAlphanum ∨ c = '_'
  comment : ∀ n t, (Reader.ofText text options).given n = .ok (some t) → t.kind = .comment →
    '\n' ∉ t.text.toList
  /-- The stream is what the calls come to, and it stops at the end or at the first fault. -/
  stream : (∀ n t, (tokens text options).1[n]? = some t →
      (Reader.ofText text options).given n = .ok (some t)) ∧
    (Reader.ofText text options).given (tokens text options).1.length =
      (match (tokens text options).2 with | none => .ok none | some e => .error e)
  length_le : (tokens text options).1.length + (tokens text options).2.toList.length ≤ text.length
  /-- Up to the end or the first fault the pairing meets no name that lacks a value and no
  value that lacks a name. -/
  paired : (Document.paired? none (tokens text options).1).isSome
  document : match (tokens text options).2 with
    | none => ∃ nodes, Document.paired? none (tokens text options).1 = some (none, nodes) ∧
        Document.Pairs (tokens text options).1 nodes ∧
        Document.parse text options = .ok { nodes }
    | some e => e.cause ≠ .orphanValue ∧ Document.parse text options = .error e

theorem takesTurns (text : String) (options : ReaderOptions) : TakesTurns text options := by
  have hreadable : ∀ n t, (Reader.ofText text options).given n = .ok (some t) → t.IsReadable := by
    intro n t ht
    exact Reader.next_isReadable (r := (Reader.ofText text options).after n)
      (s := ((Reader.ofText text options).after n).next.2) (Prod.ext ht rfl)
  refine ⟨?_, ?_, ?_, ?_, ?_, ?_, ?_, ?_⟩
  · intro n t ht hvalue
    exact Reader.name_of_given_value rfl ht hvalue
  · intro n name hname hkind
    exact Reader.value_of_given_name hname hkind
  · intro n t ht hkind
    have hname := hreadable n t ht
    rw [Token.IsReadable, hkind] at hname
    exact hname
  · intro n t ht hkind
    have hcomment := hreadable n t ht
    rw [Token.IsReadable, hkind] at hcomment
    exact hcomment
  · exact Reader.given_of_tokens _
  · have hlength := Reader.length_tokens_le (Reader.ofText text options)
    simp only [Reader.due, Reader.ofText, Bool.false_eq_true, if_false, String.length_toList,
      Nat.add_zero] at hlength
    exact hlength
  · rcases Document.parse_cases text options with ⟨nodes, -, hpaired, -⟩ | ⟨e, last, nodes, -, hpaired, -⟩
    · simp [hpaired]
    · simp [hpaired]
  · rcases Document.parse_cases text options with ⟨nodes, herror, hpaired, hparse⟩ |
      ⟨e, last, nodes, herror, -, hparse⟩
    · rw [herror]
      exact ⟨nodes, hpaired, Document.pairs_of_paired hpaired, hparse⟩
    · rw [herror]
      exact ⟨Reader.tokens_cause herror, hparse⟩

end SecretDotenv.Dotenv
