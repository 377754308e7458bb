import SecretDotenv.Proofs.Dotenv.WrittenForm

/-! What a document that was read can hold: names of letters, digits and underscores,
and comments of one line. So it can be written and read again. -/
namespace SecretDotenv.Dotenv

open SecretDotenv.Text

def Token.IsReadable (t : Token) : Prop :=
  match t.kind with
  | .name => (Node.entry { name := t.text, value := "" }).IsReadable
  | .comment => (Node.comment t.text).IsReadable
  | _ => True

theorem Token.isReadable_of_isValue {t : Token} (h : t.kind.isValue) : t.IsReadable := by
  unfold Token.IsReadable
  split
  · next hkind =>
    rw [hkind] at h
    contradiction
  · next hkind =>
    rw [hkind] at h
    contradiction
  · trivial

theorem readName_isReadable {start p : Position} {rest name : List Char} {ended : Bool}
    {t : Token} {c : Cursor} (hname : ∀ x ∈ name, isNameChar x)
    (h : readName start rest p name ended = (.ok t, c)) : t.IsReadable := by
  fun_induction readName start rest p name ended with
  | case1 | case2 | case4 | case5 | case8 => simp [fail] at h
  | case3 p name ended rest hempty =>
    obtain rfl := Except.ok.inj (Prod.mk.inj h).1
    refine ⟨?_, ?_⟩
    · intro hnone
      apply hempty
      have hlist := congrArg String.toList hnone
      rw [String.toList_ofList] at hlist
      simpa using hlist
    · intro x hx
      rw [String.toList_ofList, List.mem_reverse] at hx
      exact isNameChar_iff.1 (hname x hx)
  | case6 p name ended x rest _ _ hx _ ih =>
    apply ih _ h
    intro y hy
    rcases List.mem_cons.1 hy with rfl | hy
    · exact hx
    · exact hname y hy
  | case7 _ _ _ _ _ _ _ _ _ ih => exact ih hname h

theorem lineFeed_not_mem_takeLine (c : Cursor) : '\n' ∉ (takeLine c).1 := by
  have hline : '\n' ∉ c.rest.takeWhile (· != '\n') := by
    intro hmem
    have hkept := List.all_eq_true.1 List.all_takeWhile '\n' hmem
    simp at hkept
  have htext : '\n' ∉ (if (c.rest.takeWhile (· != '\n')).getLast? = some '\r'
      then (c.rest.takeWhile (· != '\n')).dropLast else c.rest.takeWhile (· != '\n')) := by
    split
    · intro hmem
      exact hline ((List.dropLast_sublist _).subset hmem)
    · exact hline
  unfold takeLine
  dsimp only
  split
  · exact htext
  · exact htext

theorem readNameOrComment_isReadable {c after : Cursor} {t : Token}
    (h : readNameOrComment c = (.ok (some t), after)) : t.IsReadable := by
  unfold readNameOrComment at h
  dsimp only at h
  split at h
  · have hnone := Except.ok.inj (Prod.mk.inj h).1
    contradiction
  · next rest _ =>
    obtain rfl := Option.some.inj (Except.ok.inj (Prod.mk.inj h).1)
    show '\n' ∉ (String.ofList _).toList
    rw [String.toList_ofList]
    exact lineFeed_not_mem_takeLine _
  · rcases hread : readName (c.skipWhile isBlank).position (c.skipWhile isBlank).rest
      (c.skipWhile isBlank).position [] false with ⟨result, cursor⟩
    rw [hread] at h
    cases result with
    | error e =>
      have hnone := (Prod.mk.inj h).1
      contradiction
    | ok token =>
      obtain rfl := Option.some.inj (Except.ok.inj (Prod.mk.inj h).1)
      exact readName_isReadable (by simp) hread

theorem readEscaped_token {quote : Char} {cause : ParseError.Cause} {token : String → Token}
    {rest text : List Char} {p : Position} {t : Token} {c : Cursor}
    (h : readEscaped quote cause token rest p text = (.ok t, c)) : ∃ value, t = token value := by
  fun_induction readEscaped quote cause token rest p text with
  | case1 | case3 | case4 => simp [fail] at h
  | case2 => exact ⟨_, (Except.ok.inj (Prod.mk.inj h).1).symm⟩
  | case5 _ _ _ _ _ _ _ ih => exact ih h
  | case6 | case7 | case8 => simp_all

theorem readSingleQuoted_isValue {start p : Position} {rest text : List Char} {t : Token}
    {c : Cursor} (h : readSingleQuoted start rest p text = (.ok t, c)) : t.kind.isValue := by
  fun_induction readSingleQuoted start rest p text with
  | case1 => simp [fail] at h
  | case2 _ _ _ ih => exact ih h
  | case3 =>
    obtain rfl := Except.ok.inj (Prod.mk.inj h).1
    rfl
  | case4 _ _ _ _ _ _ ih => exact ih h

theorem readJson_isValue {start p : Position} {rest text : List Char} {t : Token} {c : Cursor}
    (h : readJson start rest p text = (.ok t, c)) : t.kind.isValue := by
  fun_induction readJson start rest p text with
  | case1 => simp [fail] at h
  | case2 =>
    obtain rfl := Except.ok.inj (Prod.mk.inj h).1
    rfl
  | case3 _ _ _ _ _ ih => exact ih h

theorem readYaml_isValue {start : Position} {c after : Cursor} {text : List Char} {t : Token}
    (h : readYaml start c text = (.ok t, after)) : t.kind.isValue := by
  fun_induction readYaml start c text with
  | case1 => simp [fail] at h
  | case2 =>
    obtain rfl := Except.ok.inj (Prod.mk.inj h).1
    rfl
  | case3 _ _ _ _ _ ih => exact ih h

theorem readValue_isValue {options : ReaderOptions} {c after : Cursor} {t : Token}
    (h : readValue options c = (.ok t, after)) : t.kind.isValue := by
  unfold readValue at h
  dsimp only at h
  split at h
  · obtain rfl := Except.ok.inj (Prod.mk.inj h).1
    rfl
  · split at h
    · obtain ⟨value, rfl⟩ := readEscaped_token h
      rfl
    · exact readSingleQuoted_isValue h
    · split at h
      · obtain ⟨value, rfl⟩ := readEscaped_token h
        rfl
      · split at h
        · exact readJson_isValue h
        · split at h
          · exact readYaml_isValue h
          · obtain rfl := Except.ok.inj (Prod.mk.inj h).1
            exact isValue_scalarKind _

theorem Reader.next_isReadable {r s : Reader} {t : Token} (h : r.next = (.ok (some t), s)) :
    t.IsReadable := by
  unfold Reader.next at h
  split at h
  · rcases hread : readValue r.options r.cursor with ⟨result, cursor⟩
    rw [hread] at h
    cases result with
    | error e =>
      have hnone := (Prod.mk.inj h).1
      contradiction
    | ok token =>
      obtain rfl := Option.some.inj (Except.ok.inj (Prod.mk.inj h).1)
      exact Token.isReadable_of_isValue (readValue_isValue hread)
  · rcases hread : readNameOrComment r.cursor with ⟨result, cursor⟩
    rw [hread] at h
    obtain rfl := (Prod.mk.inj h).1
    exact readNameOrComment_isReadable hread

theorem Reader.tokens_isReadable (r : Reader) : ∀ t ∈ r.tokens.1, t.IsReadable := by
  fun_induction Reader.tokens r with
  | case1 | case2 => simp
  | case3 r t s hnext more error htokens ih =>
    rw [htokens] at ih
    intro x hx
    rcases List.mem_cons.1 hx with rfl | hx
    · exact Reader.next_isReadable hnext
    · exact ih x hx

theorem isReadable_withValue {name value : String} (other : String)
    (h : (Node.entry { name, value }).IsReadable) :
    (Node.entry { name, value := other }).IsReadable := h

theorem map_eq_ok {α β : Type} {f : α → β} {e : Except ParseError α} {b : β}
    (h : (do return f (← e)) = Except.ok b) : ∃ a, e = .ok a ∧ f a = b := by
  cases e with
  | error fault => contradiction
  | ok a => exact ⟨a, rfl, Except.ok.inj h⟩

theorem Document.nodesOfTokens_cons (pending : Option String) (t : Token) (rest : List Token) :
    nodesOfTokens pending (t :: rest) =
      let orphan : List Node := (pending.map fun name => .entry { name, value := "" }).toList
      match t.kind with
      | .name => return orphan ++ (← nodesOfTokens (some t.text) rest)
      | .comment => return orphan ++ .comment t.text :: (← nodesOfTokens none rest)
      | _ =>
        match pending with
        | some name => return .entry { name, value := t.text } :: (← nodesOfTokens none rest)
        | none => .error { cause := .orphanValue, position := t.position } := by
  cases pending <;> rfl

theorem Document.nodesOfTokens_isReadable {pending : Option String} {tokens : List Token}
    {nodes : List Node}
    (hpending : ∀ name, pending = some name → (Node.entry { name, value := "" }).IsReadable)
    (htokens : ∀ t ∈ tokens, t.IsReadable) (h : nodesOfTokens pending tokens = .ok nodes) :
    ∀ node ∈ nodes, node.IsReadable := by
  induction tokens generalizing pending nodes with
  | nil =>
    cases pending with
    | none =>
      obtain rfl := Except.ok.inj h
      simp
    | some name =>
      obtain rfl := Except.ok.inj h
      intro node hnode
      obtain rfl := List.mem_singleton.1 hnode
      exact hpending name rfl
  | cons t tokens ih =>
    have ht := htokens t List.mem_cons_self
    have hmore := fun x hx => htokens x (List.mem_cons_of_mem _ hx)
    have horphan : ∀ node ∈ (pending.map fun name => Node.entry { name, value := "" }).toList,
        node.IsReadable := by
      intro node hnode
      obtain ⟨name, hname, rfl⟩ := Option.map_eq_some_iff.1 (Option.mem_toList.1 hnode)
      exact hpending name hname
    unfold Token.IsReadable at ht
    rw [nodesOfTokens_cons] at h
    dsimp only at h
    split at h
    · next hkind =>
      rw [hkind] at ht
      obtain ⟨rest, hrest, rfl⟩ := map_eq_ok h
      intro node hnode
      rcases List.mem_append.1 hnode with hnode | hnode
      · exact horphan node hnode
      · apply ih _ hmore hrest node hnode
        rintro _ ⟨⟩
        exact ht
    · next hkind =>
      rw [hkind] at ht
      obtain ⟨rest, hrest, rfl⟩ := map_eq_ok h
      intro node hnode
      rcases List.mem_append.1 hnode with hnode | hnode
      · exact horphan node hnode
      · rcases List.mem_cons.1 hnode with rfl | hnode
        · exact ht
        · exact ih (by simp) hmore hrest node hnode
    · split at h
      · next name =>
        obtain ⟨rest, hrest, rfl⟩ := map_eq_ok h
        intro node hnode
        rcases List.mem_cons.1 hnode with rfl | hnode
        · exact isReadable_withValue t.text (hpending name rfl)
        · exact ih (by simp) hmore hrest node hnode
      · contradiction

theorem Document.isReadable_of_parse {text : String} {options : ReaderOptions} {d : Document}
    (h : Document.parse text options = .ok d) : ∀ node ∈ d.nodes, node.IsReadable := by
  unfold Document.parse at h
  rcases htokens : Dotenv.tokens text options with ⟨tokens, error⟩
  rw [htokens] at h
  dsimp only at h
  cases hnodes : nodesOfTokens none tokens with
  | error fault =>
    rw [hnodes] at h
    contradiction
  | ok nodes =>
    rw [hnodes] at h
    have hread : ∀ t ∈ tokens, t.IsReadable := by
      have hall := Reader.tokens_isReadable (Reader.ofText text options)
      unfold Dotenv.tokens at htokens
      rwa [htokens] at hall
    cases error with
    | some fault => contradiction
    | none =>
      obtain rfl := Except.ok.inj h
      exact nodesOfTokens_isReadable (by simp) hread hnodes

end SecretDotenv.Dotenv
