import SecretDotenv.Proofs.Dotenv.Blocks
import SecretDotenv.Proofs.Dotenv.Entries

/-! Written text under the options that a document was read with. A value of three dashes
needs no quotes to the writer, but opens front matter to a reader that accepts it; no line
behind it closes that block. All other values come back. -/
namespace SecretDotenv.Dotenv

open SecretDotenv.Text

def Node.line : Node → List Char
  | .entry e => e.name.toList ++ '=' :: writeValue e.value.toList
  | .comment text => '#' :: text.toList

theorem writeNode_eq (node : Node) : writeNode node = node.line ++ ['\n'] := by
  cases node <;> simp [writeNode, Node.line]

theorem not_mem_escapeChar (c : Char) : '\n' ∉ escapeChar c := by
  unfold escapeChar
  split_ifs with h1 h2 h3 <;> first | decide | simp [Ne.symm h3]

theorem not_mem_writeValue (value : List Char) : '\n' ∉ writeValue value := by
  unfold writeValue
  split
  · next hbare => exact fun hmem => absurd (List.all_eq_true.1 hbare _ hmem) (by decide)
  · have hescaped : '\n' ∉ value.flatMap escapeChar := fun hmem => by
      obtain ⟨c, -, hc⟩ := List.mem_flatMap.1 hmem
      exact not_mem_escapeChar c hc
    simpa using hescaped

theorem isNameChar_of_isReadable {e : Entry} (h : (Node.entry e).IsReadable) :
    ∀ c ∈ e.name.toList, isNameChar c :=
  fun c hc => isNameChar_iff.2 (h.2 c hc)

theorem Node.not_mem_line {node : Node} (h : node.IsReadable) : '\n' ∉ node.line := by
  cases node with
  | entry e =>
    have hname : '\n' ∉ e.name.toList := fun hmem =>
      absurd (isNameChar_of_isReadable h _ hmem) (by decide)
    simp [Node.line, hname, not_mem_writeValue]
  | comment text =>
    have htext : '\n' ∉ text.toList := h
    simp [Node.line, htext]

theorem Node.line_cons {node : Node} (h : node.IsReadable) :
    ∃ c more, node.line = c :: more ∧ c ≠ '-' := by
  cases node with
  | entry e =>
    cases hname : e.name.toList with
    | nil => exact absurd (String.toList_eq_nil_iff.1 hname) h.1
    | cons c more =>
      have hc : isNameChar c := isNameChar_of_isReadable h c (by simp [hname])
      exact ⟨c, _, by simp only [Node.line, hname, List.cons_append]; rfl, ne_of_class hc rfl⟩
  | comment text => exact ⟨'#', _, rfl, by decide⟩

theorem withoutReturn_cons {c : Char} {more : List Char} (h : c ≠ '-') :
    withoutReturn (c :: more) ≠ ['-', '-', '-'] := by
  unfold withoutReturn
  split
  · cases more with
    | nil => simp
    | cons d more => simp [h]
  · simp [h]

theorem noDashes_written {nodes : List Node} (h : ∀ node ∈ nodes, node.IsReadable) :
    NoDashes (nodes.flatMap writeNode) := by
  induction nodes with
  | nil => exact noDashes_nil
  | cons node nodes ih =>
    obtain ⟨hnode, hnodes⟩ := List.forall_mem_cons.1 h
    obtain ⟨c, more, hcons, hc⟩ := Node.line_cons hnode
    rw [List.flatMap_cons, writeNode_eq, List.append_assoc, List.singleton_append,
      noDashes_append _ (Node.not_mem_line hnode)]
    exact ⟨hcons ▸ withoutReturn_cons hc, ih hnodes⟩

theorem readValue_writeValue_dashes {options : ReaderOptions} (hyaml : options.allowYaml)
    {nodes : List Node} (hnodes : ∀ node ∈ nodes, node.IsReadable) (p : Position) :
    ∃ e c, readValue options ⟨writeValue ['-', '-', '-'] ++ '\n' :: nodes.flatMap writeNode, p⟩ =
      (.error e, c) ∧ e.cause = .unterminatedCapture .yaml p.line := by
  have hread := readValue_dashes_break hyaml (by decide : ['\n'] ∈ lineBreaks)
    (nodes.flatMap writeNode) p
  have hopen := (readYaml_open_iff p ⟨nodes.flatMap writeNode, p.over (['-', '-', '-'] ++ ['\n'])⟩
    []).2 (noDashes_written hnodes)
  rw [← hread] at hopen
  exact ⟨_, _, Prod.ext hopen rfl, rfl⟩

theorem fault_behind (options : ReaderOptions) {node : Node} (hnode : node.IsReadable)
    (hyaml : options.allowYaml → ∀ e, node = .entry e → e.value.toList ≠ ['-', '-', '-'])
    (rest : List Char) {blank : List Char} (p : Position) (hblank : ∀ c ∈ blank, isBlank c) :
    ∃ behind q, (∀ c ∈ behind, isBlank c) ∧ q.over behind = p.over (blank ++ writeNode node) ∧
      (Reader.tokens { options, cursor := ⟨blank ++ (writeNode node ++ rest), p⟩ }).2 =
        (Reader.tokens { options, cursor := ⟨behind ++ rest, q⟩ }).2 := by
  cases node with
  | comment text =>
    have hnext := Reader.next_comment options rest p hblank hnode
    have hwritten : writeNode (.comment text) ++ rest = '#' :: (text.toList ++ '\n' :: rest) := by
      simp [writeNode]
    refine ⟨[], p.over (blank ++ '#' :: (text.toList ++ ['\n'])), by simp, by simp [writeNode], ?_⟩
    rw [hwritten, Reader.tokens_of_some hnext]
    rfl
  | entry e =>
    let q := p.over (blank ++ (e.name.toList ++ ['=']))
    have hname := Reader.next_name options (writeValue e.value.toList ++ '\n' :: rest) p hblank
      (isNameChar_of_isReadable hnode) (by simpa using hnode.1)
    obtain ⟨value, hvalue, -, -⟩ :=
      readValue_writeValue options e.value.toList rest q fun hon => hyaml hon e rfl
    have hwritten : writeNode (.entry e) ++ rest =
        e.name.toList ++ '=' :: (writeValue e.value.toList ++ '\n' :: rest) := by
      simp [writeNode]
    refine ⟨['\n'], q.over (writeValue e.value.toList), List.forall_mem_singleton.2 rfl, ?_, ?_⟩
    · simp only [q, ← Position.over_append]
      simp [writeNode]
    · rw [hwritten, Reader.tokens_of_some hname, Reader.tokens_of_some (Reader.next_value hvalue)]
      rfl

theorem fault_dashes {options : ReaderOptions} (hyaml : options.allowYaml) {e : Entry}
    {after : List Node} (he : (Node.entry e).IsReadable) (hvalue : e.value.toList = ['-', '-', '-'])
    (hafter : ∀ node ∈ after, node.IsReadable) {blank : List Char} (p : Position)
    (hblank : ∀ c ∈ blank, isBlank c) :
    ∃ fault, (Reader.tokens { options, cursor :=
        ⟨blank ++ (writeNode (.entry e) ++ after.flatMap writeNode), p⟩ }).2 = some fault ∧
      fault.cause = .unterminatedCapture .yaml (p.over blank).line := by
  let q := p.over (blank ++ (e.name.toList ++ ['=']))
  obtain ⟨fault, last, hread, hcause⟩ := readValue_writeValue_dashes hyaml hafter q
  have hname := Reader.next_name options
    (writeValue ['-', '-', '-'] ++ '\n' :: after.flatMap writeNode) p hblank
    (isNameChar_of_isReadable he) (by simpa using he.1)
  have hwritten : writeNode (.entry e) ++ after.flatMap writeNode =
      e.name.toList ++ '=' :: (writeValue ['-', '-', '-'] ++ '\n' :: after.flatMap writeNode) := by
    simp [writeNode, hvalue]
  have hline : q.line = (p.over blank).line := by
    have hnone : '\n' ∉ e.name.toList := fun hmem =>
      absurd (isNameChar_of_isReadable he _ hmem) (by decide)
    simp [q, Position.line_over, List.count_eq_zero.2 hnone]
  rw [hwritten, Reader.tokens_of_some hname, Reader.tokens_of_error (Reader.next_value hread)]
  exact ⟨fault, rfl, hcause.trans (by rw [hline])⟩

/-- The reader comes to the first value of three dashes, and no further. -/
theorem fault_written {options : ReaderOptions} (hyaml : options.allowYaml) {before after : List Node}
    {e : Entry} (hbefore : ∀ node ∈ before, node.IsReadable)
    (hdashes : ∀ f, .entry f ∈ before → f.value.toList ≠ ['-', '-', '-'])
    (he : (Node.entry e).IsReadable) (hvalue : e.value.toList = ['-', '-', '-'])
    (hafter : ∀ node ∈ after, node.IsReadable) {blank : List Char} (p : Position)
    (hblank : ∀ c ∈ blank, isBlank c) :
    ∃ fault, (Reader.tokens { options, cursor :=
        ⟨blank ++ (before ++ .entry e :: after).flatMap writeNode, p⟩ }).2 = some fault ∧
      fault.cause =
        .unterminatedCapture .yaml (p.over (blank ++ before.flatMap writeNode)).line := by
  induction before generalizing blank p with
  | nil =>
    obtain ⟨fault, hfault, hcause⟩ := fault_dashes hyaml he hvalue hafter p hblank
    exact ⟨fault, by simpa using hfault, by simpa using hcause⟩
  | cons node before ih =>
    obtain ⟨hnode, hbefore⟩ := List.forall_mem_cons.1 hbefore
    obtain ⟨behind, q, hbehind, hq, hsame⟩ := fault_behind options hnode
      (fun _ f hf => hdashes f (hf ▸ List.mem_cons_self))
      ((before ++ .entry e :: after).flatMap writeNode) p hblank
    obtain ⟨fault, hfault, hcause⟩ :=
      ih hbefore (fun f hf => hdashes f (List.mem_cons_of_mem _ hf)) q hbehind
    refine ⟨fault, ?_, ?_⟩
    · rw [List.cons_append, List.flatMap_cons, hsame, hfault]
    · rw [hcause, List.flatMap_cons, Position.over_append, hq, ← Position.over_append,
        List.append_assoc]

theorem line_written {nodes : List Node} (hnodes : ∀ node ∈ nodes, node.IsReadable) :
    (Position.over {} (nodes.flatMap writeNode)).line = nodes.length + 1 := by
  rw [Position.line_over, Nat.add_comm]
  congr 1
  induction nodes with
  | nil => rfl
  | cons node nodes ih =>
    obtain ⟨hnode, hnodes⟩ := List.forall_mem_cons.1 hnodes
    rw [List.flatMap_cons, writeNode_eq, List.count_append, List.count_append, ih hnodes,
      List.count_eq_zero.2 (Node.not_mem_line hnode)]
    simp [Nat.add_comm]

/-- A document that was read is written as text that reads as the same entries under the same
options, unless front matter is accepted and a value is three dashes. The line of the first
such value then opens a block that nothing closes. -/
theorem Document.parse_write_options {text : String} {options : ReaderOptions} {d : Document}
    (h : Document.parse text options = .ok d) :
    ((options.allowYaml → ∀ e ∈ d.entries, e.value ≠ "---") →
      ∃ d', Document.parse d.write options = .ok d' ∧ d'.entries = d.entries) ∧
    (options.allowYaml → ∀ before e after, d.nodes = before ++ .entry e :: after →
      e.value = "---" → (∀ f, .entry f ∈ before → f.value ≠ "---") →
        ∃ fault, Document.parse d.write options = .error fault ∧
          fault.cause = .unterminatedCapture .yaml (before.length + 1)) := by
  have hreadable := isReadable_of_parse h
  have hdashes : ∀ {e : Entry}, e.value = "---" ↔ e.value.toList = ['-', '-', '-'] := by
    intro e
    rw [← String.toList_inj]
    rfl
  refine ⟨fun hnone => ?_, fun hyaml before e after hnodes hvalue hfirst => ?_⟩
  · refine ⟨{ nodes := d.nodes.map Node.reread }, parse_of_yields ?_, entries_reread d.nodes⟩
    have hreads : ReadsAs options (d.nodes.flatMap writeNode) (d.nodes.map Node.reread) :=
      readsAs_written hreadable fun hon e he =>
        mt hdashes.2 (hnone hon e (List.mem_filterMap.2 ⟨_, he, rfl⟩))
    simpa [Reader.ofText, write] using hreads [] {} (by simp)
  · rw [hnodes] at hreadable
    have hbefore : ∀ node ∈ before, node.IsReadable := fun node hnode =>
      hreadable node (List.mem_append_left _ hnode)
    have hrest : ∀ node ∈ .entry e :: after, node.IsReadable := fun node hnode =>
      hreadable node (List.mem_append_right _ hnode)
    obtain ⟨he, hafter⟩ := List.forall_mem_cons.1 hrest
    obtain ⟨fault, hfault, hcause⟩ := fault_written hyaml hbefore
      (fun f hf => mt hdashes.2 (hfirst f hf)) he (hdashes.1 hvalue) hafter {}
      (show ∀ c ∈ [], isBlank c by simp)
    have htokens : (tokens d.write options).2 = some fault := by
      simpa [tokens, Reader.ofText, write, hnodes] using hfault
    refine ⟨fault, ?_, ?_⟩
    · obtain ⟨nodes, hnone, -, -⟩ | ⟨e, last, nodes, hsome, -, hparse⟩ := parse_cases d.write options
      · rw [htokens] at hnone
        contradiction
      · rw [hparse, Option.some.inj (htokens.symm.trans hsome)]
    · rw [hcause, List.nil_append, line_written hbefore]

/-- A comment and a value in front of three dashes; without these the text comes back. -/
theorem Document.parse_write_options_yaml :
    let options : ReaderOptions := { allowJson := true, allowYaml := true }
    let nodes : List Node := [.comment " top", .entry { name := "A", value := "\x7b\n\x7d" }]
    let dashes : Node := .entry { name := "B", value := "---" }
    (Document.parse "# top\nA=\x7b\n\x7d\n" options = .ok { nodes } ∧
        ∃ d', Document.parse (Document.write { nodes }) options = .ok d' ∧
          d'.entries = Document.entries { nodes }) ∧
      Document.parse "# top\nA=\x7b\n\x7d\nB='---'" options = .ok { nodes := nodes ++ [dashes] } ∧
        ∃ fault, Document.parse (Document.write { nodes := nodes ++ [dashes] }) options =
          .error fault ∧ fault.cause = .unterminatedCapture .yaml 3 := by
  intro options nodes dashes
  have hplain : Document.parse "# top\nA=\x7b\n\x7d\n" options = .ok { nodes } := by
    decide +kernel
  have hdashes : Document.parse "# top\nA=\x7b\n\x7d\nB='---'" options =
      .ok { nodes := nodes ++ [dashes] } := by
    decide +kernel
  refine ⟨⟨hplain, (parse_write_options hplain).1 fun _ => by decide⟩, hdashes, ?_⟩
  refine (parse_write_options hdashes).2 rfl nodes { name := "B", value := "---" } [] rfl rfl ?_
  rintro f hf
  obtain rfl : f = { name := "A", value := "\x7b\n\x7d" } := by simpa [nodes] using hf
  decide

/-- The value stands between quotes in the text that is read, and not in the text that is
written. -/
theorem Document.not_parse_write_options :
    ¬ ∀ (options : ReaderOptions) (text : String) (d : Document),
      Document.parse text options = .ok d →
        ∃ d', Document.parse d.write options = .ok d' ∧ d'.entries = d.entries := by
  intro h
  have hread : Document.parse "A=\"---\"\n" { allowYaml := true } =
      .ok { nodes := [.entry { name := "A", value := "---" }] } := by
    decide +kernel
  have hwritten : Document.write { nodes := [.entry { name := "A", value := "---" }] } =
      "A=---\n" := by
    decide +kernel
  have hfails : Document.parse "A=---\n" { allowYaml := true } =
      .error { cause := .unterminatedCapture .yaml 1, position := { line := 2, column := 1 } } := by
    decide +kernel
  obtain ⟨d', hparse, -⟩ := h _ _ _ hread
  rw [hwritten, hfails] at hparse
  contradiction

end SecretDotenv.Dotenv
