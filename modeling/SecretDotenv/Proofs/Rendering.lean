import SecretDotenv.Proofs.Json.Fields
import SecretDotenv.Proofs.Text.Pieces
import SecretDotenv.Rendering

/-! What is made of a rendered document. A shell reads the exports as one command for each
entry and as nothing else, whatever the values are, and what it has exported in the end is
what the JSON object holds. -/
namespace SecretDotenv.Rendering

open Text Dotenv

inductive Quoting where
  | plain
  | single
  | escaped
deriving DecidableEq, Repr

/-- What a shell has read of a text. -/
structure Scan where
  quoting : Quoting := .plain
  /-- The word that has begun, if one has; quotes around nothing begin one too. -/
  word : Option (List Char) := none
  words : List String := []
  commands : List (List String) := []
deriving DecidableEq, Repr

/-- Characters that mean more than themselves to a shell, quotes, blanks and line feeds apart. -/
def shellMarks : List Char :=
  ['|', '&', ';', '<', '>', '(', ')', '$', '\x60', '"', '*', '?', '[', '#', '~', '%', '!', '{', '}']

namespace Scan

def push (s : Scan) (c : Char) : Scan :=
  { s with word := some (s.word.getD [] ++ [c]) }

def endWord (s : Scan) : Scan :=
  match s.word with
  | some word => { s with word := none, words := s.words ++ [String.ofList word] }
  | none => s

def endCommand (s : Scan) : Scan :=
  let s := s.endWord
  if s.words.isEmpty then s else { s with words := [], commands := s.commands ++ [s.words] }

/-- One character by the rules of POSIX quoting. A text in which anything else happens than
that words are read is refused. -/
def step? (s : Scan) (c : Char) : Option Scan :=
  match s.quoting with
  | .single => some (if c = '\'' then { s with quoting := .plain } else s.push c)
  | .escaped => some { s.push c with quoting := .plain }
  | .plain =>
    if c = '\'' then some { s with quoting := .single, word := some (s.word.getD []) }
    else if c = '\\' then some { s with quoting := .escaped, word := some (s.word.getD []) }
    else if c = '\n' then some s.endCommand
    else if c = ' ' || c = '\t' then some s.endWord
    else if c ∈ shellMarks then none
    else some (s.push c)

def run? (s : Scan) (text : List Char) : Option Scan :=
  text.foldlM step? s

end Scan

def commands? (text : String) : Option (List (List String)) := do
  let s ← Scan.run? {} text.toList
  if s.quoting = .plain then some s.endCommand.commands else none

def exported? : List String → Option (String × String)
  | ["export", word] =>
    (cut '=' word.toList).map fun (name, value) => (String.ofList name, String.ofList value)
  | _ => none

def exportCommand (e : Entry) : List String :=
  ["export", e.name ++ "=" ++ e.value]

namespace Scan

variable {word : List Char} {words : List String} {commands : List (List String)}

theorem run?_append (s : Scan) (a b : List Char) :
    s.run? (a ++ b) = (s.run? a).bind fun t => t.run? b :=
  List.foldlM_append

theorem run?_cons (s : Scan) (c : Char) (rest : List Char) :
    s.run? (c :: rest) = (s.step? c).bind fun t => t.run? rest := rfl

theorem step?_of_letter {s : Scan} {c : Char} (hs : s.quoting = .plain)
    (hc : c.isAlphanum ∨ c = '_' ∨ c = '=') : s.step? c = some (s.push c) := by
  have hletter : ∀ mark ∈ '\'' :: '\\' :: '\n' :: ' ' :: '\t' :: shellMarks,
      ¬(mark.isAlphanum ∨ mark = '_' ∨ mark = '=') := by
    simp [shellMarks]
  have hne : ∀ mark ∈ '\'' :: '\\' :: '\n' :: ' ' :: '\t' :: shellMarks, c ≠ mark := by
    intro mark hmark heq
    exact hletter mark hmark (heq ▸ hc)
  simp only [List.forall_mem_cons] at hne
  obtain ⟨hquote, hbackslash, hfeed, hblank, htab, hmarks⟩ := hne
  have hmark : c ∉ shellMarks := fun h => hmarks c h rfl
  simp [step?, hs, hquote, hbackslash, hfeed, hblank, htab, hmark]

theorem run?_name {s : Scan} {name : List Char} (hs : s.quoting = .plain)
    (hname : ∀ c ∈ name, c.isAlphanum ∨ c = '_') :
    s.run? (name ++ ['=']) = some { s with word := some (s.word.getD [] ++ name ++ ['=']) } := by
  induction name generalizing s with
  | nil =>
    rw [List.nil_append, run?_cons, step?_of_letter hs (by simp)]
    simp [run?, push]
  | cons c name ih =>
    obtain ⟨hc, hname⟩ := List.forall_mem_cons.1 hname
    have hstep : s.step? c = some (s.push c) :=
      step?_of_letter hs (hc.imp_right Or.inl)
    rw [List.cons_append, run?_cons, hstep]
    apply (ih (s := s.push c) hs hname).trans
    simp [push]

theorem run?_quotedChar (c : Char) :
    run? ⟨.single, some word, words, commands⟩
        (if c = '\'' then ['\'', '\\', '\'', '\''] else [c]) =
      some ⟨.single, some (word ++ [c]), words, commands⟩ := by
  split
  · next hc =>
    subst hc
    simp [run?, step?, push]
  · next hc => simp [run?, step?, push, hc]

theorem run?_quotedChars (text : List Char) :
    run? ⟨.single, some word, words, commands⟩
        (text.flatMap fun c => if c = '\'' then ['\'', '\\', '\'', '\''] else [c]) =
      some ⟨.single, some (word ++ text), words, commands⟩ := by
  induction text generalizing word with
  | nil => simp [run?]
  | cons c text ih =>
    rw [List.flatMap_cons, run?_append, run?_quotedChar]
    apply ih.trans
    simp

theorem run?_shellQuoted (text : List Char) :
    run? ⟨.plain, some word, words, commands⟩ (shellQuoted text) =
      some ⟨.plain, some (word ++ text), words, commands⟩ := by
  have hopen : step? ⟨.plain, some word, words, commands⟩ '\'' =
      some ⟨.single, some word, words, commands⟩ := rfl
  have hclose : run? ⟨.single, some (word ++ text), words, commands⟩ ['\''] =
      some ⟨.plain, some (word ++ text), words, commands⟩ := rfl
  unfold shellQuoted
  rw [List.cons_append, run?_cons, hopen, Option.bind_some, run?_append, run?_quotedChars,
    Option.bind_some, hclose]

theorem run?_exportLine {e : Entry} (he : ∀ c ∈ e.name.toList, c.isAlphanum ∨ c = '_') :
    run? ⟨.plain, none, [], commands⟩ (exportLine e) =
      some ⟨.plain, none, [], commands ++ [exportCommand e]⟩ := by
  have hline : exportLine e = "export ".toList ++ ((e.name.toList ++ ['=']) ++
      (shellQuoted e.value.toList ++ ['\n'])) := by
    unfold exportLine
    generalize "export ".toList = front
    simp
  have hexport : run? ⟨.plain, none, [], commands⟩ "export ".toList =
      some ⟨.plain, none, ["export"], commands⟩ := by
    simp [run?, step?, push, endWord, shellMarks]
  have hfeed (word : List Char) : run? ⟨.plain, some word, ["export"], commands⟩ ['\n'] =
      some ⟨.plain, none, [], commands ++ [["export", String.ofList word]]⟩ := rfl
  rw [hline, run?_append, hexport, Option.bind_some, run?_append, run?_name rfl he,
    Option.bind_some, run?_append, run?_shellQuoted, Option.bind_some, hfeed]
  simp [exportCommand, String.ofList_append, ← String.append_assoc]

theorem run?_exportLines {entries : List Entry}
    (hentries : ∀ e ∈ entries, ∀ c ∈ e.name.toList, c.isAlphanum ∨ c = '_') :
    run? ⟨.plain, none, [], commands⟩ (entries.flatMap exportLine) =
      some ⟨.plain, none, [], commands ++ entries.map exportCommand⟩ := by
  induction entries generalizing commands with
  | nil => simp [run?]
  | cons e entries ih =>
    obtain ⟨he, hentries⟩ := List.forall_mem_cons.1 hentries
    rw [List.flatMap_cons, run?_append, run?_exportLine he]
    apply (ih hentries).trans
    simp

end Scan

theorem commands?_exports {d : Document}
    (hnames : ∀ e ∈ d.entries, ∀ c ∈ e.name.toList, c.isAlphanum ∨ c = '_') :
    commands? (render d .exports) = some (d.entries.map exportCommand) := by
  have hrun : Scan.run? {} (d.entries.flatMap exportLine) =
      some ⟨.plain, none, [], [] ++ d.entries.map exportCommand⟩ :=
    Scan.run?_exportLines hnames
  unfold commands? render
  rw [String.toList_ofList, hrun]
  rfl

theorem exported?_exportCommand {e : Entry}
    (he : ∀ c ∈ e.name.toList, c.isAlphanum ∨ c = '_') :
    exported? (exportCommand e) = some (e.name, e.value) := by
  have hnot : '=' ∉ e.name.toList := fun h => absurd (he '=' h) (by decide)
  have hword : (e.name ++ "=" ++ e.value).toList = e.name.toList ++ '=' :: e.value.toList := by
    simp
  have hcut : cut '=' ('=' :: e.value.toList) = some ([], e.value.toList) := rfl
  unfold exported? exportCommand
  simp only
  rw [hword, cut_append_of_not_mem hnot, hcut]
  simp

theorem filterMap_exported? {entries : List Entry}
    (hentries : ∀ e ∈ entries, ∀ c ∈ e.name.toList, c.isAlphanum ∨ c = '_') :
    (entries.map exportCommand).filterMap exported? = entries.map fun e => (e.name, e.value) := by
  induction entries with
  | nil => rfl
  | cons e entries ih =>
    obtain ⟨he, hentries⟩ := List.forall_mem_cons.1 hentries
    rw [List.map_cons, List.filterMap_cons_some (exported?_exportCommand he), ih hentries,
      List.map_cons]

/-- A shell reads the exports as one command for each entry, and the fields of the JSON object
are what the names stand for once the commands have run. -/
theorem exports_agree_with_json {d : Document}
    (hnames : ∀ e ∈ d.entries, e.name ≠ "" ∧ ∀ c ∈ e.name.toList, c.isAlphanum ∨ c = '_') :
    ∃ commands fields,
      commands? (render d .exports) = some commands ∧
      commands = d.entries.map exportCommand ∧
      commands.filterMap exported? = d.pairs ∧
      render d .json =
        (Json.object (fields.map fun (name, value) => (name, .string value))).pretty ++ "\n" ∧
      (fields.map Prod.fst).Nodup ∧
      Json.valueOf? fields = Json.lastValue? (commands.filterMap exported?) := by
  have hchars : ∀ e ∈ d.entries, ∀ c ∈ e.name.toList, c.isAlphanum ∨ c = '_' :=
    fun e he => (hnames e he).2
  have hpairs : (d.entries.map exportCommand).filterMap exported? = d.pairs :=
    filterMap_exported? hchars
  have hkeys : ((valuesByName d).map Prod.fst).Nodup :=
    (Json.pairwise_sortedFields d.pairs).imp ne_of_lt
  refine ⟨d.entries.map exportCommand, valuesByName d, commands?_exports hchars, rfl, hpairs,
    rfl, hkeys, ?_⟩
  rw [hpairs]
  exact Json.valueOf?_sortedFields d.pairs

theorem exports_agree_with_json_repeated :
    let d := Document.ofPairs [("A", "it's"), ("B_1", "'\nexport A='0' \\"), ("A", "2")]
    (∀ e ∈ d.entries, e.name ≠ "" ∧ ∀ c ∈ e.name.toList, c.isAlphanum ∨ c = '_') ∧
      commands? (render d .exports) =
        some [["export", "A=it's"], ["export", "B_1='\nexport A='0' \\"], ["export", "A=2"]] ∧
      ∃ fields : List (String × String),
        render d .json =
          (Json.object (fields.map fun (name, value) => (name, .string value))).pretty ++ "\n" ∧
        Json.valueOf? fields "A" = some "2" := by
  intro d
  have hnames : ∀ e ∈ d.entries, e.name ≠ "" ∧ ∀ c ∈ e.name.toList, c.isAlphanum ∨ c = '_' := by
    simp [d, Document.ofPairs, Document.entries, Node.entry?]
  obtain ⟨commands, fields, hread, rfl, hexported, hobject, -, hfields⟩ :=
    exports_agree_with_json hnames
  refine ⟨hnames, hread, fields, hobject, ?_⟩
  rw [hfields, hexported]
  rfl

end SecretDotenv.Rendering
