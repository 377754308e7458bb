import Mathlib.Logic.Relation
import SecretDotenv.Proofs.Secret.Durable

/-! Spellings of a secret's name. What separates its words, the case of its letters and all
other marks make no difference: two spellings have one normal form exactly if such changes
lead from one to the other, and an entry that was stored by one of them is found by all. -/
namespace SecretDotenv.Secret

open SecretDotenv.Text SecretDotenv.Dotenv

def isDropped (c : Char) : Bool :=
  !isSeparator c && !c.isAlphanum

/-- One change to the spelling of a name. -/
inductive Respells : List Char → List Char → Prop where
  | separator {c d : Char} (front rest : List Char) (hc : isSeparator c) (hd : isSeparator d) :
      Respells (front ++ c :: rest) (front ++ d :: rest)
  | letterCase {c d : Char} (front rest : List Char) (h : c.toLower = d.toLower) :
      Respells (front ++ c :: rest) (front ++ d :: rest)
  /-- Before the name begins, separators separate nothing. -/
  | leading {c : Char} (name : List Char) (hc : isSeparator c) : Respells name (c :: name)
  | dropped {c : Char} (front rest : List Char) (hc : isDropped c) :
      Respells (front ++ rest) (front ++ c :: rest)

def SameName (s t : String) : Prop :=
  Relation.EqvGen Respells s.toList t.toList

variable {c d : Char} {started : Bool} {name rest : List Char}

theorem isAlphanum_of_isSeparator (hc : isSeparator c) : c.isAlphanum = false := by
  simp only [isSeparator, List.mem_cons, List.not_mem_nil, or_false, decide_eq_true_eq] at hc
  rcases hc with rfl | rfl | rfl | rfl | rfl | rfl | rfl <;> rfl

theorem isSeparator_of_isAlphanum (hc : c.isAlphanum) : isSeparator c = false := by
  cases hseparator : isSeparator c with
  | false => rfl
  | true =>
    rw [isAlphanum_of_isSeparator hseparator] at hc
    contradiction

theorem isSeparator_or_isAlphanum_or_isDropped (c : Char) :
    isSeparator c ∨ c.isAlphanum ∨ isDropped c := by
  unfold isDropped
  cases isSeparator c <;> cases c.isAlphanum <;> simp

theorem variableNameFrom_separator (hc : isSeparator c) (started : Bool) (rest : List Char) :
    variableNameFrom started (c :: rest) =
      if started then '_' :: variableNameFrom true rest else variableNameFrom false rest := by
  rw [variableNameFrom, if_pos hc]

theorem variableNameFrom_alphanum (hc : c.isAlphanum) (started : Bool) (rest : List Char) :
    variableNameFrom started (c :: rest) = c.toUpper :: variableNameFrom true rest := by
  rw [variableNameFrom, isSeparator_of_isAlphanum hc, if_neg Bool.false_ne_true, if_pos hc]

theorem variableNameFrom_dropped (hc : isDropped c) (started : Bool) (rest : List Char) :
    variableNameFrom started (c :: rest) = variableNameFrom started rest := by
  obtain ⟨hseparator, halphanum⟩ := Bool.and_eq_true_iff.1 hc
  simp only [Bool.not_eq_true'] at hseparator halphanum
  rw [variableNameFrom, hseparator, halphanum, if_neg Bool.false_ne_true, if_neg Bool.false_ne_true]

theorem head_variableNameFrom (h : c ∈ (variableNameFrom false name).head?) : c.isAlphanum := by
  induction name with
  | nil => contradiction
  | cons d name ih =>
    rcases isSeparator_or_isAlphanum_or_isDropped d with hd | hd | hd
    · rw [variableNameFrom_separator hd] at h
      exact ih h
    · rw [variableNameFrom_alphanum hd, List.head?_cons] at h
      obtain rfl := Option.mem_some.1 h
      exact isAlphanum_of_isUpper_or_isDigit (toUpper_of_isAlphanum hd)
    · rw [variableNameFrom_dropped hd] at h
      exact ih h

theorem variableNameFrom_congr {a b : List Char}
    (h : ∀ started, variableNameFrom started a = variableNameFrom started b) (front : List Char)
    (started : Bool) :
    variableNameFrom started (front ++ a) = variableNameFrom started (front ++ b) := by
  induction front generalizing started with
  | nil => exact h started
  | cons c front ih =>
    rw [List.cons_append, List.cons_append]
    rcases isSeparator_or_isAlphanum_or_isDropped c with hc | hc | hc
    · simp only [variableNameFrom_separator hc, ih]
    · simp only [variableNameFrom_alphanum hc, ih]
    · simp only [variableNameFrom_dropped hc, ih]

theorem variableNameFrom_letterCase (h : c.toLower = d.toLower) (started : Bool)
    (rest : List Char) :
    variableNameFrom started (c :: rest) = variableNameFrom started (d :: rest) := by
  by_cases hc : c.isAlpha
  · have hd : d.isAlpha := by
      rwa [← Char.isAlpha_toLower_eq_isAlpha, ← h, Char.isAlpha_toLower_eq_isAlpha]
    have hupper : c.toUpper = d.toUpper := by
      rw [← Char.toUpper_toLower_eq_toUpper c, h, Char.toUpper_toLower_eq_toUpper]
    rw [variableNameFrom_alphanum (Bool.or_eq_true_iff.2 (Or.inl hc)),
      variableNameFrom_alphanum (Bool.or_eq_true_iff.2 (Or.inl hd)), hupper]
  · have hd : ¬d.isAlpha := by
      rwa [← Char.isAlpha_toLower_eq_isAlpha, ← h, Char.isAlpha_toLower_eq_isAlpha]
    have hsame : ∀ {x : Char}, ¬x.isAlpha → x.toLower = x := by
      intro x hx
      apply Char.toLower_eq_of_not_isUpper
      intro hupper
      exact hx (Bool.or_eq_true_iff.2 (Or.inl hupper))
    rw [← hsame hc, h, hsame hd]

theorem Respells.variableNameFrom_eq {s t : List Char} (h : Respells s t) :
    variableNameFrom false s = variableNameFrom false t := by
  cases h with
  | separator front rest hc hd =>
    apply variableNameFrom_congr
    intro started
    rw [variableNameFrom_separator hc, variableNameFrom_separator hd]
  | letterCase front rest h =>
    apply variableNameFrom_congr
    intro started
    exact variableNameFrom_letterCase h started rest
  | leading name hc => rw [variableNameFrom_separator hc, if_neg Bool.false_ne_true]
  | dropped front rest hc =>
    apply variableNameFrom_congr
    intro started
    rw [variableNameFrom_dropped hc]

theorem variableName_of_sameName {s t : String} (h : SameName s t) :
    variableName s = variableName t := by
  refine congrArg String.ofList ?_
  unfold SameName at h
  generalize s.toList = a, t.toList = b at h
  induction h with
  | rel _ _ h => exact h.variableNameFrom_eq
  | refl _ => rfl
  | symm _ _ _ ih => exact ih.symm
  | trans _ _ _ _ _ ih ih' => exact ih.trans ih'

theorem respells_toUpper (c : Char) (front rest : List Char) :
    Respells (front ++ c :: rest) (front ++ c.toUpper :: rest) :=
  .letterCase front rest (Char.toLower_toUpper_eq_toLower c).symm

/-- The rest of a name that has begun is changed from the left, character by character. -/
theorem eqvGen_started (front rest : List Char) :
    Relation.EqvGen Respells (front ++ rest) (front ++ variableNameFrom true rest) := by
  induction rest generalizing front with
  | nil => exact .refl _
  | cons c rest ih =>
    rcases isSeparator_or_isAlphanum_or_isDropped c with hc | hc | hc
    · rw [variableNameFrom_separator hc, if_pos rfl]
      have hnext := ih (front ++ ['_'])
      rw [List.append_assoc, List.append_assoc] at hnext
      exact .trans _ _ _ (.rel _ _ (.separator front rest hc rfl)) hnext
    · rw [variableNameFrom_alphanum hc]
      have hnext := ih (front ++ [c.toUpper])
      rw [List.append_assoc, List.append_assoc] at hnext
      exact .trans _ _ _ (.rel _ _ (respells_toUpper c front rest)) hnext
    · rw [variableNameFrom_dropped hc]
      exact .trans _ _ _ (.symm _ _ (.rel _ _ (.dropped front rest hc))) (ih front)

theorem eqvGen_variableNameFrom (name : List Char) :
    Relation.EqvGen Respells name (variableNameFrom false name) := by
  induction name with
  | nil => exact .refl _
  | cons c name ih =>
    rcases isSeparator_or_isAlphanum_or_isDropped c with hc | hc | hc
    · rw [variableNameFrom_separator hc, if_neg Bool.false_ne_true]
      exact .trans _ _ _ (.symm _ _ (.rel _ _ (.leading name hc))) ih
    · rw [variableNameFrom_alphanum hc]
      exact .trans _ _ _ (.rel _ _ (respells_toUpper c [] name)) (eqvGen_started [c.toUpper] name)
    · rw [variableNameFrom_dropped hc]
      exact .trans _ _ _ (.symm _ _ (.rel _ _ (.dropped [] name hc))) ih

theorem sameName_variableName (s : String) : SameName s (variableName s) := by
  unfold SameName variableName
  rw [String.toList_ofList]
  exact eqvGen_variableNameFrom s.toList

theorem variableName_eq_iff {s t : String} : variableName s = variableName t ↔ SameName s t := by
  constructor
  · intro h
    have ht := sameName_variableName t
    rw [← h] at ht
    exact .trans _ _ _ (sameName_variableName s) (.symm _ _ ht)
  · exact variableName_of_sameName

/-- Upper-case letters, digits and underscores, the first of them no underscore. -/
def IsVariableName (name : String) : Prop :=
  (∀ c ∈ name.toList.head?, c.isAlphanum) ∧
    ∀ c ∈ name.toList, (c.isUpper ∨ c.isDigit) ∨ c = '_'

theorem isVariableName_variableName (s : String) : IsVariableName (variableName s) := by
  unfold IsVariableName variableName
  rw [String.toList_ofList]
  exact ⟨fun _ => head_variableNameFrom, fun _ => mem_variableNameFrom⟩

theorem parse_write_variableName {s : String} (value : String) (hs : variableName s ≠ "") :
    Document.parse (Document.write { nodes := [.entry { name := variableName s, value }] }) =
      .ok { nodes := [.entry { name := variableName s, value }] } := by
  rw [Document.parse_write_reread]
  · rfl
  · intro node hnode
    obtain rfl := List.mem_singleton.1 hnode
    exact isReadable_variableName value hs

theorem parse_write_set {s text : String} {options : ReaderOptions} {document : Document}
    (value : String) (hs : variableName s ≠ "") (h : Document.parse text options = .ok document) :
    ∃ read, Document.parse (document.set (variableName s) value).write = .ok read ∧
      read.entries = (document.set (variableName s) value).entries ∧
      read.get? (variableName s) = some value := by
  have hreadable := Document.isReadable_set value (Document.isReadable_of_parse h)
    (isReadable_variableName value hs)
  obtain ⟨read, hread, hentries⟩ := Document.exists_parse_write hreadable
  refine ⟨read, hread, hentries, ?_⟩
  rw [Document.get?_congr hentries, Document.get?_set_self]

def Expression.givenName (e : Expression) : String :=
  ((e.name.filter (!isBlankText ·)).orElse fun _ =>
    (e.uri.pairs.find? (·.1 == "name")).map (·.2)).getD ""

theorem variableNameFrom_eq_nil (h : ∀ c ∈ name, ¬c.isAlphanum) :
    variableNameFrom false name = [] := by
  induction name with
  | nil => rfl
  | cons c name ih =>
    have hrest := ih fun x hx => h x (List.mem_cons_of_mem _ hx)
    rcases isSeparator_or_isAlphanum_or_isDropped c with hc | hc | hc
    · rw [variableNameFrom_separator hc, if_neg Bool.false_ne_true, hrest]
    · exact absurd hc (h c List.mem_cons_self)
    · rw [variableNameFrom_dropped hc, hrest]

theorem isBlankText_eq_false {s : String} (hs : variableName s ≠ "") : isBlankText s = false := by
  cases hblank : isBlankText s with
  | false => rfl
  | true =>
    refine absurd (congrArg String.ofList (variableNameFrom_eq_nil ?_)) hs
    intro c hc halphanum
    have hsafe : isBareSafe c := by simp [isBareSafe, halphanum]
    have hshown := List.all_eq_true.1 hblank c hc
    rw [isBlank_eq_false_of_isBareSafe hsafe] at hshown
    contradiction

theorem Expression.givenName_of_flag {e : Expression} {s : String} (hs : variableName s ≠ "")
    (h : e.name = some s) : e.givenName = s := by
  have hshown : (some s).filter (!isBlankText ·) = some s := by
    simp [Option.filter, isBlankText_eq_false hs]
  rw [givenName, h, hshown]
  rfl

namespace SopsEnv

open SecretDotenv.Machine
open Effect (outcome outcome_bind_ok outcome_checkAborted_ok)

variable {v : SopsEnv} {programs : Programs} {mode : Mode} {directory : Path} {args : List String}
  {w : Wanted} {value : String} {s t : Store} {document : Document}

theorem entryName_eq (e : Expression) :
    entryName e = if (variableName e.givenName).isEmpty then .error .noEntryName
      else .ok (variableName e.givenName) := rfl

theorem entry_eq_variableName (h : v.wanted directory args = .ok w) :
    w.entry = variableName w.expression.givenName := by
  obtain ⟨-, hentry, -⟩ := wanted_cases h
  rw [entryName_eq] at hentry
  split at hentry
  · contradiction
  · exact (Except.ok.inj hentry).symm

theorem wanted_respelled {args' : List String} {e : Expression}
    (h : v.wanted directory args = .ok w)
    (hparse : Expression.parse v.keyword directory v.defaultUri args' = .ok e)
    (hkey : cacheKey w.expression.uri = cacheKey e.uri)
    (hname : SameName w.expression.givenName e.givenName) :
    v.wanted directory args' = .ok { w with expression := e } := by
  obtain ⟨hparsed, hentry, hpath⟩ := wanted_cases h
  have hsame : entryName e = .ok w.entry := by
    rwa [entryName_eq, ← variableName_of_sameName hname, ← entryName_eq]
  have hfile := filePath_of_cacheKey hparsed (Expression.isParsed_of_parse hparse) hkey hpath
  unfold wanted
  simp only [hparse, hsame, hfile]

theorem serve_ok_kept (habsolute : w.path.isAbsolute)
    (h : outcome (v.serve programs mode w) s = (.ok value, t)) :
    t.machine.directory = s.machine.directory ∧
      ∃ document, t.cache.get? (cacheKey w.expression.uri) = some document ∧
        document.get? w.entry = some value := by
  obtain ⟨document, u, hload, hafter⟩ := serve_ok_cases h
  have hu : u.machine.directory = s.machine.directory ∧
      u.cache.get? (cacheKey w.expression.uri) = some document := by
    rcases load_cases hload with ⟨kept, hkept, hresult, rfl⟩ |
      ⟨-, hfollows, -, ⟨⟨_, hfault⟩, -⟩ | ⟨shown, hresult, -, hcache⟩⟩
    · obtain rfl := Except.ok.inj hresult
      exact ⟨rfl, hkept⟩
    · contradiction
    · obtain rfl := Except.ok.inj hresult
      rw [hcache]
      exact ⟨hfollows.directory, Cache.get?_insert_self ..⟩
  rcases hafter with ⟨hvalue, rfl⟩ | ⟨-, draws, u', hencrypt, rfl⟩
  · exact ⟨hu.1, document, hu.2, hvalue⟩
  · obtain ⟨-, hfollows, -⟩ := encrypt_ok habsolute hencrypt
    exact ⟨hfollows.directory.trans hu.1, _, Cache.get?_insert_self .., Document.get?_set_self ..⟩

theorem answer_of_kept (hwanted : v.wanted (v.home s.machine) args = .ok w)
    (hkept : s.cache.get? (cacheKey w.expression.uri) = some document)
    (hvalue : document.get? w.entry = some value)
    (hgoes : ¬(mode = .cooperative ∧ s.machine.aborted)) :
    outcome (v.answer programs mode args) s = (.ok value, s) := by
  have hload (mode : Mode) :
      outcome (v.load programs mode w.expression w.path) s = (.ok document, s) := by
    unfold load
    rw [outcome_bind_ok _ (Effect.outcome_get s), hkept]
    rfl
  have hexpand : ∀ mode, outcome (v.expand programs mode args) s = (.ok value, s) := by
    intro mode
    rw [outcome_expand, hwanted]
    dsimp only
    unfold serve
    rw [outcome_bind_ok _ (hload mode), hvalue]
    rfl
  cases mode with
  | blocking => exact hexpand .blocking
  | cooperative =>
    have hchecked : outcome (checkAborted .cooperative) s = (.ok (), s) :=
      outcome_checkAborted_ok hgoes
    unfold answer expandAsync
    rw [outcome_bind_ok _ hchecked]
    exact hexpand .cooperative

theorem answer_respelled {mode' : Mode} {args' : List String} {e : Expression}
    (hwanted : v.wanted (v.home s.machine) args = .ok w)
    (hrespelled : v.wanted (v.home s.machine) args' = .ok { w with expression := e })
    (hkey : cacheKey w.expression.uri = cacheKey e.uri)
    (h : outcome (v.answer programs mode args) s = (.ok value, t))
    (hgoes : ¬(mode' = .cooperative ∧ t.machine.aborted)) :
    outcome (v.answer programs mode' args') t = (.ok value, t) := by
  rcases answer_cases h with ⟨⟨_, hfault⟩, -⟩ | ⟨w', hwanted', hserve⟩
  · contradiction
  · rw [hwanted] at hwanted'
    obtain rfl := Except.ok.inj hwanted'
    obtain ⟨hdirectory, document, hkept, hvalue⟩ :=
      serve_ok_kept (isAbsolute_of_wanted hwanted) hserve
    rw [hkey] at hkept
    rw [← home_congr hdirectory] at hrespelled
    exact answer_of_kept hrespelled hkept hvalue hgoes

/-- The normal form of a name is canonical: it is the same for just the spellings of the name.
It can be stored with any value, in any file that can be read, and one spelling is answered
with what another one was answered with. -/
theorem variableName_canonical (s : String) :
    IsVariableName (variableName s) ∧
    variableName (variableName s) = variableName s ∧
    (∀ t, variableName t = variableName s ↔ SameName t s) ∧
    (variableName s ≠ "" → ∀ value,
      Document.parse (Document.write { nodes := [.entry { name := variableName s, value }] }) =
        .ok { nodes := [.entry { name := variableName s, value }] } ∧
      ∀ text options document, Document.parse text options = .ok document →
        ∃ read, Document.parse (document.set (variableName s) value).write = .ok read ∧
          read.entries = (document.set (variableName s) value).entries ∧
          read.get? (variableName s) = some value) ∧
    (variableName s ≠ "" → ∀ e : Expression, e.name = some s → e.givenName = s) ∧
    ∀ (v : SopsEnv) directory args₁ args₂ w e, v.wanted directory args₁ = .ok w →
      Expression.parse v.keyword directory v.defaultUri args₂ = .ok e →
      cacheKey w.expression.uri = cacheKey e.uri →
      w.expression.givenName = s → SameName s e.givenName →
      w.entry = variableName s ∧ v.wanted directory args₂ = .ok { w with expression := e } ∧
      ∀ programs mode₁ mode₂ before after value, v.home before.machine = directory →
        outcome (v.answer programs mode₁ args₁) before = (.ok value, after) →
        ¬(mode₂ = .cooperative ∧ after.machine.aborted) →
        outcome (v.answer programs mode₂ args₂) after = (.ok value, after) := by
  refine ⟨isVariableName_variableName s, ?_, fun t => variableName_eq_iff, ?_, ?_, ?_⟩
  · exact (variableName_of_sameName (sameName_variableName s)).symm
  · intro hs value
    refine ⟨parse_write_variableName value hs, ?_⟩
    intro text options document h
    exact parse_write_set value hs h
  · intro hs e h
    exact Expression.givenName_of_flag hs h
  · rintro v directory args₁ args₂ w e hwanted hparse hkey rfl hname
    have hrespelled := wanted_respelled hwanted hparse hkey hname
    refine ⟨entry_eq_variableName hwanted, hrespelled, ?_⟩
    rintro programs mode₁ mode₂ before after value rfl hanswer hgoes
    exact answer_respelled hwanted hrespelled hkey hanswer hgoes

def makePassword : List String :=
  ["secret", "sops-env:///a.env", "--name", "--π/db  pässword!", "--chars", "x", "--size", "3",
    "--create"]

def readPassword : List String :=
  ["secret", "sops-env:///a.env?name=.DB_%2FPSSWORD"]

theorem variableName_canonical_password :
    variableName "--π/db  pässword!" = "DB__PSSWORD" ∧
    SameName "--π/db  pässword!" ".DB_/PSSWORD" ∧
    ∃ after, outcome (({} : SopsEnv).answer markingTool .blocking makePassword) keptFile =
        (.ok "xxx", after) ∧
      outcome (({} : SopsEnv).answer markingTool .cooperative readPassword) after =
        (.ok "xxx", after) := by
  have hname : SameName "--π/db  pässword!" ".DB_/PSSWORD" :=
    ((variableName_canonical ".DB_/PSSWORD").2.2.1 _).1 (by decide +kernel)
  refine ⟨by decide +kernel, hname, ?_⟩
  have hmade : (outcome (({} : SopsEnv).answer markingTool .blocking makePassword)
      keptFile).1.toOption = some "xxx" := by
    decide +kernel
  have hgoes : (outcome (({} : SopsEnv).answer markingTool .blocking makePassword)
      keptFile).2.machine.aborted = false := by
    decide +kernel
  have hfirst : (({} : SopsEnv).wanted (({} : SopsEnv).home keptFile.machine)
      makePassword).toOption.map (fun w => (w.expression.givenName, cacheKey w.expression.uri)) =
        some ("--π/db  pässword!", "sops-env:///a.env") := by
    decide +kernel
  have hsecond : (Expression.parse defaultKeyword (({} : SopsEnv).home keptFile.machine) none
      readPassword).toOption.map (fun e => (e.givenName, cacheKey e.uri)) =
        some (".DB_/PSSWORD", "sops-env:///a.env") := by
    decide +kernel
  obtain ⟨w, hwanted, hgiven⟩ := exists_wanted hfirst
  obtain ⟨hgiven, hkey⟩ := Prod.mk.inj hgiven
  obtain ⟨e, hparse, hother⟩ := Option.map_eq_some_iff.1 hsecond
  obtain ⟨hother, hkey'⟩ := Prod.mk.inj hother
  rcases hrun : outcome (({} : SopsEnv).answer markingTool .blocking makePassword) keptFile with
    ⟨result, after⟩
  rw [hrun] at hmade hgoes
  obtain rfl := Effect.eq_ok_of_toOption hmade
  obtain ⟨-, -, hagain⟩ := (variableName_canonical "--π/db  pässword!").2.2.2.2.2 {}
    (({} : SopsEnv).home keptFile.machine) makePassword readPassword w e hwanted
    (Effect.eq_ok_of_toOption hparse) (hkey.trans hkey'.symm) hgiven (hother ▸ hname)
  refine ⟨after, rfl, hagain markingTool .blocking .cooperative keptFile after "xxx" rfl hrun ?_⟩
  rintro ⟨-, haborted⟩
  rw [hgoes] at haborted
  exact absurd haborted Bool.false_ne_true

end SopsEnv

end SecretDotenv.Secret
