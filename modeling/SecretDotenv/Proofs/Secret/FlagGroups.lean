import Mathlib.Data.List.Pairwise
import Mathlib.Data.List.Perm.Basic
import SecretDotenv.Secret.Expression
import SecretDotenv.Proofs.Text.Numeral

/-! Flags are read in groups: a flag and the arguments that it takes, which may look like flags
themselves. Each group assigns values to fields of the request, so groups that assign to different
fields may change places, and a group of short flags may be taken apart. -/
namespace SecretDotenv.Secret.Expression

open SecretDotenv.Text SecretDotenv.Machine SecretDotenv.Calendar

inductive Field where
  | name
  | size
  | switch (s : Switch)
  | special
  | chars
  | expiry
deriving DecidableEq, Repr

inductive Assignment where
  | name (value : String)
  | size (n : Nat)
  | switch (s : Switch) (on : Bool)
  | special (value : String)
  | chars (value : String)
  | expiry (instant : Instant)
deriving DecidableEq, Repr

def Assignment.field : Assignment → Field
  | .name _ => .name
  | .size _ => .size
  | .switch s _ => .switch s
  | .special _ => .special
  | .chars _ => .chars
  | .expiry _ => .expiry

def assign (e : Expression) : Assignment → Expression
  | .name value => { e with name := some value }
  | .size n => { e with policy := { e.policy with size := n } }
  | .switch s on => e.set s on
  | .special value => e.setSpecial value
  | .chars value => { e with policy := { e.policy with chars := some value } }
  | .expiry instant => { e with expiresAt := some instant }

def assignAll (e : Expression) (changes : List Assignment) : Expression :=
  changes.foldl assign e

theorem assign_comm (e : Expression) {a b : Assignment} (h : a.field ≠ b.field) :
    (e.assign a).assign b = (e.assign b).assign a := by
  cases a with
  | switch s on =>
    cases b with
    | switch t off =>
      have hne : s ≠ t := fun hst => h (congrArg Field.switch hst)
      cases s <;> cases t <;> first | rfl | contradiction
    | name | size | special | chars | expiry => cases s <;> rfl
  | name | size | special | chars | expiry =>
    cases b with
    | switch t off => cases t <;> rfl
    | name | size | special | chars | expiry => first | rfl | exact absurd rfl h

theorem assignAll_append (e : Expression) (changes more : List Assignment) :
    e.assignAll (changes ++ more) = (e.assignAll changes).assignAll more :=
  List.foldl_append

theorem assignAll_assign (e : Expression) {a : Assignment} {changes : List Assignment}
    (h : a.field ∉ changes.map Assignment.field) :
    (e.assign a).assignAll changes = (e.assignAll changes).assign a := by
  induction changes generalizing e with
  | nil => rfl
  | cons b changes ih =>
    obtain ⟨hb, hchanges⟩ := not_or.1 (mt List.mem_cons.2 h)
    simp only [assignAll, List.foldl_cons, assign_comm e hb] at ih ⊢
    exact ih _ hchanges

theorem assignAll_comm (e : Expression) {changes more : List Assignment}
    (h : (changes.map Assignment.field).Disjoint (more.map Assignment.field)) :
    (e.assignAll changes).assignAll more = (e.assignAll more).assignAll changes := by
  induction changes generalizing e with
  | nil => rfl
  | cons a changes ih =>
    obtain ⟨ha, hchanges⟩ := List.disjoint_cons_left.1 h
    calc (e.assignAll (a :: changes)).assignAll more
        = ((e.assign a).assignAll changes).assignAll more := rfl
      _ = ((e.assign a).assignAll more).assignAll changes := ih _ hchanges
      _ = (e.assignAll more).assignAll (a :: changes) := by rw [assignAll_assign e ha]; rfl

theorem assign_tokens (e : Expression) (a : Assignment) (tokens : List String) :
    assign { e with tokens } a = { e.assign a with tokens } := by
  cases a with
  | switch s on => cases s <;> rfl
  | name | size | special | chars | expiry => rfl

theorem assignAll_tokens (e : Expression) (changes : List Assignment) (tokens : List String) :
    assignAll { e with tokens } changes = { e.assignAll changes with tokens } := by
  induction changes generalizing e with
  | nil => rfl
  | cons a changes ih =>
    rw [assignAll, List.foldl_cons, assign_tokens]
    exact ih _

structure Operand where
  text : String
  isOperand : isOperand text

def Switch.name : Switch → String
  | .upper => "upper"
  | .lower => "lower"
  | .digits => "digits"
  | .create => "create"

/-- One of the flags that are joined behind a dash. -/
inductive Letter where
  | switch (s : Switch)
  | special (value : String)

def Letter.char : Letter → Char
  | .switch .upper => 'u'
  | .switch .lower => 'l'
  | .switch .digits => 'd'
  | .switch .create => 'C'
  | .special _ => 's'

def Letter.operand? : Letter → Option String
  | .switch _ => none
  | .special value => some value

def Letter.change : Letter → Assignment
  | .switch s => .switch s true
  | .special value => .special value

/-- A flag with the arguments that it takes. Those that are not guessed by how they begin may be
any text. -/
inductive Group where
  | name (flag : String) (hflag : flag ∈ ["-n", "--name"]) (value : String)
  | size (text : String) (n : Int) (h : int64? text = some n)
  | chars (value : String)
  | expiry (text : String) (instant : Instant) (h : Instant.ofString? text = some instant)
  | off (behind : String)
  | switch (s : Switch) (operand : Option Operand)
  | special (operand : Option Operand)
  /-- Letters behind one dash, and behind them a value for each `s`. -/
  | cluster (letters : List Letter)

def offChanges : String → List Assignment
  | "upper" => [.switch .upper false]
  | "lower" => [.switch .lower false]
  | "digits" => [.switch .digits false]
  | "special" => [.special ""]
  | _ => []

namespace Group

def ofSize (n : Int) (h : fitsInt64 n) : Group :=
  .size (toString n) n (int64?_toString h)

def flag : Group → String
  | .name flag _ _ => flag
  | .size .. => "--size"
  | .chars _ => "--chars"
  | .expiry .. => "--expires-at"
  | .off behind => "--no-" ++ behind
  | .switch s _ => "--" ++ s.name
  | .special _ => "--special"
  | .cluster letters => String.ofList ('-' :: letters.map Letter.char)

def operands : Group → List String
  | .name _ _ value => [value]
  | .size text _ _ => [text]
  | .chars value => [value]
  | .expiry text _ _ => [text]
  | .off _ => []
  | .switch _ operand => (operand.map Operand.text).toList
  | .special operand => (operand.map Operand.text).toList
  | .cluster letters => letters.filterMap Letter.operand?

def args (g : Group) : List String :=
  g.flag :: g.operands

def changes : Group → List Assignment
  | .name _ _ value => [.name value]
  | .size _ n _ => [.size n.toNat]
  | .chars value => [.chars value]
  | .expiry _ instant _ => [.expiry instant]
  | .off behind => offChanges behind
  | .switch s none => [.switch s true]
  | .switch s (some operand) => [.switch s (sameIgnoringCase operand.text "true")]
  | .special none => []
  | .special (some operand) => [.special (specialOf operand.text)]
  | .cluster letters => letters.map Letter.change

def fields (g : Group) : List Field :=
  g.changes.map Assignment.field

end Group

def apply (e : Expression) (g : Group) : Expression :=
  e.assignAll g.changes

theorem foldl_apply (groups : List Group) (e : Expression) :
    groups.foldl apply e = e.assignAll (groups.flatMap Group.changes) := by
  induction groups generalizing e with
  | nil => rfl
  | cons g groups ih => rw [List.foldl_cons, ih, List.flatMap_cons, assignAll_append, apply]

theorem foldl_apply_perm {groups others : List Group} (h : groups.Perm others)
    (hfields : groups.Pairwise fun g k => g.fields.Disjoint k.fields) (e : Expression) :
    groups.foldl apply e = others.foldl apply e := by
  have hsymm : Std.Symm fun g k : Group => g.fields.Disjoint k.fields :=
    ⟨fun _ _ => List.disjoint_symm⟩
  refine h.foldl_eq' (fun g hg k hk e => ?_) e
  by_cases hgk : g = k
  · rw [hgk]
  · exact assignAll_comm e (hfields.forall hg hk hgk)

theorem foldl_apply_cluster (letters : List Letter) (e : Expression) :
    (letters.map fun letter => .cluster [letter]).foldl apply e = e.apply (.cluster letters) := by
  have hchanges : (letters.map fun letter => Group.cluster [letter]).flatMap Group.changes =
      (Group.cluster letters).changes := by
    rw [List.flatMap_map]
    exact (List.map_eq_flatMap ..).symm
  rw [foldl_apply, hchanges, apply]

def knownFlags : List String :=
  ["-n", "--name", "--size", "--no-upper", "--no-lower", "--no-digits", "--no-special", "--upper",
    "--lower", "--digits", "--create", "--chars", "--special", "--expires-at"]

theorem readFlag_of_not_mem (e : Expression) {flag : String} (h : flag ∉ knownFlags) :
    e.readFlag flag =
      match flag.toList with
      | '-' :: '-' :: _ => (.flag, e)
      | '-' :: letters => e.readGroup letters
      | _ => (.flag, e) := by
  unfold readFlag
  split
  all_goals first | rfl | exact absurd (by decide) h

theorem readFlag_off (e : Expression) (behind : String) :
    e.readFlag ("--no-" ++ behind) = (.flag, e.assignAll (offChanges behind)) := by
  unfold offChanges
  split
  case h_5 hupper hlower hdigits hspecial =>
    have hmem : "--no-" ++ behind ∉ knownFlags := by
      simp only [← String.toList_inj] at hupper hlower hdigits hspecial
      simpa [knownFlags, ← String.toList_inj] using ⟨hupper, hlower, hdigits, hspecial⟩
    rw [readFlag_of_not_mem e hmem, String.toList_append]
    rfl
  all_goals rfl

theorem isOperand_of_dash {part : String} (h : part.toList.head? = some '-') :
    isOperand part = false := by
  simp [isOperand, h]

theorem Group.isOperand_flag (g : Group) : isOperand g.flag = false := by
  apply isOperand_of_dash
  cases g with
  | name flag hflag value =>
    have hall : ∀ flag ∈ ["-n", "--name"], flag.toList.head? = some '-' := by decide
    exact hall flag hflag
  | size | chars | expiry | off | switch | special | cluster => simp [flag]

theorem readArguments_cons {awaited next : Awaited} {e f : Expression} {part : String}
    (h : e.readArgument awaited part = .ok (next, f)) (rest : List String) :
    e.readArguments awaited (part :: rest) = f.readArguments next rest := by
  rw [readArguments, h]

theorem readArguments_flag {awaited : Awaited} (hawaited : awaited.missing? = none) (e : Expression)
    {rest : List String} (hrest : ∀ part ∈ rest.head?, isOperand part = false) :
    readArguments awaited e rest = readArguments .flag e rest := by
  cases rest with
  | nil =>
    rw [readArguments, hawaited]
    rfl
  | cons part rest =>
    have hpart : isOperand part = false := hrest part rfl
    cases awaited with
    | flag => rfl
    | switch s => simp [readArguments, readArgument, hpart]
    | special => simp [readArguments, readArgument, hpart]
    | name | size | chars | expiry | specials => simp [Awaited.missing?] at hawaited

def awaiting : Nat → Awaited
  | 0 => .flag
  | more + 1 => .specials more

theorem readArguments_specials (e : Expression) (values rest : List String) :
    readArguments (awaiting values.length) e (values ++ rest) =
      readArguments .flag (values.foldl setSpecial e) rest := by
  induction values generalizing e with
  | nil => rfl
  | cons value values ih =>
    rw [List.foldl_cons, ← ih]
    cases values <;> rfl

theorem setSpecial_foldl_readLetter (letters : List Char) (e : Expression) (value : String) :
    (letters.foldl readLetter e).setSpecial value =
      letters.foldl readLetter (e.setSpecial value) := by
  induction letters generalizing e with
  | nil => rfl
  | cons letter letters ih =>
    rw [List.foldl_cons, List.foldl_cons, ih]
    congr 1
    unfold readLetter
    split <;> rfl

/-- The letters that switch are read before the values of the others, which makes no difference. -/
theorem foldl_readLetter (letters : List Letter) (e : Expression) :
    (letters.filterMap Letter.operand?).foldl setSpecial
        ((letters.map Letter.char).foldl readLetter e) =
      e.assignAll (letters.map Letter.change) := by
  induction letters generalizing e with
  | nil => rfl
  | cons letter letters ih =>
    rw [List.map_cons, List.foldl_cons, List.map_cons, assignAll, List.foldl_cons, ← assignAll,
      ← ih]
    cases letter with
    | switch s => cases s <;> rfl
    | special value =>
      -- A value that was read first is set before the letters behind it, and stays as it is.
      have hvalues : (Letter.special value :: letters).filterMap Letter.operand? =
          value :: letters.filterMap Letter.operand? := rfl
      rw [hvalues, List.foldl_cons, setSpecial_foldl_readLetter]
      rfl

theorem count_letters (letters : List Letter) :
    (letters.map Letter.char).count 's' = (letters.filterMap Letter.operand?).length := by
  induction letters with
  | nil => rfl
  | cons letter letters ih =>
    cases letter with
    | switch s => cases s <;> simpa [Letter.char, List.filterMap_cons, Letter.operand?] using ih
    | special value => simpa [Letter.char, List.filterMap_cons, Letter.operand?] using ih

theorem readGroup_eq (e : Expression) (letters : List Char) :
    e.readGroup letters = (awaiting (letters.count 's'), letters.foldl readLetter e) := by
  cases h : letters.count 's' <;> simp [readGroup, awaiting, h]

theorem Letter.char_ne (letter : Letter) : letter.char ≠ '-' ∧ letter.char ≠ 'n' := by
  cases letter with
  | switch s => cases s <;> decide
  | special value => simp [char]

theorem readFlag_cluster (e : Expression) (letters : List Letter) :
    e.readFlag (Group.cluster letters).flag =
      (awaiting (letters.filterMap Letter.operand?).length,
        (letters.map Letter.char).foldl readLetter e) := by
  have hmem : (Group.cluster letters).flag ∉ knownFlags := by
    cases letters <;>
      simp [knownFlags, Group.flag, ← String.toList_inj, Letter.char_ne]
  rw [readFlag_of_not_mem e hmem, Group.flag, String.toList_ofList, ← count_letters, ← readGroup_eq]
  split
  · next htext =>
    cases letters <;> simp [Letter.char_ne] at htext
  · next htext => rw [(List.cons.inj htext).2]
  · next hdash => exact absurd rfl (hdash _)

theorem readArguments_group (e : Expression) (g : Group) {rest : List String}
    (hrest : ∀ part ∈ rest.head?, isOperand part = false) :
    e.readArguments .flag (g.args ++ rest) = (e.apply g).readArguments .flag rest := by
  cases g with
  | name flag hflag value =>
    simp only [List.mem_cons, List.not_mem_nil, or_false] at hflag
    rcases hflag with rfl | rfl <;> rfl
  | size text n h =>
    have hvalue : e.readArgument .size text = .ok (.flag, e.assign (.size n.toNat)) := by
      rw [readArgument, h]
      rfl
    exact readArguments_cons hvalue rest
  | chars value => rfl
  | expiry text instant h =>
    have hvalue : e.readArgument .expiry text = .ok (.flag, e.assign (.expiry instant)) := by
      rw [readArgument, h]
      rfl
    exact readArguments_cons hvalue rest
  | off behind =>
    have hflag : e.readArgument .flag ("--no-" ++ behind) =
        .ok (.flag, e.assignAll (offChanges behind)) := congrArg Except.ok (readFlag_off e behind)
    exact readArguments_cons hflag rest
  | switch s operand =>
    have hflag : e.readArgument .flag ("--" ++ s.name) = .ok (.switch s, e.set s true) := by
      cases s <;> rfl
    refine (readArguments_cons hflag ((operand.map Operand.text).toList ++ rest)).trans ?_
    cases operand with
    | none =>
      -- The next group begins with a dash, so nothing of it is taken for a value.
      exact readArguments_flag rfl _ hrest
    | some operand =>
      have hvalue : (e.set s true).readArgument (.switch s) operand.text =
          .ok (.flag, e.set s (sameIgnoringCase operand.text "true")) := by
        rw [readArgument, if_pos operand.isOperand]
        cases s <;> rfl
      exact readArguments_cons hvalue rest
  | special operand =>
    have hflag : e.readArgument .flag "--special" = .ok (.special, e) := rfl
    refine (readArguments_cons hflag ((operand.map Operand.text).toList ++ rest)).trans ?_
    cases operand with
    | none => exact readArguments_flag rfl _ hrest
    | some operand =>
      have hvalue : e.readArgument .special operand.text =
          .ok (.flag, e.setSpecial (specialOf operand.text)) := by
        rw [readArgument, if_pos operand.isOperand]
      exact readArguments_cons hvalue rest
  | cluster letters =>
    have hflag : e.readArgument .flag (Group.cluster letters).flag =
        .ok (awaiting (letters.filterMap Letter.operand?).length,
          (letters.map Letter.char).foldl readLetter e) :=
      congrArg Except.ok (readFlag_cluster e letters)
    refine (readArguments_cons hflag (letters.filterMap Letter.operand? ++ rest)).trans ?_
    rw [readArguments_specials, foldl_readLetter]
    rfl

theorem Group.head?_args (groups : List Group) :
    ∀ part ∈ (groups.flatMap Group.args).head?, isOperand part = false := by
  cases groups with
  | nil => simp
  | cons g groups =>
    rintro part ⟨⟩
    exact g.isOperand_flag

theorem readArguments_groups (e : Expression) (groups : List Group) :
    e.readArguments .flag (groups.flatMap Group.args) = .ok (groups.foldl apply e) := by
  induction groups generalizing e with
  | nil => rfl
  | cons g groups ih =>
    rw [List.flatMap_cons, readArguments_group e g (Group.head?_args groups), ih, List.foldl_cons]

theorem dropKeyword_append (keyword : String) {front : List String} (h : front ≠ [])
    (rest : List String) :
    dropKeyword keyword (front ++ rest) = dropKeyword keyword front ++ rest := by
  cases front with
  | nil => exact absurd rfl h
  | cons first front =>
    simp only [List.cons_append, dropKeyword]
    split <;> rfl

def urlOf? (directory : Path) (default : Option String) (target : String) : Option Url :=
  if isBlankText target then none
  else (if sameIgnoringCase target "default" then default else some target).bind fun location =>
    Url.ofString? (withDirectory directory location)

section

variable {keyword : String} {directory : Path} {default : Option String} {front : List String}
  {target : String} {uri : Url}

theorem parse_front (hfront : dropKeyword keyword front = [target])
    (huri : urlOf? directory default target = some uri) (rest : List String) :
    parse keyword directory default (front ++ rest) =
      readArguments .flag { uri, tokens := rest } rest := by
  have hne : front ≠ [] := by
    rintro rfl
    simp [dropKeyword] at hfront
  obtain ⟨hblank, hlocation⟩ := Option.ite_none_left_eq_some.1 huri
  obtain ⟨location, hsome, huri⟩ := Option.bind_eq_some_iff.1 hlocation
  rw [parse, dropKeyword_append keyword hne, hfront]
  simp [hblank, hsome, huri]

theorem parse_args (hfront : dropKeyword keyword front = [target])
    (huri : urlOf? directory default target = some uri) (groups : List Group) :
    parse keyword directory default (front ++ groups.flatMap Group.args) =
      .ok (groups.foldl apply { uri, tokens := groups.flatMap Group.args }) := by
  rw [parse_front hfront huri, readArguments_groups]

/-- Groups that are read as others are, except for the tokens. -/
def ReadsAlike (keyword : String) (directory : Path) (default : Option String)
    (front : List String) (groups others : List Group) : Prop :=
  ∃ e, parse keyword directory default (front ++ groups.flatMap Group.args) = .ok e ∧
    parse keyword directory default (front ++ others.flatMap Group.args) =
      .ok { e with tokens := others.flatMap Group.args }

theorem readsAlike_of_foldl (hfront : dropKeyword keyword front = [target])
    (huri : urlOf? directory default target = some uri) {groups others : List Group}
    (h : ∀ e : Expression, groups.foldl apply e = others.foldl apply e) :
    ReadsAlike keyword directory default front groups others := by
  refine ⟨_, parse_args hfront huri groups, ?_⟩
  rw [parse_args hfront huri others, ← h, foldl_apply, foldl_apply, ← assignAll_tokens]

/-- Behind a target every list of groups is read, one group after another; groups that write
different fields may change places, and each letter of a group may stand alone. -/
theorem parse_groups (hfront : dropKeyword keyword front = [target])
    (huri : urlOf? directory default target = some uri) :
    (∀ groups : List Group, parse keyword directory default (front ++ groups.flatMap Group.args) =
      .ok (groups.foldl apply { uri, tokens := groups.flatMap Group.args })) ∧
    (∀ groups others : List Group, groups.Perm others →
      groups.Pairwise (fun g k => g.fields.Disjoint k.fields) →
        ReadsAlike keyword directory default front groups others) ∧
    ∀ (before after : List Group) (letters : List Letter),
      ReadsAlike keyword directory default front (before ++ .cluster letters :: after)
        (before ++ (letters.map (fun letter => .cluster [letter]) ++ after)) := by
  refine ⟨parse_args hfront huri, fun groups others hperm hfields => ?_,
    fun before after letters => ?_⟩
  · exact readsAlike_of_foldl hfront huri (foldl_apply_perm hperm hfields)
  · refine readsAlike_of_foldl hfront huri fun e => ?_
    rw [List.foldl_append, List.foldl_append, List.foldl_append, foldl_apply_cluster,
      List.foldl_cons]

end

/-- Operands that look like flags, and a flag that is not known. -/
theorem parse_groups_dashes :
    let groups : List Group := [.name "-n" (by decide) "--size",
      .cluster [.switch .upper, .special "-d", .switch .create, .special ""],
      .switch .digits none, .ofSize (-9223372036854775808) (by decide), .off "such"]
    groups.flatMap Group.args = ["-n", "--size", "-usCs", "-d", "", "--digits", "--size",
        "-9223372036854775808", "--no-such"] ∧
      dropKeyword "key" ["KEY", "akv://v/n"] = ["akv://v/n"] ∧
      ∃ uri, urlOf? (Path.ofString "/") none "akv://v/n" = some uri ∧
        parse "key" (Path.ofString "/") none (["KEY", "akv://v/n"] ++ groups.flatMap Group.args) =
          .ok { uri
                name := some "--size"
                create := true
                policy := { size := 0, special := "" }
                tokens := groups.flatMap Group.args } ∧
        ReadsAlike "key" (Path.ofString "/") none ["KEY", "akv://v/n"] groups groups.reverse := by
  intro groups
  have hfront : dropKeyword "key" ["KEY", "akv://v/n"] = ["akv://v/n"] := by decide
  obtain ⟨uri, huri⟩ : ∃ uri, urlOf? (Path.ofString "/") none "akv://v/n" = some uri :=
    Option.isSome_iff_exists.1 (by decide +kernel)
  obtain ⟨hread, hperm, -⟩ := parse_groups hfront huri
  have hfields : groups.Pairwise fun g k => g.fields.Disjoint k.fields := by
    simp [groups, Group.fields, Group.changes, Group.ofSize, offChanges, Letter.change,
      Assignment.field]
  refine ⟨by decide, hfront, uri, huri, ?_, hperm _ _ (List.reverse_perm groups).symm hfields⟩
  exact (hread groups).trans rfl

end SecretDotenv.Secret.Expression
