import SecretDotenv.Proofs.Secret.PlainRequest
import SecretDotenv.Secret.Vault

/-! Vaults that serve one place. Such a vault takes a request by the beginning of its text,
but the place is read from the URL. In a plain request the two agree exactly if what the
request names is as long as the name of the place: a vault also takes the requests for every
place whose name begins with that of its own. -/
namespace SecretDotenv.Secret

open SecretDotenv.Text SecretDotenv.Machine SecretDotenv.Url

namespace PlainRequest

variable (r : PlainRequest)

def tail : List Char :=
  rooted r.others ++ r.behind

theorem target_eq : r.target.toList =
    r.scheme ++ ':' :: '/' :: '/' :: ((if r.hosted then [] else ['/']) ++ (r.first ++ r.tail)) := by
  cases hhosted : r.hosted <;> simp [target, path, tail, hhosted]

theorem not_default : r.target ≠ "default" := by
  intro hdefault
  have hcolon : ':' ∈ r.target.toList := by simp [target]
  rw [hdefault] at hcolon
  exact absurd hcolon (by simp)

theorem tail_head : ∀ mark ∈ r.tail.head?, mark = '/' ∨ mark = '?' ∨ mark = '#' := by
  unfold tail
  cases r.others with
  | nil => exact fun mark hmark => Or.inr (r.marked mark hmark)
  | cons part parts => exact fun mark hmark => Or.inl (Option.mem_some.1 hmark).symm

theorem prefix_first_iff {name : List Char} (hname : IsPlain name) :
    name.map Char.toLower <+: (r.first ++ r.tail).map Char.toLower ↔
      startsWithIgnoringCase (String.ofList r.first) (String.ofList name) := by
  have hmarks : ∀ mark ∈ r.tail.head?, mark.toLower ∉ name.map Char.toLower := by
    intro mark hmark
    rcases r.tail_head mark hmark with rfl | rfl | rfl
    all_goals exact hname.not_mem_lower rfl rfl
  rw [lower_prefix_append_iff hmarks, startsWithIgnoringCase_iff, String.toList_ofList,
    String.toList_ofList]

theorem startsWith_target_iff {known : List Char} (rest : List Char)
    (hlower : known.map Char.toLower = known) (hcolon : ':' ∉ known) :
    startsWithIgnoringCase r.target (String.ofList (known ++ ':' :: '/' :: '/' :: rest)) ↔
      known = r.known.toList ∧ rest.map Char.toLower <+:
        ((if r.hosted then [] else ['/']) ++ (r.first ++ r.tail)).map Char.toLower := by
  have hknown : ':' ∉ r.known.toList := fun hmem =>
    absurd (List.all_eq_true.1 r.spelling.parts _ hmem) (by decide)
  have hcolonLower : Char.toLower ':' = ':' := rfl
  have hslashLower : Char.toLower '/' = '/' := rfl
  rw [startsWithIgnoringCase_iff, target_eq, String.toList_ofList]
  simp only [List.map_append, List.map_cons, hlower,
    r.spelling.lower, hcolonLower, hslashLower, prefix_cons_iff hcolon hknown,
    List.cons_prefix_cons, true_and]

end PlainRequest

namespace KeyVault

/-- A vault that is not the default serves the one whose name it has. -/
structure NarrowedTo (v : KeyVault) (own : List Char) : Prop where
  vault : v.vault = some (String.ofList own)
  isDefault : v.isDefault = false
  plain : IsPlain own

section Place

variable {v : KeyVault} {own : List Char} (hv : v.NarrowedTo own) (r : PlainRequest)
include hv

theorem startsWith_either_iff {scheme : String} (hscheme : scheme ∈ schemes) :
    (startsWithIgnoringCase r.target (scheme ++ "://" ++ String.ofList own) ||
      startsWithIgnoringCase r.target (scheme ++ ":///" ++ String.ofList own)) ↔
    scheme = r.known ∧ startsWithIgnoringCase (String.ofList r.first) (String.ofList own) := by
  have hspelled : scheme.toList.map Char.toLower = scheme.toList ∧ ':' ∉ scheme.toList := by
    rcases List.mem_pair.1 hscheme with rfl | rfl <;> simp [name]
  obtain ⟨hlower, hcolon⟩ := hspelled
  have hhost : scheme ++ "://" ++ String.ofList own =
      String.ofList (scheme.toList ++ ':' :: '/' :: '/' :: own) := by
    simp [← String.toList_inj]
  have hpath : scheme ++ ":///" ++ String.ofList own =
      String.ofList (scheme.toList ++ ':' :: '/' :: '/' :: '/' :: own) := by
    simp [← String.toList_inj]
  have hslash : Char.toLower '/' = '/' := rfl
  obtain ⟨c, rest, hown, hc⟩ := hv.plain.lower_cons
  obtain ⟨d, more, hfirst, hd⟩ := (r.plain _ List.mem_cons_self).lower_cons
  rw [Bool.or_eq_true, hhost, hpath, r.startsWith_target_iff _ hlower hcolon,
    r.startsWith_target_iff _ hlower hcolon, ← r.prefix_first_iff hv.plain, String.toList_inj,
    ← and_or_left]
  refine and_congr_right fun _ => ?_
  cases r.hosted with
  | true => simp [hown, hfirst, hslash, Ne.symm hd]
  | false => simp [hown, hfirst, hslash, hc]

theorem canHandle_iff : v.canHandle r.args ↔
    sameIgnoringCase r.keyword v.keyword ∧ r.known ∈ schemes ∧
      startsWithIgnoringCase (String.ofList r.first) (String.ofList own) := by
  unfold canHandle
  rw [r.target?_args]
  cases sameIgnoringCase r.keyword v.keyword with
  | false => simp
  | true =>
    simp only [if_true, r.not_default, if_false, hv.vault, hv.isDefault, Bool.false_eq_true,
      List.any_eq_true, true_and]
    constructor
    · rintro ⟨scheme, hscheme, htaken⟩
      obtain ⟨rfl, hbegins⟩ := (startsWith_either_iff hv r hscheme).1 htaken
      exact ⟨hscheme, hbegins⟩
    · rintro ⟨hscheme, hbegins⟩
      exact ⟨r.known, hscheme, (startsWith_either_iff hv r hscheme).2 ⟨rfl, hbegins⟩⟩

end Place

end KeyVault

theorem SecretLocation.vaultOf_of_ofExpression {e : Expression} {l : SecretLocation}
    (h : ofExpression e = .ok l) : ∃ parts, vaultOf e.uri = .ok (l.vault, parts) := by
  unfold ofExpression at h
  cases hvault : vaultOf e.uri with
  | error fault =>
    rw [hvault] at h
    cases h
  | ok found =>
    obtain ⟨vault, parts⟩ := found
    rw [hvault] at h
    dsimp only [bind, Except.bind] at h
    split at h
    all_goals
      split at h
      · cases h
      · rw [← Except.ok.inj h]
        exact ⟨_, rfl⟩

namespace SopsEnv

/-- A vault with a file, the default or not, serves no other. -/
structure NarrowedTo (v : SopsEnv) (own : List (List Char)) : Prop where
  file : v.file = some (String.ofList (rooted own))
  ne_nil : own ≠ []
  plain : ∀ part ∈ own, IsPlain part

theorem uriOf_rooted {own : List (List Char)} (hne : own ≠ [])
    (hown : ∀ part ∈ own, IsPlain part) :
    uriOf (String.ofList (rooted own)) =
      String.ofList (name.toList ++ ':' :: '/' :: '/' :: rooted own) := by
  obtain ⟨part, parts, rfl⟩ := List.exists_cons_of_ne_nil hne
  have hpart : IsPlain part := hown part List.mem_cons_self
  obtain ⟨c, rest, rfl⟩ := List.exists_cons_of_ne_nil hpart.ne_nil
  have hc : c ≠ '/' := ne_of_isPlainChar (hpart.chars c List.mem_cons_self) rfl
  simp [← String.toList_inj, uriOf, name, hc]

section Place

variable {v : SopsEnv} {own : List (List Char)} (hv : v.NarrowedTo own) (r : PlainRequest)
include hv

theorem prefix_file_iff : (rooted own).map Char.toLower <+:
      ((if r.hosted then [] else ['/']) ++ (r.first ++ r.tail)).map Char.toLower ↔
    r.hosted = false ∧ startsWithIgnoringCase (String.ofList (rooted (r.first :: r.others)))
      (String.ofList (rooted own)) := by
  have hslash : Char.toLower '/' = '/' := rfl
  obtain ⟨part, parts, rfl⟩ := List.exists_cons_of_ne_nil hv.ne_nil
  obtain ⟨d, more, hfirst, hd⟩ := (r.plain _ List.mem_cons_self).lower_cons
  cases r.hosted with
  | true => simp [hfirst, hslash, Ne.symm hd]
  | false =>
    have hmarks : ∀ mark ∈ r.behind.head?, mark.toLower ∉ (rooted (part :: parts)).map Char.toLower := by
      intro mark hmark hmem
      rcases r.marked mark hmark with rfl | rfl
      all_goals
        exact (isPath_rooted hv.plain).not_mem (by decide) rfl (mem_of_mem_lower rfl hmem)
    have hbehind : (if false = true then [] else ['/']) ++ (r.first ++ r.tail) =
        rooted (r.first :: r.others) ++ r.behind := by
      simp [PlainRequest.tail]
    rw [hbehind, lower_prefix_append_iff hmarks, startsWithIgnoringCase_iff, String.toList_ofList,
      String.toList_ofList, eq_self, true_and]

theorem canHandle_iff : v.canHandle r.args ↔
    sameIgnoringCase r.keyword v.keyword ∧ r.known = name ∧ r.hosted = false ∧
      startsWithIgnoringCase (String.ofList (rooted (r.first :: r.others)))
        (String.ofList (rooted own)) := by
  unfold canHandle
  rw [r.target?_args]
  cases sameIgnoringCase r.keyword v.keyword with
  | false => simp
  | true =>
    have hcolon : ':' ∉ name.toList := by simp [name]
    have hbegins := r.startsWith_target_iff (rooted own) rfl hcolon
    rw [prefix_file_iff hv r, String.toList_inj] at hbegins
    simp only [if_true, r.not_default, hv.file, Option.map_some, Option.getD_some,
      uriOf_rooted hv.ne_nil hv.plain, decide_false, Bool.and_false, Bool.false_and, Bool.false_or,
      true_and, hbegins, eq_comm (a := name)]

end Place

end SopsEnv

namespace PlainRequest

variable {r : PlainRequest} {keyword : String} {directory : Path} {default : Option String}
  {e : Expression} (hkeyword : sameIgnoringCase r.keyword keyword)
  (h : Expression.parse keyword directory default r.args = .ok e)
include hkeyword h

theorem vault_of_parse {l : SecretLocation} (hl : SecretLocation.ofExpression e = .ok l) :
    l.vault = String.ofList r.first := by
  obtain ⟨parts, hvault⟩ := SecretLocation.vaultOf_of_ofExpression hl
  unfold SecretLocation.vaultOf at hvault
  cases hhosted : r.hosted with
  | true =>
    rw [(host_of_parse hkeyword h hhosted).1] at hvault
    exact (Prod.mk.inj (Except.ok.inj hvault)).1.symm
  | false =>
    obtain ⟨hhost, hroute⟩ := path_of_parse hkeyword h hhosted
    have hfirst : r.first ≠ [] := (r.plain _ List.mem_cons_self).ne_nil
    simp only [hhost, SecretLocation.partsOf, hroute, List.map_cons] at hvault
    rw [List.filter_cons_of_pos (by simpa using hfirst)] at hvault
    exact (Prod.mk.inj (Except.ok.inj hvault)).1.symm

theorem filePath_of_parse (hhosted : r.hosted = false) :
    SopsEnv.filePath e.uri =
      .ok (Path.ofString (String.ofList (rooted (r.first :: r.others)))) := by
  obtain ⟨-, hroute⟩ := path_of_parse hkeyword h hhosted
  have htext : e.uri.path = String.ofList (rooted (r.first :: r.others)) := by
    rw [← String.toList_inj, Url.path, hroute, text_segments, List.flatMap_map, String.toList_ofList]
    simp [rooted]
  obtain ⟨c, rest, hfirst⟩ := List.exists_cons_of_ne_nil (r.plain _ List.mem_cons_self).ne_nil
  have hnamed : (rooted (r.first :: r.others)).all (· = '/') = false := by
    rw [Bool.eq_false_iff, ne_eq, List.all_eq_true]
    intro hall
    have hc : c ≠ '/' :=
      ne_of_isPlainChar ((r.plain _ List.mem_cons_self).chars c (hfirst ▸ List.mem_cons_self)) rfl
    exact hc (by simpa using hall c (by simp [hfirst]))
  unfold SopsEnv.filePath
  simp only [htext, String.toList_ofList, hnamed, Bool.false_eq_true, if_false, filePath?_file r.plain]

end PlainRequest

inductive Narrowed where
  | keyVault (v : KeyVault) (own : List Char) (h : v.NarrowedTo own)
  | file (v : SopsEnv) (own : List (List Char)) (h : v.NarrowedTo own)

namespace Narrowed

def own : Narrowed → List Char
  | keyVault _ own _ => own
  | file _ own _ => rooted own

def toVault (programs : Programs) : Narrowed → Vault Session
  | keyVault v _ _ => v.toVault programs
  | file v _ _ => v.toVault programs

def keyword : Narrowed → String
  | keyVault v _ _ => v.keyword
  | file v _ _ => v.keyword

def asked? (n : Narrowed) (r : PlainRequest) : Option (List Char) :=
  match n with
  | keyVault .. => if r.known ∈ KeyVault.schemes then some r.first else none
  | file .. =>
    if r.known = SopsEnv.name ∧ r.hosted = false then some (rooted (r.first :: r.others)) else none

/-- The place of a request has a name that begins with that of the own place. -/
def Begins (n : Narrowed) (r : PlainRequest) : Prop :=
  sameIgnoringCase r.keyword n.keyword ∧
    ∃ place, n.asked? r = some place ∧
      startsWithIgnoringCase (String.ofList place) (String.ofList n.own)

theorem canHandle_iff_begins (programs : Programs) (n : Narrowed) (r : PlainRequest) :
    (n.toVault programs).canHandle r.args ↔ n.Begins r := by
  cases n with
  | keyVault v own h =>
    refine (KeyVault.canHandle_iff h r).trans (and_congr_right fun _ => ?_)
    simp [asked?, Narrowed.own]
  | file v own h =>
    refine (SopsEnv.canHandle_iff h r).trans (and_congr_right fun _ => ?_)
    simp [asked?, Narrowed.own, and_assoc]

/-- The place of a request is the own one. Case makes another file, but no other vault. -/
def IsAsked (n : Narrowed) (r : PlainRequest) : Prop :=
  sameIgnoringCase r.keyword n.keyword ∧
    ∃ place, n.asked? r = some place ∧
      match n with
      | keyVault .. => sameIgnoringCase (String.ofList place) (String.ofList n.own)
      | file .. => place = n.own

theorem begins_of_isAsked {n : Narrowed} {r : PlainRequest} (h : n.IsAsked r) : n.Begins r := by
  obtain ⟨hkeyword, place, hplace, hown⟩ := h
  refine ⟨hkeyword, place, hplace, ?_⟩
  rw [startsWithIgnoringCase_iff]
  cases n with
  | keyVault v own hv => rw [sameIgnoringCase_iff.1 hown]
  | file v own hv => rw [show place = rooted own from hown]; rfl

theorem findIdx_eq_iff (programs : Programs) (before after : List Narrowed) {n : Narrowed}
    {r : PlainRequest} (hn : n.Begins r) :
    ((before ++ n :: after).map (·.toVault programs)).findIdx (·.canHandle r.args) =
      before.length ↔ ∀ m ∈ before, ¬ m.Begins r := by
  induction before with
  | nil => simp [List.findIdx_cons, (canHandle_iff_begins programs n r).2 hn]
  | cons m before ih =>
    rw [List.cons_append, List.map_cons, List.findIdx_cons, List.forall_mem_cons, ← ih,
      ← canHandle_iff_begins programs m r]
    cases (m.toVault programs).canHandle r.args <;> simp

end Narrowed

/-- Vaults of one place and plain requests. A key vault, asked for by its host or by its
path, and an encrypted file take every request for a place whose name begins with that of
their own; the place that is reached is their own only if the names are equally long, or
the same text. Of several vaults one is asked for its own place exactly if none before it
has a name with which that of the place begins. -/
theorem PlainRequest.taken_iff_begins (r : PlainRequest) :
    (∀ (v : KeyVault) (own : List Char), v.NarrowedTo own →
      (v.canHandle r.args ↔ sameIgnoringCase r.keyword v.keyword ∧ r.known ∈ KeyVault.schemes ∧
        startsWithIgnoringCase (String.ofList r.first) (String.ofList own)) ∧
      ∀ directory e l, v.canHandle r.args →
        Expression.parse v.keyword directory v.defaultUri r.args = .ok e →
        SecretLocation.ofExpression e = .ok l →
          l.vault = String.ofList r.first ∧
            (sameIgnoringCase l.vault (String.ofList own) ↔ r.first.length = own.length)) ∧
    (∀ (v : SopsEnv) (own : List (List Char)), v.NarrowedTo own →
      (v.canHandle r.args ↔ sameIgnoringCase r.keyword v.keyword ∧ r.known = SopsEnv.name ∧
        r.hosted = false ∧ startsWithIgnoringCase (String.ofList (rooted (r.first :: r.others)))
          (String.ofList (rooted own))) ∧
      ∀ directory e, v.canHandle r.args →
        Expression.parse v.keyword directory v.defaultUri r.args = .ok e →
          SopsEnv.filePath e.uri =
            .ok (Path.ofString (String.ofList (rooted (r.first :: r.others)))) ∧
          (SopsEnv.filePath e.uri = .ok (Path.ofString (String.ofList (rooted own))) ↔
            rooted (r.first :: r.others) = rooted own)) ∧
    ∀ (programs : Programs) (before after : List Narrowed) (n : Narrowed),
      n.IsAsked r →
        (((before ++ n :: after).map (·.toVault programs)).findIdx (·.canHandle r.args) =
          before.length ↔ ∀ m ∈ before, ¬ m.Begins r) := by
  refine ⟨fun v own hv => ⟨KeyVault.canHandle_iff hv r, ?_⟩,
    fun v own hv => ⟨SopsEnv.canHandle_iff hv r, ?_⟩, ?_⟩
  · intro directory e l htaken hparse hl
    obtain ⟨hkeyword, -, hbegins⟩ := (KeyVault.canHandle_iff hv r).1 htaken
    have hvault : l.vault = String.ofList r.first := vault_of_parse hkeyword hparse hl
    refine ⟨hvault, ?_⟩
    rw [hvault, sameIgnoringCase_iff_length hbegins, String.length_ofList, String.length_ofList]
  · intro directory e htaken hparse
    obtain ⟨hkeyword, -, hhosted, -⟩ := (SopsEnv.canHandle_iff hv r).1 htaken
    have hpath := filePath_of_parse hkeyword hparse hhosted
    refine ⟨hpath, ?_⟩
    rw [hpath, Except.ok.injEq]
    refine ⟨fun hsame => ?_, fun hsame => by rw [hsame]⟩
    simpa [Path.ofString] using utf8_injective (congrArg Path.bytes hsame)
  · intro programs before after n hasked
    exact Narrowed.findIdx_eq_iff programs before after (Narrowed.begins_of_isAsked hasked)

def vaultNamed (own : String) : KeyVault :=
  { vault := some own }

def fileNamed (own : String) : SopsEnv :=
  { file := some own }

def ofProduction : PlainRequest where
  keyword := defaultKeyword
  known := "akv"
  scheme := "akv".toList
  spelling := ⟨by decide, by decide, by decide, by decide⟩
  hosted := true
  first := "production".toList
  others := ["name".toList]
  plain := by decide
  behind := []
  marked := by simp [IsBehind]
  flag := "--create"
  flags := []

def ofBackup : PlainRequest where
  keyword := defaultKeyword
  known := SopsEnv.name
  scheme := SopsEnv.name.toList
  spelling := ⟨by decide, by decide, by decide, by decide⟩
  hosted := false
  first := "vault".toList
  others := ["a.env.bak".toList]
  plain := by decide
  behind := []
  marked := by simp [IsBehind]
  flag := "--name"
  flags := ["x"]

def secretOfProduction : Expression where
  uri :=
    { scheme := "akv", authority := some { host := some (.name "production") },
      route := .segments ["name"] }
  create := true
  tokens := ["--create"]

def entryOfBackup : Expression where
  uri := { scheme := "sops-env", authority := some {}, route := .segments ["vault", "a.env.bak"] }
  name := some "x"
  tokens := ["--name", "x"]

theorem narrowedTo_vaultNamed {own : String} (hown : IsPlain own.toList) :
    (vaultNamed own).NarrowedTo own.toList :=
  ⟨by rw [String.ofList_toList]; rfl, rfl, hown⟩

def narrowVault (own : String) (hown : IsPlain own.toList) : Narrowed :=
  .keyVault (vaultNamed own) own.toList (narrowedTo_vaultNamed hown)

def registry (vaults : List Narrowed) : List (Vault Session) :=
  vaults.map (·.toVault fun _ _ => none)

/-- The vault `prod` takes what `production` is asked for, and the file `/vault/a.env` what
its backup is asked for. Behind `stage` the vault `production` is found, behind `prod` not. -/
theorem taken_iff_begins_longer :
    ((vaultNamed "prod").canHandle ofProduction.args ∧
      Expression.parse defaultKeyword (Path.ofString "/") none ofProduction.args =
        .ok secretOfProduction ∧
      SecretLocation.ofExpression secretOfProduction = .ok { vault := "production", name := "name" } ∧
      ¬ sameIgnoringCase "production" (String.ofList "prod".toList)) ∧
    ((fileNamed "/vault/a.env").canHandle ofBackup.args ∧
      Expression.parse defaultKeyword (Path.ofString "/") none ofBackup.args = .ok entryOfBackup ∧
      SopsEnv.filePath entryOfBackup.uri ≠
        .ok (Path.ofString (String.ofList (rooted ["vault".toList, "a.env".toList])))) ∧
    (registry [narrowVault "stage" (by decide), narrowVault "production" (by decide)]).findIdx
      (·.canHandle ofProduction.args) = 1 ∧
    (registry [narrowVault "prod" (by decide), narrowVault "production" (by decide)]).findIdx
      (·.canHandle ofProduction.args) ≠ 1 := by
  have hprod : (vaultNamed "prod").NarrowedTo "prod".toList := narrowedTo_vaultNamed (by decide)
  have hfile : (fileNamed "/vault/a.env").NarrowedTo ["vault".toList, "a.env".toList] :=
    ⟨by decide, by decide, by decide⟩
  obtain ⟨hvault, -, hfound⟩ := ofProduction.taken_iff_begins
  obtain ⟨-, hbackup, -⟩ := ofBackup.taken_iff_begins
  have htaken : (vaultNamed "prod").canHandle ofProduction.args :=
    (hvault _ _ hprod).1.2 ⟨by decide +kernel, by decide +kernel, by decide +kernel⟩
  have hcopied : (fileNamed "/vault/a.env").canHandle ofBackup.args :=
    (hbackup _ _ hfile).1.2 ⟨by decide +kernel, rfl, rfl, by decide +kernel⟩
  have hasked : (narrowVault "production" (by decide)).IsAsked ofProduction :=
    ⟨by decide +kernel, "production".toList, by decide +kernel, sameIgnoringCase_iff.2 rfl⟩
  have hparse : Expression.parse defaultKeyword (Path.ofString "/") none ofProduction.args =
      .ok secretOfProduction := by
    decide +kernel
  have hl : SecretLocation.ofExpression secretOfProduction =
      .ok { vault := "production", name := "name" } := by
    decide +kernel
  have hentry : Expression.parse defaultKeyword (Path.ofString "/") none ofBackup.args =
      .ok entryOfBackup := by
    decide +kernel
  refine ⟨⟨htaken, hparse, hl, fun hsame => ?_⟩, ⟨hcopied, hentry, fun hsame => ?_⟩, ?_,
    fun hsecond => ?_⟩
  · have hlength := ((hvault _ _ hprod).2 _ _ _ htaken hparse hl).2.1 hsame
    exact absurd hlength (by decide)
  · have htext := ((hbackup _ _ hfile).2 _ _ hcopied hentry).2.1 hsame
    exact absurd htext (by decide)
  · refine (hfound (fun _ _ => none) [narrowVault "stage" (by decide)] [] _ hasked).2 fun m hm => ?_
    rw [List.mem_singleton.1 hm, ← Narrowed.canHandle_iff_begins fun _ _ => none]
    decide +kernel
  · have hnone := (hfound (fun _ _ => none) [narrowVault "prod" (by decide)] [] _ hasked).1 hsecond
    exact hnone _ List.mem_cons_self
      ((Narrowed.canHandle_iff_begins (fun _ _ => none) _ _).1 htaken)

/-- A vault and a file that take requests which reach another vault and another file, and
a registry that sends one vault's request to another. -/
theorem taken_beyond_own :
    ((vaultNamed "prod").isDefault = false ∧
      (vaultNamed "prod").canHandle ["secret", "akv://production/name", "--create"] ∧
      ∃ e l, Expression.parse (vaultNamed "prod").keyword (Path.ofString "/")
          (vaultNamed "prod").defaultUri ["secret", "akv://production/name", "--create"] = .ok e ∧
        SecretLocation.ofExpression e = .ok l ∧ sameIgnoringCase l.vault "prod" = false) ∧
    ((fileNamed "/vault/a.env").canHandle
        ["secret", "sops-env:///vault/a.env.bak", "--name", "x"] ∧
      ∃ e path, Expression.parse (fileNamed "/vault/a.env").keyword (Path.ofString "/")
          (fileNamed "/vault/a.env").defaultUri
          ["secret", "sops-env:///vault/a.env.bak", "--name", "x"] = .ok e ∧
        SopsEnv.filePath e.uri = .ok path ∧ path ≠ Path.ofString "/vault/a.env") ∧
    ((["prod", "production"].map fun own => (vaultNamed own).toVault fun _ _ => none).findIdx
      (·.canHandle ["secret", "akv://production/name", "--create"])) = 0 := by
  refine ⟨⟨rfl, by decide +kernel, secretOfProduction, { vault := "production", name := "name" },
    by decide +kernel, by decide +kernel, by decide +kernel⟩, ⟨by decide +kernel, entryOfBackup,
    Path.ofString "/vault/a.env.bak", by decide +kernel, by decide +kernel, by decide +kernel⟩,
    by decide +kernel⟩

end SecretDotenv.Secret
