import SecretDotenv.Proofs.Secret.FlagGroups
import SecretDotenv.Proofs.Secret.WorkingDirectory
import SecretDotenv.Proofs.Text.Decoded
import SecretDotenv.Proofs.Url.LiteralPath

/-! The file that is opened. The path that a vault is set up with stands as it is in the URL of
`default`, and the working directory stands so in the URL that names a file in it; what comes back
is the same path exactly if it is literal. -/
namespace SecretDotenv.Secret

open SecretDotenv.Text SecretDotenv.Machine SecretDotenv.Url

def absolute (parts : List (List Char)) : List Char :=
  '/' :: (rooted parts).tail

@[simp] theorem absolute_nil : absolute [] = ['/'] := rfl

@[simp] theorem absolute_cons (first : List Char) (others : List (List Char)) :
    absolute (first :: others) = rooted (first :: others) := rfl

theorem dropWhile_rooted {parts : List (List Char)} (h : ∀ part ∈ parts, IsComponent part) :
    (rooted parts).dropWhile (· = '/') = (rooted parts).tail := by
  cases parts with
  | nil => rfl
  | cons first others =>
    obtain ⟨hne, -, -, hslash⟩ := h first List.mem_cons_self
    obtain ⟨c, rest, rfl⟩ := List.exists_cons_of_ne_nil hne
    have hc : c ≠ '/' := fun heq => hslash (heq ▸ List.mem_cons_self)
    simp [hc]

namespace Expression

theorem substituteDirectory_of_not_infix {word s : List Char} (directory : List Char)
    (h : ¬word <:+: s) : substituteDirectory word directory s = s := by
  have hpieces : piecesAround word 0 s = [s] := by
    induction s with
    | nil => rfl
    | cons c s ih =>
      have hbegins : word.isPrefixOf (c :: s) = false := by
        rw [Bool.eq_false_iff, ne_eq, List.isPrefixOf_iff_prefix]
        exact fun hbegins => h hbegins.isInfix
      rw [piecesAround, if_neg (by simp [hbegins]), ih fun hinfix => h (List.infix_cons hinfix)]
  rw [substituteDirectory_eq directory hpieces]
  rfl

theorem infix_of_infix_append {word front s : List Char} (hfront : '$' ∉ front)
    (h : '$' :: word <:+: front ++ s) : '$' :: word <:+: s := by
  induction front with
  | nil => exact h
  | cons c front ih =>
    obtain ⟨hc, hfront⟩ := not_or.1 (mt List.mem_cons.2 hfront)
    rcases List.infix_cons_iff.1 h with hbegins | hinfix
    · exact absurd (List.cons_prefix_cons.1 hbegins).1 hc
    · exact ih hfront hinfix

theorem withDirectory_of_not_infix (directory : Path) {text : List Char}
    (hcwd : ¬"$CWD".toList <:+: text) (hpwd : ¬"$PWD".toList <:+: text) :
    withDirectory directory (String.ofList text) = String.ofList text := by
  rw [← String.toList_inj, toList_withDirectory_ofList, substituteDirectory_of_not_infix _ hcwd,
    substituteDirectory_of_not_infix _ hpwd, String.toList_ofList]

theorem display_ofString (s : List Char) :
    (Path.ofString (String.ofList s)).display.toList = s := by
  rw [Path.ofString, Path.display, ofUtf8, String.toList_ofList, String.toList_ofList,
    decodeUtf8_utf8]

def slashed (c : Char) : Char :=
  if c = '\\' then '/' else c

theorem directoryText_ofString (s : List Char) :
    directoryText (Path.ofString (String.ofList s)) = (s.map slashed).rdropWhile (· = '/') := by
  rw [directoryText, display_ofString]
  rfl

theorem map_slashed {s : List Char} (h : '\\' ∉ s) : s.map slashed = s := by
  refine (List.map_congr_left fun c hc => if_neg ?_).trans (List.map_id s)
  rintro rfl
  exact h hc

theorem solid_map_slashed (s : List Char) :
    solid (utf8 (s.map slashed)) + s.count '\\' = solid (utf8 s) := by
  induction s with
  | nil => rfl
  | cons c s ih =>
    rw [List.map_cons, solid_utf8_cons, solid_utf8_cons]
    by_cases hc : c = '\\'
    · subst hc
      have hnone : solid (String.utf8EncodeChar (slashed '\\')) = 0 := by decide
      have hone : solid (String.utf8EncodeChar '\\') = 1 := by decide
      rw [hnone, hone, List.count_cons_self]
      omega
    · rw [slashed, if_neg hc, List.count_cons_of_ne hc]
      omega

theorem solid_le_of_sublist {a b : List Char} (h : a.Sublist b) :
    solid (utf8 a) ≤ solid (utf8 b) := by
  induction h with
  | slnil => exact Nat.le_refl _
  | cons c _ ih =>
    rw [solid_utf8_cons]
    omega
  | cons_cons c _ ih =>
    rw [solid_utf8_cons, solid_utf8_cons]
    omega

theorem rdropWhile_rooted {parts : List (List Char)} (h : ∀ part ∈ parts, IsComponent part) :
    (absolute parts).rdropWhile (· = '/') = rooted parts := by
  rcases List.eq_nil_or_concat parts with rfl | ⟨front, last, rfl⟩
  · rfl
  rw [List.concat_eq_append] at h ⊢
  obtain ⟨hne, -, -, hslash⟩ := h last (by simp)
  have hsplit : absolute (front ++ [last]) = rooted (front ++ [last]) := by
    cases front <;> rfl
  rw [hsplit, List.rdropWhile_eq_self_iff]
  intro hrooted hend
  have hlast : (rooted (front ++ [last])).getLast hrooted = last.getLast hne := by
    simp [rooted_append, List.getLast_append_of_ne_nil, hne]
  rw [hlast, decide_eq_true_eq] at hend
  exact hslash (hend ▸ List.getLast_mem hne)

theorem infix_of_infix_append_cons {word a b : List Char} (hslash : '/' ∉ word)
    (h : word <:+: a ++ '/' :: b) : word <:+: a ∨ word <:+: b := by
  induction a with
  | nil =>
    rcases List.infix_cons_iff.1 h with hbegins | hinfix
    · cases word with
      | nil => exact Or.inr (List.nil_infix)
      | cons c word =>
        rw [(List.cons_prefix_cons.1 hbegins).1] at hslash
        exact absurd List.mem_cons_self hslash
    · exact Or.inr hinfix
  | cons c a ih =>
    rcases List.infix_cons_iff.1 h with hbegins | hinfix
    · have hmark : ∀ mark ∈ ('/' :: b).head?, mark ∉ word := by simpa using hslash
      have hword : word <+: c :: a := (prefix_append_iff hmark).1 hbegins
      exact Or.inl hword.isInfix
    · exact (ih hinfix).imp_left List.infix_cons

theorem infix_of_infix_slashed {word s : List Char} (hslash : '/' ∉ word)
    (h : word <:+: s.map slashed) : word <:+: s := by
  obtain ⟨front, back, hsplit⟩ := h
  obtain ⟨rest, last, rfl, hrest, -⟩ := List.map_eq_append_iff.1 hsplit.symm
  obtain ⟨start, middle, rfl, -, hmiddle⟩ := List.map_eq_append_iff.1 hrest
  have hback : '\\' ∉ middle := fun hmem =>
    hslash (hmiddle ▸ List.mem_map.2 ⟨'\\', hmem, rfl⟩)
  rw [map_slashed hback] at hmiddle
  exact ⟨start, last, by rw [hmiddle]⟩

def placed (directory : Path) : List Char :=
  (directoryText directory).dropWhile (· = '/')

theorem withDirectory_placeholder {s : List Char} {word : String} {front back : List Char}
    (hword : word = "$CWD" ∨ word = "$PWD")
    (hnested : word = "$CWD" → ¬"$PWD".toList <:+: s) (hfront : '$' ∉ front) (hback : '$' ∉ back)
    (hslash : front.getLast? = some '/') :
    withDirectory (Path.ofString (String.ofList s))
        (String.ofList (front ++ word.toList ++ '/' :: back)) =
      String.ofList (front ++ placed (Path.ofString (String.ofList s)) ++ '/' :: back) := by
  have hinserted : insertedBehind (directoryText (Path.ofString (String.ofList s))) front =
      placed (Path.ofString (String.ofList s)) := by
    rw [insertedBehind, if_pos hslash, placed]
  have hback' : '$' ∉ '/' :: back := by simp [hback]
  rw [← String.toList_inj, String.toList_ofList]
  rcases hword with rfl | rfl
  · have hfirst : substituteDirectory "$CWD".toList
        (directoryText (Path.ofString (String.ofList s))) (front ++ "$CWD".toList ++ '/' :: back) =
          front ++ placed (Path.ofString (String.ofList s)) ++ '/' :: back := by
      have honce := substituteDirectory_once ['C', 'W', 'D']
        (directoryText (Path.ofString (String.ofList s))) hfront hback'
      rw [List.append_assoc, ← hinserted]
      exact honce
    have hnone : ¬"$PWD".toList <:+: front ++ placed (Path.ofString (String.ofList s)) ++ '/' :: back := by
      intro hinfix
      rw [List.append_assoc] at hinfix
      have hbehind : "$PWD".toList <:+: placed (Path.ofString (String.ofList s)) ++ '/' :: back :=
        infix_of_infix_append hfront hinfix
      rcases infix_of_infix_append_cons (by decide) hbehind with hplaced | hplaced
      · have htext : placed (Path.ofString (String.ofList s)) <:+: s.map slashed := by
          rw [placed, directoryText_ofString]
          exact (List.dropWhile_suffix _).isInfix.trans (List.rdropWhile_prefix _ _).isInfix
        exact hnested rfl (infix_of_infix_slashed (by decide) (hplaced.trans htext))
      · exact hback (hplaced.subset List.mem_cons_self)
    rw [toList_withDirectory_ofList, hfirst, substituteDirectory_of_not_infix _ hnone]
  · rw [toList_withDirectory_pwd _ hfront hback', hinserted]

theorem not_isBlank_of_toLower {c : Char} (h : c.toLower = 'd') : isBlank c = false := by
  revert h
  refine ascii_cases (P := fun c => c.toLower = 'd' → isBlank c = false) (by decide)
    (fun c hc h => ?_) c
  rw [toLower_of_le hc] at h
  rw [h]
  rfl

theorem urlOf?_default {directory : Path} {location target : String} {uri : Url}
    (htarget : sameIgnoringCase target "default")
    (huri : Url.ofString? (withDirectory directory location) = some uri) :
    urlOf? directory (some location) target = some uri := by
  have hblank : isBlankText target = false := by
    rw [sameIgnoringCase_iff] at htarget
    obtain ⟨c, rest, htext, hc, -⟩ := List.map_eq_cons_iff.1 htarget
    rw [isBlankText, htext, List.all_cons, not_isBlank_of_toLower hc, Bool.false_and]
  simp [urlOf?, hblank, htarget, huri]

theorem urlOf?_target {directory : Path} {default : Option String} {target : String} {uri : Url}
    (hblank : isBlankText target = false) (hother : sameIgnoringCase target "default" = false)
    (huri : Url.ofString? (withDirectory directory target) = some uri) :
    urlOf? directory default target = some uri := by
  simp [urlOf?, hblank, hother, huri]

end Expression

namespace SopsEnv

open Expression

theorem isSpelling_name : IsSpelling name.toList name where
  lower := by decide
  head := by decide
  parts := by decide
  family := by decide

theorem uriOf_absolute {parts : List (List Char)} (hcomponents : ∀ part ∈ parts, IsComponent part) :
    uriOf (String.ofList (absolute parts)) =
      String.ofList (name.toList ++ ':' :: '/' :: '/' :: absolute parts) := by
  have hdropped : (absolute parts).dropWhile (· = '/') = (rooted parts).tail := by
    cases parts with
    | nil => rfl
    | cons first others => exact dropWhile_rooted hcomponents
  rw [uriOf, String.toList_ofList, hdropped, ← String.toList_inj]
  simp [absolute]

theorem filePath_root {u : Url} (hroute : u.route = Route.ofParts (urlParts (keptPath []))) :
    filePath u = .error (.noPath u) := by
  obtain ⟨t, hpath, hfile⟩ := filePath_eq hroute
  have hroot : rooted (urlParts (keptPath [])) = ['/'] := by decide
  rw [hroot] at hpath
  rw [hfile, ← (List.cons.inj hpath).2]
  rfl

theorem filePath_absolute {u : Url} {parts : List (List Char)}
    (hcomponents : ∀ part ∈ parts, IsComponent part)
    (hroute : u.route = Route.ofParts (urlParts (keptPath (rooted parts).tail))) :
    filePath u = .ok (Path.ofString (String.ofList (absolute parts))) ↔
      parts ≠ [] ∧ IsLiteral parts := by
  cases parts with
  | nil => simp [filePath_root hroute]
  | cons first others => simpa using filePath_iff_isLiteral hcomponents hroute

theorem default_opens {v : SopsEnv} {parts : List (List Char)}
    (hcomponents : ∀ part ∈ parts, IsComponent part) (hdefault : v.isDefault)
    (hfile : v.file = some (String.ofList (absolute parts)))
    (hcwd : ¬"$CWD".toList <:+: absolute parts) (hpwd : ¬"$PWD".toList <:+: absolute parts)
    (directory : Path) {front : List String} {target : String}
    (hfront : dropKeyword v.keyword front = [target])
    (htarget : sameIgnoringCase target "default") :
    ∃ uri, (∀ flags, parse v.keyword directory v.defaultUri (front ++ flags) =
        readArguments .flag { uri, tokens := flags } flags) ∧
      (filePath uri = .ok (Path.ofString (String.ofList (absolute parts))) ↔
        parts ≠ [] ∧ IsLiteral parts) := by
  have hlocation : v.defaultUri = some (uriOf (String.ofList (absolute parts))) := by
    rw [SopsEnv.defaultUri, if_pos hdefault, hfile, Option.map_some]
  have hkept : withDirectory directory (uriOf (String.ofList (absolute parts))) =
      uriOf (String.ofList (absolute parts)) := by
    have hsplit : name.toList ++ ':' :: '/' :: '/' :: absolute parts =
        (name.toList ++ "://".toList) ++ absolute parts := by
      simp
    rw [uriOf_absolute hcomponents, hsplit]
    exact withDirectory_of_not_infix directory
      (fun h => hcwd (infix_of_infix_append (by decide) h))
      (fun h => hpwd (infix_of_infix_append (by decide) h))
  obtain ⟨uri, hread, hroute⟩ := ofString?_path isSpelling_name (rooted parts).tail
  rw [show name.toList ++ ':' :: '/' :: '/' :: '/' :: (rooted parts).tail =
    name.toList ++ ':' :: '/' :: '/' :: absolute parts from rfl,
    ← uriOf_absolute hcomponents, ← hkept] at hread
  refine ⟨uri, fun flags => ?_, filePath_absolute hcomponents hroute⟩
  rw [hlocation]
  exact parse_front hfront (urlOf?_default htarget hread) flags

theorem isPlain_of_isComponent {file : List Char} (h : IsComponent file)
    (hchars : ∀ c ∈ file, c.isAlphanum ∨ c ∈ ['.', '-', '_']) : IsPlain file where
  ne_nil := h.ne_nil
  ne_here := h.ne_here
  ne_up := h.ne_up
  chars c hc := by
    have hc := hchars c hc
    revert hc
    refine ascii_cases (P := fun c => c.isAlphanum = true ∨ c ∈ ['.', '-', '_'] → isPlainChar c = true)
      (by decide) (fun c hc h => absurd ?_ (Nat.not_lt.2 hc)) c
    rcases h with h | h
    · rcases Bool.or_eq_true_iff.1 h with halpha | hdigit
      · exact lt_of_isAlpha halpha
      · exact lt_of_isDigit hdigit
    · simp only [List.mem_cons, List.not_mem_nil, or_false] at h
      rcases h with rfl | rfl | rfl <;> decide

/-- A directory with a backslash comes back with a slash in its place, so as another path. -/
theorem filePath_slashed {u : Url} {dirs : List (List Char)} {file : List Char}
    (hback : '\\' ∈ absolute dirs)
    (hroute : u.route = Route.ofParts (urlParts (keptPath
      (placed (Path.ofString (String.ofList (absolute dirs))) ++ '/' :: file)))) :
    filePath u ≠ .ok (Path.ofString (String.ofList (absolute (dirs ++ [file])))) := by
  intro h
  obtain ⟨t, hpath, hfile⟩ := filePath_eq hroute
  rw [hfile] at h
  split at h
  · cases h
  have hbound := (solid_filePath hpath (Except.ok.inj h).symm).1
  have hplaced : solid (utf8 (placed (Path.ofString (String.ofList (absolute dirs))))) ≤
      solid (utf8 ((absolute dirs).map slashed)) := by
    rw [placed, directoryText_ofString]
    exact solid_le_of_sublist
      ((List.dropWhile_sublist _).trans (List.rdropWhile_prefix _ _).sublist)
  have hlost := solid_map_slashed (absolute dirs)
  have hcount : 0 < (absolute dirs).count '\\' := List.count_pos_iff.2 hback
  have hwhole : absolute (dirs ++ [file]) = absolute dirs ++ '/' :: file := by
    cases dirs with
    | nil => simp at hback
    | cons first others =>
      rw [List.cons_append, absolute_cons, absolute_cons, ← List.cons_append, rooted_append]
      simp
  rw [Path.ofString, String.toList_ofList, hwhole, utf8_append, utf8_append, solid_append,
    solid_append] at hbound
  omega

theorem urlOf?_placeholder {s file : List Char} (hfile : '$' ∉ file) {word : String}
    (hword : word = "$CWD" ∨ word = "$PWD") (hnested : word = "$CWD" → ¬"$PWD".toList <:+: s)
    (default : Option String) :
    ∃ uri, urlOf? (Path.ofString (String.ofList s)) default
        ("sops-env:///" ++ word ++ "/" ++ String.ofList file) = some uri ∧
      uri.route = Route.ofParts (urlParts
        (keptPath (placed (Path.ofString (String.ofList s)) ++ '/' :: file))) := by
  have htarget : "sops-env:///" ++ word ++ "/" ++ String.ofList file =
      String.ofList ("sops-env:///".toList ++ word.toList ++ '/' :: file) := by
    rw [← String.toList_inj]
    simp
  obtain ⟨uri, hread, hroute⟩ := ofString?_path isSpelling_name
    (placed (Path.ofString (String.ofList s)) ++ '/' :: file)
  refine ⟨uri, ?_, hroute⟩
  rw [htarget]
  refine urlOf?_target ?_ (not_sameIgnoringCase_default (by simp)) ?_
  · simp [isBlankText, isBlank]
  · rw [withDirectory_placeholder hword hnested (by decide) hfile (by decide), List.append_assoc]
    exact hread

theorem not_isLiteral_of_backslash {dirs : List (List Char)} (file : List Char)
    (h : '\\' ∈ absolute dirs) : ¬IsLiteral (dirs ++ [file]) := by
  intro hliteral
  have hmem : '\\' ∈ rooted (dirs ++ [file]) := by
    rw [rooted_append]
    exact List.mem_append_left _
      (List.mem_of_mem_tail ((List.mem_cons.1 h).resolve_left (by decide)))
  obtain hslash | ⟨part, hpart, hmark⟩ := mem_rooted hmem
  · exact absurd hslash (by decide)
  · exact hliteral.marks part hpart _ hmark (by decide)

theorem placeholder_opens {dirs : List (List Char)} {file : List Char}
    (hcomponents : ∀ part ∈ dirs ++ [file], IsComponent part)
    (hplain : ∀ c ∈ file, c.isAlphanum ∨ c ∈ ['.', '-', '_']) {word : String}
    (hword : word = "$CWD" ∨ word = "$PWD")
    (hnested : word = "$CWD" → ¬"$PWD".toList <:+: absolute dirs)
    (keyword : String) (default : Option String) {front : List String}
    (hfront : dropKeyword keyword front = ["sops-env:///" ++ word ++ "/" ++ String.ofList file]) :
    ∃ uri, (∀ flags, parse keyword (Path.ofString (String.ofList (absolute dirs))) default
          (front ++ flags) = readArguments .flag { uri, tokens := flags } flags) ∧
      (filePath uri = .ok (Path.ofString (String.ofList (absolute (dirs ++ [file])))) ↔
        IsLiteral (dirs ++ [file])) := by
  obtain ⟨hdirs, hfile⟩ := List.forall_mem_append.1 hcomponents
  have hfile : IsPlain file := isPlain_of_isComponent (hfile file (by simp)) hplain
  have hdollar : '$' ∉ file := fun hmem => absurd (hfile.chars _ hmem) (by decide)
  obtain ⟨uri, hurl, hroute⟩ := urlOf?_placeholder hdollar hword hnested default
  refine ⟨uri, fun flags => parse_front hfront hurl flags, ?_⟩
  by_cases hback : '\\' ∈ absolute dirs
  · exact iff_of_false (filePath_slashed hback hroute) (not_isLiteral_of_backslash file hback)
  have hplaced : placed (Path.ofString (String.ofList (absolute dirs))) = (rooted dirs).tail := by
    rw [placed, directoryText_ofString, map_slashed hback, rdropWhile_rooted hdirs,
      dropWhile_rooted hdirs]
  rw [hplaced] at hroute
  cases dirs with
  | nil =>
    refine iff_of_true ?_ (isLiteral_of_isPlain (by simpa using hfile))
    exact filePath_doubled hfile hroute
  | cons first others =>
    have hbehind : (rooted (first :: others)).tail ++ '/' :: file =
        (rooted (first :: others ++ [file])).tail := by
      simp [rooted_append]
    rw [hbehind] at hroute
    simpa using filePath_absolute hcomponents hroute

/-- A vault opens the file that it is set up with exactly if the path is literal, whatever the
working directory and the flags are. A file of a plain name that a placeholder puts into the
working directory is opened exactly if the path of both is literal, as it always is in the root. -/
theorem opens_iff_isLiteral (v : SopsEnv) :
    (∀ parts : List (List Char), (∀ part ∈ parts, IsComponent part) → v.isDefault →
      v.file = some (String.ofList (absolute parts)) → ¬"$CWD".toList <:+: absolute parts →
      ¬"$PWD".toList <:+: absolute parts →
      ∀ (directory : Path) (front : List String) (target : String),
        dropKeyword v.keyword front = [target] → sameIgnoringCase target "default" →
          ∃ uri, (∀ flags, parse v.keyword directory v.defaultUri (front ++ flags) =
              readArguments .flag { uri, tokens := flags } flags) ∧
            (filePath uri = .ok (Path.ofString (String.ofList (absolute parts))) ↔
              parts ≠ [] ∧ IsLiteral parts)) ∧
    (∀ (dirs : List (List Char)) (file : List Char), (∀ part ∈ dirs ++ [file], IsComponent part) →
      (∀ c ∈ file, c.isAlphanum ∨ c ∈ ['.', '-', '_']) →
      ∀ word : String, word = "$CWD" ∨ word = "$PWD" →
        (word = "$CWD" → ¬"$PWD".toList <:+: absolute dirs) →
        ∀ front : List String,
          dropKeyword v.keyword front = ["sops-env:///" ++ word ++ "/" ++ String.ofList file] →
            ∃ uri, (∀ flags, parse v.keyword (Path.ofString (String.ofList (absolute dirs)))
                v.defaultUri (front ++ flags) =
                  readArguments .flag { uri, tokens := flags } flags) ∧
              (filePath uri = .ok (Path.ofString (String.ofList (absolute (dirs ++ [file])))) ↔
                IsLiteral (dirs ++ [file]))) := by
  refine ⟨fun parts hcomponents hdefault hfile hcwd hpwd directory front target hfront htarget => ?_,
    fun dirs file hcomponents hplain word hword hnested front hfront => ?_⟩
  · exact default_opens hcomponents hdefault hfile hcwd hpwd directory hfront htarget
  · exact placeholder_opens hcomponents hplain hword hnested v.keyword v.defaultUri hfront

/-- Blanks, quotation marks and brackets inside a path are literal, and so is a colon that is no
drive's. -/
theorem opens_iff_isLiteral_places :
    let v : SopsEnv := { isDefault := true, file := some "/srv/a \"b\"/1:x.env" }
    let parts := ["srv".toList, "a \"b\"".toList, "1:x.env".toList]
    let dirs := ["c:".toList, "[50%] x ".toList]
    (∃ uri, (∀ flags, parse v.keyword (Path.ofString "/#") v.defaultUri (["secret", "Default"] ++ flags) =
        readArguments .flag { uri, tokens := flags } flags) ∧
      filePath uri = .ok (Path.ofString (String.ofList (absolute parts)))) ∧
    ∃ uri, (∀ flags, parse v.keyword (Path.ofString (String.ofList (absolute dirs))) v.defaultUri
        (["sops-env:///$CWD/a.env"] ++ flags) =
          readArguments .flag { uri, tokens := flags } flags) ∧
      filePath uri = .ok (Path.ofString (String.ofList (absolute (dirs ++ ["a.env".toList])))) := by
  intro v parts dirs
  obtain ⟨hdefault, hplaceholder⟩ := opens_iff_isLiteral v
  constructor
  · obtain ⟨uri, hread, hopens⟩ := hdefault parts (by decide) rfl (by decide) (by decide) (by decide)
      (Path.ofString "/#") ["secret", "Default"] "Default" (by decide) (by decide)
    exact ⟨uri, hread, hopens.2 (by decide +kernel)⟩
  · obtain ⟨uri, hread, hopens⟩ := hplaceholder dirs "a.env".toList (by decide) (by simp) "$CWD"
      (Or.inl rfl) (fun _ => by decide) ["sops-env:///$CWD/a.env"] (by decide +kernel)
    exact ⟨uri, hread, hopens.2 (by decide +kernel)⟩

/-- The mark of a fragment cuts a path, and what looks like an escape is decoded. -/
theorem marked_file_not_opened :
    let opened (v : SopsEnv) (directory : String) (args : List String) : Option Path :=
      (parse v.keyword (Path.ofString directory) v.defaultUri args).toOption.bind fun e =>
        (filePath e.uri).toOption
    (∀ part ∈ ["vault", "a#b.env", "a%20b.env", "a%41"], IsComponent part.toList) ∧
      opened { isDefault := true, file := some "/vault/a#b.env" } "/" ["secret", "default"] =
        some (Path.ofString "/vault/a") ∧
      opened { isDefault := true, file := some "/vault/a%20b.env" } "/" ["secret", "default"] =
        some (Path.ofString "/vault/a b.env") ∧
      opened {} "/a%41" ["secret", "sops-env:///$CWD/x.env"] = some (Path.ofString "/aA/x.env") := by
  decide +kernel

end SopsEnv

end SecretDotenv.Secret
