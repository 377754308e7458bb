import SecretDotenv.Proofs.Text.Bytes
import SecretDotenv.Proofs.Text.Casing
import SecretDotenv.Proofs.Url.Front

/-! URLs of plain parts. A part is plain if it stands for itself wherever it stands: no
reader of hosts, paths or local files ends it, encodes it or leaves it out. -/
namespace SecretDotenv.Url

open SecretDotenv.Text SecretDotenv.Machine

/-- Printable ASCII that no reader of URLs treats in a way of its own. -/
def isPlainChar (c : Char) : Bool :=
  0x20 < c.toNat && c.toNat < 0x7F &&
    c ∉ ['"', '#', '$', '%', '/', ':', '<', '>', '?', '@', '[', '\\', ']', '^', '\x60', '\x7b', '|',
      '\x7d']

structure IsPlain (part : List Char) : Prop where
  ne_nil : part ≠ []
  ne_here : part ≠ ['.']
  ne_up : part ≠ ['.', '.']
  chars : ∀ c ∈ part, isPlainChar c

instance (part : List Char) : Decidable (IsPlain part) :=
  decidable_of_iff (part ≠ [] ∧ part ≠ ['.'] ∧ part ≠ ['.', '.'] ∧ part.all isPlainChar)
    ⟨fun ⟨hnil, hhere, hup, hchars⟩ => ⟨hnil, hhere, hup, List.all_eq_true.1 hchars⟩,
      fun h => ⟨h.ne_nil, h.ne_here, h.ne_up, List.all_eq_true.2 h.chars⟩⟩

theorem IsPlain.not_mem_lower {part : List Char} (h : IsPlain part) {mark : Char}
    (hlower : mark.isLower = false) (hmark : isPlainChar mark = false) :
    mark ∉ part.map Char.toLower := fun hmem => by
  simp [h.chars _ (mem_of_mem_lower hlower hmem)] at hmark

theorem IsPlain.lower_cons {part : List Char} (h : IsPlain part) :
    ∃ c rest, part.map Char.toLower = c :: rest ∧ c ≠ '/' := by
  cases hlower : part.map Char.toLower with
  | nil => exact absurd (List.map_eq_nil_iff.1 hlower) h.ne_nil
  | cons c rest =>
    refine ⟨c, rest, rfl, ?_⟩
    rintro rfl
    exact h.not_mem_lower rfl rfl (hlower ▸ List.mem_cons_self)

def rooted (parts : List (List Char)) : List Char :=
  parts.flatMap ('/' :: ·)

@[simp] theorem rooted_nil : rooted [] = [] := rfl

@[simp] theorem rooted_cons (part : List Char) (parts : List (List Char)) :
    rooted (part :: parts) = '/' :: (part ++ rooted parts) := rfl

section Char

variable {c : Char} (hc : isPlainChar c)
include hc

theorem toNat_of_isPlainChar : 0x20 < c.toNat ∧ c.toNat < 0x7F := by
  simp only [isPlainChar, Bool.and_eq_true, decide_eq_true_eq] at hc
  exact hc.1

theorem not_mem_of_isPlainChar {marks : List Char} (hmarks : marks.any isPlainChar = false) :
    c ∉ marks := fun hmem => by
  simp [List.any_eq_false.1 hmarks c hmem] at hc

theorem ne_of_isPlainChar {x : Char} (hx : isPlainChar x = false) : c ≠ x := by
  rintro rfl
  simp [hx] at hc

theorem controlSet_of_isPlainChar : controlSet c = false := by
  have hrange := toNat_of_isPlainChar hc
  simp [controlSet]
  omega

theorem pathSet_of_isPlainChar : pathSet c = false := by
  have hfragment : c ∉ [' ', '"', '<', '>', '\x60'] := not_mem_of_isPlainChar hc rfl
  have hpath : c ∉ ['#', '?', '\x7b', '\x7d'] := not_mem_of_isPlainChar hc rfl
  simp only [pathSet, fragmentSet, controlSet_of_isPlainChar hc, hfragment, hpath, decide_false,
    Bool.or_false]

theorem isSlash_of_isPlainChar (family : Family) : isSlash family c = false := by
  simp [isSlash, ne_of_isPlainChar hc (x := '/') rfl, ne_of_isPlainChar hc (x := '\\') rfl]

end Char

theorem percentEncode_eq {set : EncodeSet} {s : List Char} (h : ∀ c ∈ s, set c = false) :
    percentEncode set s = s := by
  induction s with
  | nil => rfl
  | cons c s ih =>
    obtain ⟨hc, hs⟩ := List.forall_mem_cons.1 h
    simp only [percentEncode, List.flatMap_cons, hc] at ih ⊢
    simp [ih hs]

theorem percentDecode_eq {s : List Char} (h : '%' ∉ s) : percentDecode s = utf8 s := by
  fun_induction percentDecode s with
  | case1 | case2 => simp at h
  | case3 c rest _ ih =>
    rw [ih (mt (List.mem_cons_of_mem _) h)]
    rfl
  | case4 => rfl

theorem splitOn_rooted (family : Family) {first : List Char} {others : List (List Char)}
    (hfirst : ∀ c ∈ first, isSlash family c = false)
    (hothers : ∀ part ∈ others, ∀ c ∈ part, isSlash family c = false) :
    splitOn (isSlash family) (first ++ rooted others) = first :: others := by
  induction others generalizing first with
  | nil => simp [splitOn_of_not hfirst]
  | cons part others ih =>
    obtain ⟨hpart, hothers⟩ := List.forall_mem_cons.1 hothers
    rw [rooted_cons, splitOn_append hfirst (by simp [isSlash]), ih hpart hothers]

theorem mem_rooted {c : Char} {parts : List (List Char)} (h : c ∈ rooted parts) :
    c = '/' ∨ ∃ part ∈ parts, c ∈ part := by
  obtain ⟨part, hpart, hc⟩ := List.mem_flatMap.1 h
  exact (List.mem_cons.1 hc).imp id fun hc => ⟨part, hpart, hc⟩

def IsPath (path : List Char) : Prop :=
  ∀ c ∈ path, c = '/' ∨ isPlainChar c

theorem isPath_rooted {parts : List (List Char)} (h : ∀ part ∈ parts, IsPlain part) :
    IsPath (rooted parts) := by
  intro c hc
  rcases mem_rooted hc with rfl | ⟨part, hpart, hc⟩
  · exact Or.inl rfl
  · exact Or.inr ((h part hpart).chars c hc)

namespace IsPath

variable {path : List Char} (h : IsPath path)
include h

theorem slash : IsPath ('/' :: path) :=
  List.forall_mem_cons.2 ⟨Or.inl rfl, h⟩

theorem not_mem {mark : Char} (hslash : mark ≠ '/') (hmark : isPlainChar mark = false) :
    mark ∉ path := by
  intro hmem
  rcases h mark hmem with rfl | hc
  · exact hslash rfl
  · simp [hmark] at hc

theorem graphic : ∀ c ∈ path, 0x20 < c.toNat := by
  intro c hc
  rcases h c hc with rfl | hc
  · decide
  · exact (toNat_of_isPlainChar hc).1

end IsPath

namespace Route

section Part

variable {part : List Char} (h : IsPlain part)
include h

theorem isHere_of_isPlain : isHere part = false := by
  have hpercent : '%' ∉ part.map Char.toLower := h.not_mem_lower rfl rfl
  have hdot : part.map Char.toLower ≠ ['.'] := fun hdot => by
    obtain ⟨c, rfl, hc⟩ := List.map_eq_singleton_iff.1 hdot
    exact h.ne_here (by rw [eq_of_toLower rfl hc])
  simp only [isHere, decide_eq_false_iff_not, List.mem_cons, List.not_mem_nil, or_false, not_or]
  exact ⟨hdot, fun heq => hpercent (heq ▸ by decide)⟩

theorem isUp_of_isPlain : isUp part = false := by
  have hpercent : '%' ∉ part.map Char.toLower := h.not_mem_lower rfl rfl
  have hdots : part.map Char.toLower ≠ ['.', '.'] := fun hdots => by
    obtain ⟨c, rest, rfl, hc, hrest⟩ := List.map_eq_cons_iff.1 hdots
    obtain ⟨d, rfl, hd⟩ := List.map_eq_singleton_iff.1 hrest
    exact h.ne_up (by rw [eq_of_toLower rfl hc, eq_of_toLower rfl hd])
  simp only [isUp, decide_eq_false_iff_not, List.mem_cons, List.not_mem_nil, or_false, not_or]
  exact ⟨hdots, fun heq => hpercent (heq ▸ by decide), fun heq => hpercent (heq ▸ by decide),
    fun heq => hpercent (heq ▸ by decide)⟩

theorem isDrive_of_isPlain : isDrive part = false := by
  unfold isDrive
  split
  · next letter mark =>
    have hmark := h.chars mark (by simp)
    simp [ne_of_isPlainChar hmark (x := ':') rfl, ne_of_isPlainChar hmark (x := '|') rfl]
  · rfl

theorem withDrive_of_isPlain : withDrive part = [part] := by
  have hdrive := isDrive_of_isPlain h
  unfold withDrive
  split
  · rw [hdrive]
    rfl
  · next letter rest _ => exact absurd (h.chars ':' (by simp)) (by decide)
  · rfl

theorem step_of_isPlain (isLocal : Bool) (parts : List (List Char)) :
    step isLocal parts part = parts ++ [part] := by
  simp [step, isUp_of_isPlain h, isHere_of_isPlain h, withDrive_of_isPlain h]

end Part

theorem walk_of_isPlain (isLocal : Bool) {rest : List (List Char)} (h : ∀ part ∈ rest, IsPlain part)
    (parts : List (List Char)) : walk isLocal parts rest = parts ++ rest := by
  fun_induction walk isLocal parts rest with
  | case1 => simp
  | case2 parts last hdots =>
    have hlast := h last List.mem_cons_self
    simp [isUp_of_isPlain hlast, isHere_of_isPlain hlast] at hdots
  | case3 parts last => rw [step_of_isPlain (h last List.mem_cons_self)]
  | case4 parts part rest _ ih =>
    obtain ⟨hpart, hrest⟩ := List.forall_mem_cons.1 h
    rw [ih hrest, step_of_isPlain hpart]
    simp

end Route

theorem pieces_rooted (family : Family) {part : List Char} {parts : List (List Char)}
    (h : ∀ p ∈ part :: parts, IsPlain p) :
    pieces family (dropSlash family (rooted (part :: parts))) = part :: parts := by
  obtain ⟨hpart, hparts⟩ := List.forall_mem_cons.1 h
  have hslash : ∀ p, IsPlain p → ∀ c ∈ p, isSlash family c = false := fun p hp c hc =>
    isSlash_of_isPlainChar (hp.chars c hc) family
  have hkept : ∀ c ∈ part ++ rooted parts, pathSet c = false := by
    intro c hc
    rcases isPath_rooted h c (List.mem_cons_of_mem _ hc) with rfl | hc
    · rfl
    · exact pathSet_of_isPlainChar hc
  have hdrop : dropSlash family (rooted (part :: parts)) = part ++ rooted parts := by
    simp [dropSlash, isSlash]
  rw [hdrop, pieces, percentEncode_eq hkept,
    splitOn_rooted family (hslash part hpart) fun p hp => hslash p (hparts p hp)]

theorem routeOf_rooted {parts : List (List Char)} (h : ∀ part ∈ parts, IsPlain part) :
    routeOf .other (rooted parts) = .segments (parts.map String.ofList) := by
  cases parts with
  | nil => rfl
  | cons part parts =>
    rw [routeOf, pieces_rooted .other h, Route.walk_of_isPlain false h]
    rfl

theorem cutUser_eq_none {s : List Char} (h : '@' ∉ s) : cutUser s = none := by
  rw [cutUser, cut_eq_none (by simpa using h), Option.map_none]

theorem cutHost_eq {inside : Bool} {s : List Char} (h : ∀ c ∈ s, isPlainChar c) :
    cutHost inside s = (s, []) := by
  induction s with
  | nil => rfl
  | cons c s ih =>
    obtain ⟨hc, hs⟩ := List.forall_mem_cons.1 h
    simp [cutHost, ne_of_isPlainChar hc (x := ':') rfl, ne_of_isPlainChar hc (x := '[') rfl,
      ne_of_isPlainChar hc (x := ']') rfl, ih hs]

theorem freeHost?_eq {s : List Char} (h : ∀ c ∈ s, isPlainChar c) :
    freeHost? s = some (.name (String.ofList s)) := by
  have hbracket : bracketed? s = none := by
    unfold bracketed?
    rw [if_neg]
    intro hhead
    exact absurd (h _ (List.mem_of_mem_head? (Option.mem_def.2 hhead))) (by decide)
  have hallowed : s.any (· ∈ forbiddenInHost) = false := by
    rw [List.any_eq_false]
    intro c hc
    simp only [decide_eq_true_eq]
    exact not_mem_of_isPlainChar (h c hc) rfl
  unfold freeHost?
  rw [hbracket]
  simp only [hallowed, Bool.false_eq_true, if_false]
  rw [percentEncode_eq fun c hc => controlSet_of_isPlainChar (h c hc)]

theorem takeWhile_rooted (parts : List (List Char)) :
    (rooted parts).takeWhile (!isSlash .other ·) = [] ∧
      (rooted parts).dropWhile (!isSlash .other ·) = rooted parts := by
  cases parts <;> simp [isSlash]

theorem authority?_host (scheme : String) (ends : Bool) {host : List Char}
    (parts : List (List Char)) (hhost : IsPlain host) :
    authority? scheme .other ends (host ++ rooted parts) =
      some ({ host := some (.name (String.ofList host)) }, rooted parts) := by
  have hname : ∀ c ∈ host, (!isSlash .other c) = true := fun c hc => by
    simp [isSlash_of_isPlainChar (hhost.chars c hc)]
  have huser : cutUser host = none :=
    cutUser_eq_none fun hmem => absurd (hhost.chars _ hmem) (by decide)
  obtain ⟨htake, hdrop⟩ := takeWhile_rooted parts
  rw [authority?_eq, List.takeWhile_append_of_pos hname, List.dropWhile_append_of_pos hname, htake,
    hdrop, List.append_nil]
  simp [huser, placeBehind, cutHost_eq hhost.chars, port?, hhost.ne_nil, freeHost?_eq hhost.chars]

theorem authority?_rooted (scheme : String) (ends : Bool) (parts : List (List Char)) :
    authority? scheme .other ends (rooted parts) = some ({}, rooted parts) := by
  obtain ⟨htake, hdrop⟩ := takeWhile_rooted parts
  rw [authority?_eq, htake, hdrop]
  simp [cutUser_eq_none (s := []) (by simp), placeBehind, cutHost, port?]

def IsBehind (behind : List Char) : Prop :=
  ∀ c ∈ behind.head?, c = '?' ∨ c = '#'

/-- A function on texts that leaves the characters of a class alone leaves a path of such
characters alone, and its end as well. -/
theorem behind_kept {f : List Char → List Char} (kept : Char → Prop) (hquery : kept '?')
    (hfragment : kept '#')
    (hf : ∀ front s, (∀ c ∈ front, kept c) → ∃ rest, f (front ++ s) = front ++ rest)
    (hself : ∀ s, (∀ c ∈ s, kept c) → f s = s) {s behind : List Char} (hs : ∀ c ∈ s, kept c)
    (hbehind : IsBehind behind) : ∃ left, IsBehind left ∧ f (s ++ behind) = s ++ left := by
  cases behind with
  | nil => exact ⟨[], by simp [IsBehind], by simpa using hself s hs⟩
  | cons c behind =>
    have hmark : c = '?' ∨ c = '#' := hbehind c rfl
    have hc : kept c := by rcases hmark with rfl | rfl <;> assumption
    have hfront : ∀ x ∈ s ++ [c], kept x := by
      simpa [or_imp, forall_and] using And.intro hs hc
    obtain ⟨rest, hrest⟩ := hf (s ++ [c]) behind hfront
    refine ⟨c :: rest, fun x hx => ?_, by simpa using hrest⟩
    rw [← Option.mem_some.1 hx]
    exact hmark

theorem length_cleaned_le (s : List Char) : (cleaned s).length ≤ s.length := by
  unfold cleaned
  dsimp only
  refine (List.length_filter_le _ _).trans ?_
  rw [List.length_reverse]
  refine (List.dropWhile_sublist _).length_le.trans ?_
  rw [List.length_reverse]
  exact (List.dropWhile_sublist _).length_le

theorem cleaned_eq {s : List Char} (h : ∀ c ∈ s, 0x20 < c.toNat) : cleaned s = s := by
  cases s with
  | nil => rfl
  | cons c s =>
    obtain ⟨rest, hrest⟩ := cleaned_append (c :: s) [] (List.cons_ne_nil _ _) h
    have hlength := length_cleaned_le ((c :: s) ++ [])
    rw [hrest, List.length_append, List.length_append, List.length_nil] at hlength
    obtain rfl : rest = [] := List.eq_nil_of_length_eq_zero (by omega)
    simpa using hrest

theorem cleaned_behind {s behind : List Char} (hs : ∀ c ∈ s, 0x20 < c.toNat)
    (hbehind : IsBehind behind) : ∃ left, IsBehind left ∧ cleaned (s ++ behind) = s ++ left := by
  refine behind_kept (0x20 < ·.toNat) (by decide) (by decide) (fun front s hfront => ?_)
    (fun s => cleaned_eq) hs hbehind
  cases front with
  | nil => exact ⟨cleaned s, rfl⟩
  | cons c front => exact cleaned_append (c :: front) s (List.cons_ne_nil _ _) hfront

theorem cutOff_append {mark : Char} {s : List Char} (h : mark ∉ s) (rest : List Char) :
    cutOff mark (s ++ rest) = (s ++ (cutOff mark rest).1, (cutOff mark rest).2) := by
  unfold cutOff
  rw [cut_append_of_not_mem h]
  cases cut mark rest <;> rfl

theorem cutOff_path {s behind : List Char} (hquery : '?' ∉ s) (hfragment : '#' ∉ s)
    (hbehind : IsBehind behind) :
    ∃ query, cutOff '?' (cutOff '#' (s ++ behind)).1 = (s, query) := by
  rw [cutOff_append hfragment, cutOff_append hquery]
  refine ⟨_, Prod.ext ?_ rfl⟩
  suffices hnil : (cutOff '?' (cutOff '#' behind).1).1 = [] by simp [hnil]
  cases behind with
  | nil => rfl
  | cons c behind =>
    rcases hbehind c rfl with rfl | rfl
    · rw [← List.singleton_append, cutOff_append (by decide)]
      rfl
    · rfl

def isSchemePart (c : Char) : Bool :=
  c.isAlphanum || c = '+' || c = '-' || c = '.'

theorem isSchemePart_of_toLower {c : Char} (h : isSchemePart c.toLower) : isSchemePart c := by
  cases hlower : c.toLower.isLower with
  | true =>
    rw [Char.isLower_toLower_eq_isAlpha] at hlower
    simp [isSchemePart, Char.isAlphanum, hlower]
  | false => rwa [← eq_of_toLower hlower rfl] at h

theorem toNat_of_isSchemePart {c : Char} (h : isSchemePart c) : 0x20 < c.toNat := by
  simp only [isSchemePart, Bool.or_eq_true, decide_eq_true_eq] at h
  rcases h with ((h | rfl) | rfl) | rfl
  · simp only [Char.isAlphanum, Char.isAlpha, Char.isUpper, Char.isLower, Char.isDigit,
      Bool.or_eq_true, Bool.and_eq_true, decide_eq_true_eq, UInt32.le_iff_toNat_le, ge_iff_le] at h
    simp at h
    omega
  all_goals decide

structure IsSpelling (scheme : List Char) (known : String) : Prop where
  lower : scheme.map Char.toLower = known.toList
  head : (known.toList.head?.map Char.isAlpha).getD false
  parts : known.toList.all isSchemePart
  family : familyOf known = .other

namespace IsSpelling

variable {scheme : List Char} {known : String} (h : IsSpelling scheme known)
include h

theorem isSchemePart : ∀ c ∈ scheme, isSchemePart c := by
  intro c hc
  apply isSchemePart_of_toLower
  refine List.all_eq_true.1 h.parts _ ?_
  rw [← h.lower]
  exact List.mem_map_of_mem hc

theorem not_mem {mark : Char} (hmark : Url.isSchemePart mark = false) : mark ∉ scheme := fun hmem => by
  simp [h.isSchemePart mark hmem] at hmark

theorem scheme?_eq (rest : List Char) : scheme? (scheme ++ ':' :: rest) = some (known, rest) := by
  have hcut : cut ':' (scheme ++ ':' :: rest) = some (scheme, rest) := by
    rw [cut_append_of_not_mem (h.not_mem rfl)]
    simp [cut]
  have hhead : (scheme.head?.map Char.isAlpha).getD false := by
    have hhead := h.head
    rw [← h.lower, List.head?_map, Option.map_map] at hhead
    cases hfirst : scheme.head? with
    | none => simp [hfirst] at hhead
    | some c => simpa [hfirst] using hhead
  have hall : scheme.all fun c => c.isAlphanum || c = '+' || c = '-' || c = '.' :=
    List.all_eq_true.2 h.isSchemePart
  unfold scheme?
  simp only [hcut, Option.bind_eq_bind, Option.bind_some, hhead, hall, Bool.and_self, if_true,
    h.lower, String.ofList_toList, Option.pure_def]

theorem graphic : ∀ c ∈ scheme, 0x20 < c.toNat :=
  fun c hc => toNat_of_isSchemePart (h.isSchemePart c hc)

end IsSpelling

theorem ofString?_spelled {scheme path behind : List Char} {known : String}
    {authority : Option Authority} {route : Route} (hscheme : IsSpelling scheme known)
    (hpath : IsPath path) (hbehind : IsBehind behind)
    (hmiddle : ∀ ends, middle? known ends path = some (authority, route)) :
    ∃ u, ofString? (String.ofList (scheme ++ ':' :: (path ++ behind))) = some u ∧
      u.authority = authority ∧ u.route = route := by
  have hgraphic : ∀ c ∈ scheme ++ ':' :: path, 0x20 < c.toNat := by
    simp only [List.forall_mem_append, List.forall_mem_cons]
    exact ⟨hscheme.graphic, by decide, hpath.graphic⟩
  obtain ⟨left, hleft, hcleaned⟩ := cleaned_behind hgraphic hbehind
  obtain ⟨query, hquery⟩ := cutOff_path (hpath.not_mem (by decide) rfl)
    (hpath.not_mem (by decide) rfl) hleft
  rw [List.append_assoc, List.append_assoc, List.cons_append, List.cons_append] at hcleaned
  unfold ofString?
  rw [String.toList_ofList, hcleaned, hscheme.scheme?_eq]
  simp only [Option.bind_eq_bind, Option.bind_some, hquery, hmiddle, Option.pure_def]
  exact ⟨_, rfl, rfl, rfl⟩

section Middle

variable {scheme : String} (hfamily : familyOf scheme = .other) (ends : Bool) {part : List Char}
  {parts : List (List Char)}
include hfamily

theorem middle?_host (hpart : IsPlain part) (hparts : ∀ p ∈ parts, IsPlain p) :
    middle? scheme ends ('/' :: rooted (part :: parts)) =
      some (some { host := some (.name (String.ofList part)) },
        .segments (parts.map String.ofList)) := by
  simp only [middle?, hfamily, rooted_cons, authority?_host scheme ends parts hpart,
    Option.bind_eq_bind, Option.bind_some, Option.pure_def, routeOf_rooted hparts]

theorem middle?_path (hparts : ∀ p ∈ part :: parts, IsPlain p) :
    middle? scheme ends ('/' :: '/' :: rooted (part :: parts)) =
      some (some {}, .segments ((part :: parts).map String.ofList)) := by
  simp only [middle?, hfamily, authority?_rooted, Option.bind_eq_bind, Option.bind_some,
    Option.pure_def, routeOf_rooted hparts]

end Middle

theorem localFile?_rooted {part : List Char} {parts : List (List Char)}
    (h : ∀ p ∈ part :: parts, IsPlain p) :
    localFile? ('/' :: '/' :: rooted (part :: parts)) =
      some ({}, .segments ((part :: parts).map String.ofList)) := by
  have hempty : part ≠ [] := (h part List.mem_cons_self).ne_nil
  have hwalk : Route.withoutEmptyStart (Route.walk true [] (part :: parts)) = part :: parts := by
    rw [Route.walk_of_isPlain true h]
    simp [Route.withoutEmptyStart, hempty]
  have hslash : isSlash .file '/' = true := rfl
  have htake : (rooted (part :: parts)).takeWhile (!isSlash .file ·) = [] := by
    simp [hslash]
  have hdrop : (rooted (part :: parts)).dropWhile (!isSlash .file ·) = rooted (part :: parts) := by
    simp [hslash]
  have hdrive : Route.isDrive [] = false := rfl
  simp only [localFile?, hslash, Bool.and_self, if_true, htake, hdrop, hdrive, Bool.false_eq_true,
    List.isEmpty_nil, Option.bind_eq_bind, Option.bind_some, Option.pure_def,
    pieces_rooted .file h, hwalk, ite_self]
  rfl

theorem utf8_rooted (parts : List (List Char)) :
    utf8 (rooted parts) = parts.flatMap fun part => Path.slash :: utf8 part := by
  induction parts with
  | nil => rfl
  | cons part parts ih =>
    rw [rooted_cons, List.flatMap_cons, ← ih, ← List.singleton_append, utf8_append, utf8_append]
    rfl

theorem filePath?_rooted {u : Url} {parts : List (List Char)} (h : ∀ part ∈ parts, IsPlain part)
    (hhost : u.host? = none) (hroute : u.route = .segments (parts.map String.ofList)) :
    u.filePath? = some (Path.ofString (String.ofList (rooted parts))) := by
  have hbytes : ((parts.map String.ofList).flatMap fun part =>
      Path.slash :: percentDecode part.toList) = utf8 (rooted parts) := by
    rw [utf8_rooted, List.flatMap_map]
    refine List.flatMap_congr fun part hpart => ?_
    have hpercent : '%' ∉ part := fun hmem => absurd ((h part hpart).chars _ hmem) (by decide)
    rw [String.toList_ofList, percentDecode_eq hpercent]
  have hdrive : ∀ mark : Char, mark ≠ '/' → isPlainChar mark = false → mark.toNat < 128 →
      UInt8.ofNat mark.toNat ∉ utf8 (rooted parts) := fun mark hslash hmark hascii hmem =>
    (isPath_rooted h).not_mem hslash hmark ((mem_utf8_ofNat hascii).1 hmem)
  unfold filePath?
  simp only [hroute, hhost, hbytes, Option.bind_eq_bind, Option.bind_some, Option.isSome_none,
    Bool.false_and, Bool.false_eq_true, if_false]
  split
  · next mark letter x y heq =>
    have hmem : mark ∈ utf8 (rooted parts) := by
      rw [← List.mem_reverse, heq]
      exact List.mem_cons_self
    have hcolon : mark ≠ 0x3A := by
      rintro rfl
      exact hdrive ':' (by decide) rfl (by decide) hmem
    have hbar : mark ≠ 0x7C := by
      rintro rfl
      exact hdrive '|' (by decide) rfl (by decide) hmem
    simp [hcolon, hbar, Path.ofString]
  · simp [Path.ofString]

theorem filePath?_file {part : List Char} {parts : List (List Char)}
    (h : ∀ p ∈ part :: parts, IsPlain p) :
    (ofString? ("file://" ++ String.ofList (rooted (part :: parts)))).bind filePath? =
      some (Path.ofString (String.ofList (rooted (part :: parts)))) := by
  have hpath : IsPath ('/' :: '/' :: rooted (part :: parts)) := (isPath_rooted h).slash.slash
  have htext : ("file://" ++ String.ofList (rooted (part :: parts))).toList =
      "file:".toList ++ '/' :: '/' :: rooted (part :: parts) := by
    simp
  have hgraphic : ∀ c ∈ "file:".toList ++ '/' :: '/' :: rooted (part :: parts), 0x20 < c.toNat :=
    List.forall_mem_append.2 ⟨by simp, hpath.graphic⟩
  have hwhole : ∀ {mark : Char}, mark ≠ '/' → isPlainChar mark = false →
      cutOff mark ('/' :: '/' :: rooted (part :: parts)) =
        ('/' :: '/' :: rooted (part :: parts), none) := by
    intro mark hslash hmark
    rw [cutOff, cut_eq_none (hpath.not_mem hslash hmark)]
  have hparsed : ofString? ("file://" ++ String.ofList (rooted (part :: parts))) =
      some { scheme := "file", authority := some {},
             route := .segments ((part :: parts).map String.ofList) } := by
    unfold ofString?
    rw [htext, cleaned_eq hgraphic, scheme?_file]
    simp only [Option.bind_eq_bind, Option.bind_some, hwhole (show '#' ≠ '/' by decide) rfl,
      hwhole (show '?' ≠ '/' by decide) rfl, middle?, familyOf, if_true, localFile?_rooted h,
      Option.pure_def]
    rfl
  rw [hparsed, Option.bind_some]
  exact filePath?_rooted h rfl rfl

end SecretDotenv.Url
