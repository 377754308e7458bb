import Mathlib.Data.List.DropRight
import SecretDotenv.Proofs.Url.Escapes

/-! The bytes of a path on the way from the text of a URL to the file that it names. None is ever
won: they get lost at the end of the text, at the marks of a query or a fragment, in escapes, at
backslashes and where dots go up. -/
namespace SecretDotenv.Url

open SecretDotenv.Text SecretDotenv.Machine

/-- A text that comes of another without some characters, no slash the first of them. -/
def Sheds (t s : List Char) : Prop :=
  t = s ∨ solid (utf8 t) < solid (utf8 s)

theorem Sheds.trans {a b c : List Char} (hab : Sheds a b) (hbc : Sheds b c) : Sheds a c := by
  rcases hab with rfl | hab
  · exact hbc
  · rcases hbc with rfl | hbc
    · exact Or.inr hab
    · exact Or.inr (Nat.lt_trans hab hbc)

theorem Sheds.le {t s : List Char} (h : Sheds t s) : solid (utf8 t) ≤ solid (utf8 s) := by
  rcases h with rfl | h
  · exact Nat.le_refl _
  · exact Nat.le_of_lt h

theorem sheds_append (t : List Char) {u : List Char} (h : ∀ c ∈ u.head?, c ≠ '/') :
    Sheds t (t ++ u) := by
  cases u with
  | nil => exact Or.inl (List.append_nil t).symm
  | cons c u =>
    have hc := solid_utf8EncodeChar_pos (h c rfl)
    right
    rw [utf8_append, solid_append, solid_utf8_cons]
    omega

theorem sheds_takeWhile {mark : Char} (hmark : mark ≠ '/') (s : List Char) :
    Sheds (s.takeWhile (· != mark)) s := by
  have hhead : ∀ c ∈ (s.dropWhile (· != mark)).head?, c ≠ '/' := by
    intro c hc
    have hstop := List.head?_dropWhile_not (· != mark) s
    rw [Option.mem_def.1 hc] at hstop
    rw [show c = mark by simpa using hstop]
    exact hmark
  have hsheds := sheds_append (s.takeWhile (· != mark)) hhead
  rwa [List.takeWhile_append_dropWhile] at hsheds

theorem sheds_rdropWhile {p : Char → Bool} (hslash : p '/' = false) (s : List Char) :
    Sheds (s.rdropWhile p) s := by
  have hhead : ∀ c ∈ (s.rtakeWhile p).head?, c ≠ '/' := by
    rintro c hc rfl
    have hall := List.rtakeWhile_eq_self_iff.1 (List.rtakeWhile_idempotent p s) _
      (List.mem_of_mem_head? hc)
    simp [hslash] at hall
  have hsheds := sheds_append (s.rdropWhile p) hhead
  rwa [List.rdropWhile_append_rtakeWhile] at hsheds

theorem sheds_filter {p : Char → Bool} (hslash : p '/' = true) (s : List Char) :
    Sheds (s.filter p) s := by
  induction s with
  | nil => exact Or.inl rfl
  | cons c s ih =>
    cases hc : p c with
    | true =>
      rw [List.filter_cons_of_pos hc]
      refine ih.imp (congrArg (c :: ·)) fun hlt => ?_
      rw [solid_utf8_cons, solid_utf8_cons]
      omega
    | false =>
      have hpos := solid_utf8EncodeChar_pos (c := c) (by rintro rfl; simp [hslash] at hc)
      have hle := ih.le
      rw [List.filter_cons_of_neg (by simp [hc])]
      right
      rw [solid_utf8_cons]
      omega

def cleanedEnd (s : List Char) : List Char :=
  (s.rdropWhile (·.toNat ≤ 0x20)).filter (· ∉ ['\t', '\n', '\r'])

theorem cleaned_append_eq {front : List Char} (hne : front ≠ []) (h : ∀ c ∈ front, 0x20 < c.toNat)
    (s : List Char) : cleaned (front ++ s) = front ++ cleanedEnd s := by
  have hkept : ∀ c ∈ front, decide (c.toNat ≤ 0x20) = false := fun c hc => by simpa using h c hc
  have hstart : (front ++ s).dropWhile (fun c => decide (c.toNat ≤ 0x20)) = front ++ s := by
    obtain ⟨c, front, rfl⟩ := List.exists_cons_of_ne_nil hne
    rw [List.cons_append, List.dropWhile_cons_of_neg (by simp [hkept c List.mem_cons_self])]
  have hend : (front ++ s).rdropWhile (fun c => decide (c.toNat ≤ 0x20)) =
      front ++ s.rdropWhile (fun c => decide (c.toNat ≤ 0x20)) := by
    have hfront : front.reverse.dropWhile (fun c => decide (c.toNat ≤ 0x20)) = front.reverse := by
      obtain ⟨c, rest, hreverse⟩ := List.exists_cons_of_ne_nil (List.reverse_ne_nil_iff.2 hne)
      have hc := hkept c (List.mem_reverse.1 (hreverse ▸ List.mem_cons_self))
      rw [hreverse, List.dropWhile_cons_of_neg (by simp [hc])]
    unfold List.rdropWhile
    rw [List.reverse_append, List.dropWhile_append]
    split
    · next hnone => simp [hfront, List.isEmpty_iff.1 hnone]
    · simp
  have hfilter : front.filter (fun c => decide (c ∉ ['\t', '\n', '\r'])) = front := by
    refine List.filter_eq_self.2 fun c hc => decide_eq_true fun hmem => ?_
    have hgraphic := h c hc
    simp only [List.mem_cons, List.not_mem_nil, or_false] at hmem
    rcases hmem with rfl | rfl | rfl <;> simp at hgraphic
  calc cleaned (front ++ s)
      = (((front ++ s).dropWhile (fun c => decide (c.toNat ≤ 0x20))).rdropWhile
          (fun c => decide (c.toNat ≤ 0x20))).filter (fun c => decide (c ∉ ['\t', '\n', '\r'])) := rfl
    _ = front ++ cleanedEnd s := by rw [hstart, hend, List.filter_append, hfilter, cleanedEnd]

/-- What is left of a text for the path of a URL: no control characters and blanks at its end, no
line breaks and tabs, and nothing from a query or a fragment on. -/
def keptPath (s : List Char) : List Char :=
  ((cleanedEnd s).takeWhile (· != '#')).takeWhile (· != '?')

theorem sheds_keptPath (s : List Char) : Sheds (keptPath s) s :=
  (sheds_takeWhile (by decide) _).trans <| (sheds_takeWhile (by decide) _).trans <|
    (sheds_filter (by decide) _).trans (sheds_rdropWhile (by decide) s)

theorem cleanedEnd_sublist (s : List Char) : (cleanedEnd s).Sublist s :=
  List.filter_sublist.trans (List.rdropWhile_prefix _ s).sublist

theorem cleanedEnd_eq_self_iff {s : List Char} : cleanedEnd s = s ↔
    (∀ c ∈ s, c ∉ ['\t', '\n', '\r']) ∧ ∀ c ∈ s.getLast?, 0x20 < c.toNat := by
  constructor
  · intro h
    have hwhole : s.Sublist (s.rdropWhile (·.toNat ≤ 0x20)) := by
      have hfiltered : (cleanedEnd s).Sublist (s.rdropWhile (·.toNat ≤ 0x20)) := List.filter_sublist
      rwa [h] at hfiltered
    have hend := (List.rdropWhile_prefix _ s).sublist.antisymm hwhole
    rw [cleanedEnd, hend] at h
    refine ⟨fun c hc => of_decide_eq_true (List.filter_eq_self.1 h c hc), fun c hc => ?_⟩
    have hne : s ≠ [] := by
      rintro rfl
      simp at hc
    have hlast := List.rdropWhile_eq_self_iff.1 hend hne
    obtain ⟨_, rfl⟩ := List.mem_getLast?_eq_getLast hc
    simpa using hlast
  · rintro ⟨hmarks, hlast⟩
    have hend : s.rdropWhile (·.toNat ≤ 0x20) = s := by
      refine List.rdropWhile_eq_self_iff.2 fun hne => ?_
      simpa using hlast _ (List.getLast?_eq_some_getLast hne)
    rw [cleanedEnd, hend]
    exact List.filter_eq_self.2 fun c hc => decide_eq_true (hmarks c hc)

theorem keptPath_eq_self_iff {s : List Char} : keptPath s = s ↔
    (∀ c ∈ s, c ∉ ['#', '?', '\t', '\n', '\r']) ∧ ∀ c ∈ s.getLast?, 0x20 < c.toNat := by
  constructor
  · intro h
    -- each step keeps the whole text, for none brings a character back
    have hquery : s.Sublist ((cleanedEnd s).takeWhile (· != '#')) := by
      have hkept : (keptPath s).Sublist ((cleanedEnd s).takeWhile (· != '#')) :=
        (List.takeWhile_prefix _).sublist
      rwa [h] at hkept
    have hclean : cleanedEnd s = s :=
      (cleanedEnd_sublist s).antisymm (hquery.trans (List.takeWhile_prefix _).sublist)
    rw [hclean] at hquery
    have hbehind := (List.takeWhile_prefix (l := s) (· != '#')).sublist.antisymm hquery
    rw [keptPath, hclean, hbehind] at h
    obtain ⟨hbreaks, hlast⟩ := cleanedEnd_eq_self_iff.1 hclean
    refine ⟨fun c hc => ?_, hlast⟩
    have hfragment : c ≠ '#' := by simpa using List.takeWhile_eq_self_iff.1 hbehind c hc
    have hquery : c ≠ '?' := by simpa using List.takeWhile_eq_self_iff.1 h c hc
    rw [List.mem_cons, List.mem_cons, not_or, not_or]
    exact ⟨hfragment, hquery, hbreaks c hc⟩
  · rintro ⟨hmarks, hlast⟩
    have hone : ∀ c ∈ s, c ≠ '#' ∧ c ≠ '?' ∧ c ∉ ['\t', '\n', '\r'] := fun c hc => by
      simpa only [List.mem_cons (a := c), not_or] using hmarks c hc
    have hclean := cleanedEnd_eq_self_iff.2 ⟨fun c hc => (hone c hc).2.2, hlast⟩
    have hfragment : s.takeWhile (· != '#') = s :=
      List.takeWhile_eq_self_iff.2 fun c hc => bne_iff_ne.2 (hone c hc).1
    have hquery : s.takeWhile (· != '?') = s :=
      List.takeWhile_eq_self_iff.2 fun c hc => bne_iff_ne.2 (hone c hc).2.1
    rw [keptPath, hclean, hfragment, hquery]

theorem rooted_append (a b : List (List Char)) : rooted (a ++ b) = rooted a ++ rooted b :=
  List.flatMap_append

theorem percentDecode_slash (s : List Char) :
    percentDecode ('/' :: s) = Path.slash :: percentDecode s := by
  rw [percentDecode_cons (by decide)]
  rfl

theorem solid_percentDecode_slash (s : List Char) :
    solid (percentDecode ('/' :: s)) = solid (percentDecode s) := by
  rw [percentDecode_slash, solid_cons, if_pos rfl, Nat.add_zero]

theorem percentDecode_rooted (parts : List (List Char)) :
    percentDecode (rooted parts) = parts.flatMap fun part => Path.slash :: percentDecode part := by
  induction parts with
  | nil => rfl
  | cons part parts ih =>
    rw [rooted_cons, percentDecode_slash, List.flatMap_cons, ← ih]
    cases parts with
    | nil => simp [percentDecode]
    | cons next parts =>
      rw [rooted_cons, percentDecode_append_cons (by decide) (by decide), percentDecode_slash,
        List.append_assoc]
      rfl

theorem percentDecode_rooted_append (a b : List (List Char)) :
    percentDecode (rooted (a ++ b)) = percentDecode (rooted a) ++ percentDecode (rooted b) := by
  simp only [percentDecode_rooted, List.flatMap_append]

/-- How many bytes other than slashes the parts of a way stand for. -/
def weight (parts : List (List Char)) : Nat :=
  solid (percentDecode (rooted parts))

@[simp] theorem weight_nil : weight [] = 0 := rfl

theorem weight_append (a b : List (List Char)) : weight (a ++ b) = weight a + weight b := by
  simp only [weight, percentDecode_rooted_append, solid_append]

theorem weight_singleton (part : List Char) : weight [part] = solid (percentDecode part) := by
  rw [weight, percentDecode_rooted, List.flatMap_singleton, solid_cons, if_pos rfl, Nat.add_zero]

namespace Route

theorem withDrive_cases (part : List Char) :
    (∃ letter, letter.isAlpha ∧ part = [letter, '|'] ∧ withDrive part = [[letter, ':']]) ∨
      (∃ letter rest, letter.isAlpha ∧ rest ≠ [] ∧ part = letter :: ':' :: rest ∧
        withDrive part = [[letter, ':'], rest]) ∨
      withDrive part = [part] := by
  unfold withDrive
  split
  · next letter mark =>
    cases hdrive : isDrive [letter, mark] with
    | false => simp
    | true =>
      simp only [isDrive, Bool.and_eq_true, Bool.or_eq_true, decide_eq_true_eq] at hdrive
      obtain ⟨halpha, rfl | rfl⟩ := hdrive
      · simp
      · exact Or.inl ⟨letter, halpha, rfl, rfl⟩
  · next letter rest hlong =>
    cases halpha : letter.isAlpha with
    | false => simp
    | true =>
      refine Or.inr (Or.inl ⟨letter, rest, halpha, ?_, rfl, rfl⟩)
      rintro rfl
      exact hlong rfl
  · exact Or.inr (Or.inr rfl)

theorem weight_withDrive (part : List Char) : weight (withDrive part) = weight [part] := by
  have hmark : ∀ (letter mark : Char) (rest : List Char), mark = ':' ∨ mark = '|' →
      solid (percentDecode (letter :: mark :: rest)) =
        solid (percentDecode [letter]) + 1 + solid (percentDecode rest) := by
    intro letter mark rest hmark
    have happend := percentDecode_append_cons (c := mark) (by rcases hmark with rfl | rfl <;> decide)
      (by rcases hmark with rfl | rfl <;> decide) [letter] rest
    have hone : solid (String.utf8EncodeChar mark) = 1 := by rcases hmark with rfl | rfl <;> decide
    rw [← List.singleton_append, happend, solid_append, solid_append, hone]
  obtain ⟨letter, -, rfl, hdrive⟩ | ⟨letter, rest, -, -, rfl, hdrive⟩ | hdrive := withDrive_cases part
  · rw [hdrive, weight_singleton, weight_singleton, hmark _ _ _ (by simp), hmark _ _ _ (by simp)]
  · rw [hdrive, ← List.singleton_append, weight_append, weight_singleton, weight_singleton,
      weight_singleton, hmark _ _ _ (by simp), hmark _ _ _ (by simp)]
    rfl
  · rw [hdrive]

theorem weight_up_le (parts : List (List Char)) : weight (up parts) ≤ weight parts := by
  unfold up
  split
  · next last hlast =>
    split
    · exact Nat.le_refl _
    · have hsplit := List.dropLast_append_getLast? last hlast
      calc weight parts.dropLast ≤ weight parts.dropLast + weight [last] := Nat.le_add_right _ _
        _ = weight parts := by rw [← weight_append, hsplit]
  · exact Nat.zero_le _

theorem weight_step_le (isLocal : Bool) (parts : List (List Char)) (part : List Char) :
    weight (step isLocal parts part) ≤ weight parts + weight [part] := by
  have hup := weight_up_le parts
  unfold step
  split
  · omega
  · split
    · omega
    · split
      · rw [weight_append, weight_withDrive]
      · rw [weight_append]

theorem weight_walk_le (isLocal : Bool) (parts rest : List (List Char)) :
    weight (walk isLocal parts rest) ≤ weight parts + weight rest := by
  fun_induction walk isLocal parts rest with
  | case1 => simp
  | case2 parts last =>
    rw [weight_append]
    exact weight_step_le isLocal parts last
  | case3 parts last => exact weight_step_le isLocal parts last
  | case4 parts part rest _ ih =>
    have hstep := weight_step_le isLocal parts part
    rw [← List.singleton_append (l := rest), weight_append]
    omega

theorem weight_withoutEmptyStart_le (parts : List (List Char)) :
    weight (withoutEmptyStart parts) ≤ weight parts := by
  have hsplit := List.takeWhile_append_dropWhile (p := List.isEmpty) (l := parts)
  unfold withoutEmptyStart
  split
  · exact Nat.zero_le _
  · next hrest =>
    calc weight (parts.dropWhile List.isEmpty)
        ≤ weight (parts.takeWhile List.isEmpty) + weight (parts.dropWhile List.isEmpty) :=
          Nat.le_add_left _ _
      _ = weight parts := by rw [← weight_append, hsplit]

end Route

/-- Slashes as a family of schemes sees them, all written forward. -/
def forward (family : Family) (c : Char) : Char :=
  if isSlash family c then '/' else c

theorem rooted_splitOn (family : Family) (s : List Char) :
    rooted (splitOn (isSlash family) s) = '/' :: s.map (forward family) := by
  fun_induction splitOn (isSlash family) s with
  | case1 => rfl
  | case2 c rest hslash ih => simp [ih, forward, hslash]
  | case3 c rest hplain hnone _ =>
    have hne : splitOn (isSlash family) rest ≠ [] := by
      fun_cases splitOn (isSlash family) rest <;> simp_all
    contradiction
  | case4 c rest hplain first more hsplit ih =>
    rw [hsplit, rooted_cons] at ih
    simp [forward, hplain, (List.cons.inj ih).2]

theorem map_forward_other (s : List Char) : s.map (forward .other) = s := by
  refine (List.map_congr_left fun c _ => ?_).trans (List.map_id s)
  by_cases hc : c = '/' <;> simp [forward, isSlash, hc]

theorem solid_forward_file (s : List Char) :
    solid (percentDecode (s.map (forward .file))) + s.count '\\' = solid (percentDecode s) := by
  have hbehind : ∀ front : List Char, '\\' ∉ front →
      solid (percentDecode (front ++ s.map (forward .file))) + s.count '\\' =
        solid (percentDecode (front ++ s)) := by
    induction s with
    | nil => simp
    | cons c s ih =>
      intro front hfront
      by_cases hc : c = '\\'
      · subst hc
        have hrest := ih [] (by simp)
        rw [List.map_cons, show forward .file '\\' = '/' from rfl, List.count_cons_self,
          percentDecode_append_cons (by decide) (by decide),
          percentDecode_append_cons (by decide) (by decide)]
        have hone : solid (String.utf8EncodeChar '\\') = 1 := by decide
        have hnone : solid (String.utf8EncodeChar '/') = 0 := by decide
        simp only [solid_append, hone, hnone, List.nil_append] at hrest ⊢
        omega
      · have hsame : forward .file c = c := by
          unfold forward isSlash
          split <;> simp_all
        have hmore := ih (front ++ [c]) (by simp [hfront, Ne.symm hc])
        rw [List.map_cons, hsame, List.count_cons_of_ne hc]
        simpa using hmore
  exact hbehind [] (by simp)

/-- The parts of the path of a URL, of the text behind its first slash. -/
def urlParts (s : List Char) : List (List Char) :=
  Route.walk false [] (splitOn (isSlash .other) (percentEncode pathSet s))

def localParts (s : List Char) : List (List Char) :=
  Route.withoutEmptyStart (Route.walk true [] (splitOn (isSlash .file) s))

theorem weight_urlParts_le (s : List Char) : weight (urlParts s) ≤ solid (percentDecode s) := by
  refine (Route.weight_walk_le _ _ _).trans ?_
  rw [weight_nil, Nat.zero_add, weight, rooted_splitOn, map_forward_other,
    solid_percentDecode_slash, percentDecode_percentEncode]

theorem weight_localParts_le (s : List Char) :
    weight (localParts s) + s.count '\\' ≤ solid (percentDecode s) := by
  have hwalk : weight (localParts s) ≤ weight (splitOn (isSlash .file) s) := by
    refine (Route.weight_withoutEmptyStart_le _).trans ((Route.weight_walk_le _ _ _).trans ?_)
    rw [weight_nil, Nat.zero_add]
  have hsplit : weight (splitOn (isSlash .file) s) = solid (percentDecode (s.map (forward .file))) := by
    rw [weight, rooted_splitOn, solid_percentDecode_slash]
  have hforward := solid_forward_file s
  omega

def drivePath (bytes : List UInt8) : Path :=
  match bytes.reverse with
  | mark :: letter :: _ :: _ =>
    if filePath?.isAlphaByte letter && (mark = 0x3A || mark = 0x7C) then
      { bytes := bytes ++ [Path.slash] }
    else { bytes }
  | _ => { bytes }

theorem drivePath_cases (bytes : List UInt8) :
    (drivePath bytes).bytes = bytes ∨ (drivePath bytes).bytes = bytes ++ [Path.slash] := by
  unfold drivePath
  split
  · split
    · exact Or.inr rfl
    · exact Or.inl rfl
  · exact Or.inl rfl

theorem filePath?_segments {u : Url} {parts : List (List Char)} (hhost : u.host? = none)
    (hroute : u.route = Route.ofParts parts) :
    u.filePath? = some (drivePath (percentDecode (rooted parts))) := by
  have hbytes : ((parts.map String.ofList).flatMap fun part =>
      Path.slash :: percentDecode part.toList) = percentDecode (rooted parts) := by
    rw [percentDecode_rooted, List.flatMap_map]
    exact List.flatMap_congr fun part _ => by rw [String.toList_ofList]
  unfold filePath? drivePath
  simp only [hroute, Route.ofParts, hhost, hbytes, Option.bind_eq_bind, Option.bind_some,
    Option.isSome_none, Bool.false_and, Bool.false_eq_true, if_false]
  rcases (percentDecode (rooted parts)).reverse with _ | ⟨mark, _ | ⟨letter, _ | ⟨b, rest⟩⟩⟩
  · rfl
  · rfl
  · rfl
  · dsimp only
    split <;> rfl

theorem lt_of_pathSet {c : Char} (h : pathSet c = false) : 0x20 < c.toNat := by
  revert h
  exact ascii_cases (P := fun c => pathSet c = false → 0x20 < c.toNat) (by decide)
    (fun c hc h => by omega) c

theorem ofString?_file {s : List Char} (h : ∀ c ∈ s, pathSet c = false) :
    ∃ u, ofString? ("file://" ++ String.ofList ('/' :: s)) = some u ∧ u.host? = none ∧
      u.route = Route.ofParts (localParts s) := by
  have hraw : ∀ c ∈ '/' :: '/' :: '/' :: s, pathSet c = false := by
    simpa [show pathSet '/' = false from rfl] using h
  have htext : ("file://" ++ String.ofList ('/' :: s)).toList =
      "file:".toList ++ '/' :: '/' :: '/' :: s := by
    simp
  have hgraphic : ∀ c ∈ "file:".toList ++ '/' :: '/' :: '/' :: s, 0x20 < c.toNat :=
    List.forall_mem_append.2 ⟨by simp, fun c hc => lt_of_pathSet (hraw c hc)⟩
  have hwhole : ∀ {mark : Char}, pathSet mark = true →
      cutOff mark ('/' :: '/' :: '/' :: s) = ('/' :: '/' :: '/' :: s, none) := by
    intro mark hmark
    have hnot : mark ∉ '/' :: '/' :: '/' :: s := fun hmem => by simp [hraw mark hmem] at hmark
    rw [cutOff, cut_eq_none hnot]
  have hlocal : localFile? ('/' :: '/' :: '/' :: s) =
      some ({}, Route.ofParts (localParts s)) := by
    have hslash : isSlash .file '/' = true := rfl
    have hdrive : Route.isDrive [] = false := rfl
    simp only [localFile?, hslash, Bool.and_self, if_true, List.takeWhile_cons, List.dropWhile_cons,
      Bool.not_true, Bool.false_eq_true, if_false, hdrive, List.isEmpty_nil, Option.bind_eq_bind,
      Option.bind_some, Option.pure_def, dropSlash, pieces, percentEncode_eq h, ite_self]
    rfl
  unfold ofString?
  rw [htext, cleaned_eq hgraphic, scheme?_file]
  simp only [Option.bind_eq_bind, Option.bind_some, hwhole (show pathSet '#' = true by decide),
    hwhole (show pathSet '?' = true by decide), middle?, familyOf, if_true, hlocal, Option.pure_def]
  exact ⟨_, rfl, rfl, rfl⟩

theorem fst_cutOff (mark : Char) (s : List Char) : (cutOff mark s).1 = s.takeWhile (· != mark) := by
  have hcut : (cutOff mark s).1 = ((cut mark s).map (·.1)).getD s := by
    unfold cutOff
    cases cut mark s <;> rfl
  rw [hcut]
  clear hcut
  induction s with
  | nil => rfl
  | cons c s ih =>
    by_cases hc : c = mark
    · simp [cut, hc]
    · rw [List.takeWhile_cons_of_pos (by simpa using hc), ← ih, cut, if_neg hc]
      cases cut mark s <;> rfl

theorem authority?_slash (scheme : String) (ends : Bool) (s : List Char) :
    authority? scheme .other ends ('/' :: s) = some ({}, '/' :: s) := by
  rw [authority?_eq]
  simp [isSlash, cutUser_eq_none (s := []) (by simp), placeBehind, cutHost, port?]

theorem ofString?_path {scheme : List Char} {known : String} (hscheme : IsSpelling scheme known)
    (s : List Char) :
    ∃ u, ofString? (String.ofList (scheme ++ ':' :: '/' :: '/' :: '/' :: s)) = some u ∧
      u.route = Route.ofParts (urlParts (keptPath s)) := by
  have hgraphic : ∀ c ∈ scheme ++ ":///".toList, 0x20 < c.toNat :=
    List.forall_mem_append.2 ⟨hscheme.graphic, by simp⟩
  have hcleaned : cleaned (scheme ++ ':' :: '/' :: '/' :: '/' :: s) =
      scheme ++ ':' :: '/' :: '/' :: '/' :: cleanedEnd s := by
    have happend := cleaned_append_eq (by simp) hgraphic s
    rwa [List.append_assoc, List.append_assoc] at happend
  have hcut : ∀ {mark : Char} (t : List Char), mark ≠ '/' →
      (cutOff mark ('/' :: '/' :: '/' :: t)).1 = '/' :: '/' :: '/' :: t.takeWhile (· != mark) := by
    intro mark t hmark
    rw [fst_cutOff]
    simp [Ne.symm hmark]
  have hmiddle : ∀ ends t, middle? known ends ('/' :: '/' :: '/' :: t) =
      some (some {}, Route.ofParts (urlParts t)) := by
    intro ends t
    simp only [middle?, hscheme.family, authority?_slash, Option.bind_eq_bind, Option.bind_some,
      Option.pure_def]
    rfl
  unfold ofString?
  rw [String.toList_ofList, hcleaned, hscheme.scheme?_eq]
  simp only [Option.bind_eq_bind, Option.bind_some, hcut _ (show '#' ≠ '/' by decide),
    hcut _ (show '?' ≠ '/' by decide), hmiddle, Option.pure_def]
  exact ⟨_, rfl, rfl⟩

theorem mem_percentEncode {c : Char} {s : List Char} (h : c ∈ percentEncode pathSet s) :
    (c = '%' ∨ isHexDigit c) ∨ c ∈ s ∧ pathSet c = false := by
  obtain ⟨x, hx, hc⟩ := List.mem_flatMap.1 h
  split at hc
  · obtain ⟨b, -, hb⟩ := List.mem_flatMap.1 hc
    have hbyte : b.toNat < 256 := b.toNat_lt
    simp only [encodeByte, List.mem_cons, List.not_mem_nil, or_false] at hb
    rcases hb with rfl | rfl | rfl
    · exact Or.inl (Or.inl rfl)
    · exact Or.inl (Or.inr (hexValue_upperHexDigit (by omega)).1)
    · exact Or.inl (Or.inr (hexValue_upperHexDigit (by omega)).1)
  · next hraw =>
    rw [List.mem_singleton.1 hc]
    exact Or.inr ⟨hx, by simpa using hraw⟩

theorem pathSet_of_mem_percentEncode {c : Char} {s : List Char}
    (h : c ∈ percentEncode pathSet s) : pathSet c = false := by
  rcases mem_percentEncode h with (rfl | hdigit) | ⟨-, hraw⟩
  · rfl
  · exact pathSet_of_isHexDigit hdigit
  · exact hraw

theorem isSlash_of_mem_percentEncode {family : Family} {c : Char} {s : List Char}
    (hs : ∀ x ∈ s, isSlash family x = false) (h : c ∈ percentEncode pathSet s) :
    isSlash family c = false := by
  rcases mem_percentEncode h with (rfl | hdigit) | ⟨hc, -⟩
  · cases family <;> rfl
  · have hslash : c ≠ '/' := by rintro rfl; contradiction
    have hback : c ≠ '\\' := by rintro rfl; contradiction
    simp [isSlash, hslash, hback]
  · exact hs c hc

namespace Route

theorem forall_mem_walk {P : List Char → Prop} (hnil : P []) {parts rest : List (List Char)}
    (hparts : ∀ p ∈ parts, P p) (hrest : ∀ p ∈ rest, P p) : ∀ p ∈ walk false parts rest, P p := by
  have hstep : ∀ {parts part}, (∀ p ∈ parts, P p) → P part → ∀ p ∈ step false parts part, P p := by
    intro parts part hparts hpart p hp
    unfold step at hp
    split at hp
    · unfold up at hp
      split at hp
      · split at hp
        · exact hparts p hp
        · exact hparts p (List.mem_of_mem_dropLast hp)
      · simp at hp
    · split at hp
      · exact hparts p hp
      · rw [Bool.false_and, if_neg Bool.false_ne_true] at hp
        rcases List.mem_append.1 hp with hp | hp
        · exact hparts p hp
        · rwa [List.mem_singleton.1 hp]
  fun_induction walk false parts rest with
  | case1 => exact hparts
  | case2 parts last =>
    intro p hp
    rcases List.mem_append.1 hp with hp | hp
    · exact hstep hparts (hrest last List.mem_cons_self) p hp
    · rwa [List.mem_singleton.1 hp]
  | case3 parts last => exact hstep hparts (hrest last List.mem_cons_self)
  | case4 parts part rest _ ih =>
    obtain ⟨hpart, hrest⟩ := List.forall_mem_cons.1 hrest
    exact ih (hstep hparts hpart) hrest

theorem walk_ne_nil (parts : List (List Char)) {rest : List (List Char)} (h : rest ≠ []) :
    walk false parts rest ≠ [] := by
  fun_induction walk false parts rest with
  | case1 => contradiction
  | case2 => simp
  | case3 parts last hdots =>
    simp only [Bool.or_eq_true, not_or, Bool.not_eq_true] at hdots
    simp [step, hdots.1, hdots.2]
  | case4 parts part rest hrest ih => exact ih hrest

end Route

end SecretDotenv.Url
