import SecretDotenv.Proofs.Secret.PlainRequest

/-! The working directory inside the text of a URL. A directory that is not empty and has no
slash beside another puts no two slashes together wherever it stands: those in front of a
placeholder and behind it stay apart, and the directory brings none. The root is empty once
its slash is gone, so the slashes around its placeholder meet. -/
namespace SecretDotenv.Secret.Expression

open SecretDotenv.Text SecretDotenv.Machine

def slashPairs : List Char → Nat
  | [] => 0
  | c :: rest => (if c = '/' ∧ rest.head? = some '/' then 1 else 0) + slashPairs rest

theorem slashPairs_cons (c : Char) (rest : List Char) : slashPairs (c :: rest) =
    (if c = '/' ∧ rest.head? = some '/' then 1 else 0) + slashPairs rest := rfl

theorem slashPairs_append (a b : List Char) : slashPairs (a ++ b) =
    slashPairs a + (if a.getLast? = some '/' ∧ b.head? = some '/' then 1 else 0) + slashPairs b := by
  induction a with
  | nil => simp [slashPairs]
  | cons c a ih =>
    cases a with
    | nil => simp [slashPairs]
    | cons d a =>
      rw [List.cons_append, slashPairs_cons, slashPairs_cons c (d :: a), ih,
        List.getLast?_cons_cons, List.cons_append, List.head?_cons, List.head?_cons]
      omega

theorem slashPairs_append_of_getLast? {a : List Char} (h : a.getLast? ≠ some '/') (b : List Char) :
    slashPairs (a ++ b) = slashPairs a + slashPairs b := by
  simp [slashPairs_append, h]

theorem slashPairs_append_of_head? (a : List Char) {b : List Char} (h : b.head? ≠ some '/') :
    slashPairs (a ++ b) = slashPairs a + slashPairs b := by
  simp [slashPairs_append, h]

theorem slashPairs_le_of_suffix {a b : List Char} (h : a <:+ b) : slashPairs a ≤ slashPairs b := by
  obtain ⟨front, rfl⟩ := h
  rw [slashPairs_append]
  omega

theorem slashPairs_le_of_prefix {a b : List Char} (h : a <+: b) : slashPairs a ≤ slashPairs b := by
  obtain ⟨back, rfl⟩ := h
  rw [slashPairs_append]
  omega

theorem slashPairs_of_not_mem {s : List Char} (h : '/' ∉ s) : slashPairs s = 0 := by
  induction s with
  | nil => rfl
  | cons c s ih =>
    obtain ⟨hc, hs⟩ := not_or.1 (mt List.mem_cons.2 h)
    simp [slashPairs, Ne.symm hc, ih hs]

theorem append_flatMap_piecesAround {word : List Char} (hword : word ≠ []) {skip : Nat}
    {s first : List Char} {more : List (List Char)}
    (h : piecesAround word skip s = first :: more) :
    first ++ more.flatMap (word ++ ·) = s.drop skip := by
  fun_induction piecesAround word skip s generalizing first more with
  | case1 skip =>
    obtain ⟨rfl, rfl⟩ := List.cons.inj h
    simp
  | case2 skip c rest ih => exact ih h
  | case3 c rest hbegins ih =>
    obtain ⟨rfl, rfl⟩ := List.cons.inj h
    obtain ⟨piece, pieces, hpieces⟩ := piecesAround_cons word (word.length - 1) rest
    obtain ⟨behind, hbehind⟩ := List.isPrefixOf_iff_prefix.1 hbegins
    have hlength : word.length = word.length - 1 + 1 :=
      (Nat.sub_add_cancel (List.length_pos_iff.2 hword)).symm
    have hrest : rest.drop (word.length - 1) = behind := by
      rw [← List.drop_succ_cons (a := c), ← hlength, ← hbehind, List.drop_left]
    rw [hpieces, List.flatMap_cons, List.append_assoc, ih hpieces, hrest]
    exact hbehind
  | case4 c rest _ hnone =>
    obtain ⟨piece, pieces, hpieces⟩ := piecesAround_cons word 0 rest
    rw [hpieces] at hnone
    contradiction
  | case5 c rest _ piece pieces hpieces ih =>
    obtain ⟨rfl, rfl⟩ := List.cons.inj h
    rw [List.cons_append, ih hpieces]
    rfl

def insertedBehind (directory out : List Char) : List Char :=
  if out.getLast? = some '/' then directory.dropWhile (· = '/') else directory

theorem substituteDirectory_eq {word text first : List Char} {more : List (List Char)}
    (directory : List Char) (h : piecesAround word 0 text = first :: more) :
    substituteDirectory word directory text =
      more.foldl (fun out piece => out ++ insertedBehind directory out ++ piece) first := by
  rw [substituteDirectory, h]
  rfl

/-- A directory that can stand between any two texts. -/
structure IsClosed (directory : List Char) : Prop where
  ne_nil : directory ≠ []
  getLast? : directory.getLast? ≠ some '/'
  pairs : slashPairs directory = 0

theorem slashPairs_inserted {directory : List Char} (h : IsClosed directory) (out piece : List Char) :
    slashPairs (out ++ insertedBehind directory out ++ piece) = slashPairs out + slashPairs piece := by
  have hdropped : directory.dropWhile (· = '/') ≠ [] := fun hnil => by
    have hlast := List.getLast?_eq_some_getLast h.ne_nil
    have hslash := List.dropWhile_eq_nil_iff.1 hnil _ (List.getLast_mem h.ne_nil)
    rw [of_decide_eq_true hslash] at hlast
    exact h.getLast? hlast
  have hsuffix : insertedBehind directory out <:+ directory := by
    unfold insertedBehind
    split
    · exact List.dropWhile_suffix _
    · exact List.suffix_rfl
  have hne : insertedBehind directory out ≠ [] := by
    unfold insertedBehind
    split
    · exact hdropped
    · exact h.ne_nil
  have hend : (insertedBehind directory out).getLast? ≠ some '/' := by
    obtain ⟨front, hfront⟩ := hsuffix
    rw [← List.getLast?_append_of_ne_nil front hne, hfront]
    exact h.getLast?
  have hpairs : slashPairs (insertedBehind directory out) = 0 :=
    Nat.le_zero.1 (h.pairs ▸ slashPairs_le_of_suffix hsuffix)
  rw [slashPairs_append_of_getLast?, slashPairs_append, hpairs]
  · unfold insertedBehind
    split
    · next hslash =>
      have hhead : (directory.dropWhile (· = '/')).head? ≠ some '/' := fun hhead => by
        have hfirst := List.head?_dropWhile_not (· = '/') directory
        rw [hhead] at hfirst
        simp at hfirst
      simp [hhead]
    · next hslash => simp [hslash]
  · rwa [List.getLast?_append_of_ne_nil _ hne]

theorem slashPairs_foldl {directory : List Char} (h : IsClosed directory) (out : List Char)
    (pieces : List (List Char)) :
    slashPairs (pieces.foldl (fun out piece => out ++ insertedBehind directory out ++ piece) out) =
      slashPairs out + (pieces.map slashPairs).sum := by
  induction pieces generalizing out with
  | nil => simp
  | cons piece pieces ih =>
    rw [List.foldl_cons, ih, slashPairs_inserted h, List.map_cons, List.sum_cons, Nat.add_assoc]

theorem slashPairs_flatMap {word : List Char} (hne : word ≠ []) (hword : '/' ∉ word)
    (out : List Char) (pieces : List (List Char)) :
    slashPairs (out ++ pieces.flatMap (word ++ ·)) = slashPairs out + (pieces.map slashPairs).sum := by
  have hhead : ∀ s : List Char, (word ++ s).head? ≠ some '/' := fun s hhead => by
    rw [List.head?_append_of_ne_nil _ hne] at hhead
    exact hword (List.mem_of_head? hhead)
  have hlast : word.getLast? ≠ some '/' := fun hlast => hword (List.mem_of_getLast? hlast)
  induction pieces generalizing out with
  | nil => simp
  | cons piece pieces ih =>
    rw [List.flatMap_cons, ← List.append_assoc, ih, slashPairs_append_of_head? _ (hhead piece),
      slashPairs_append_of_getLast? hlast, slashPairs_of_not_mem hword, List.map_cons, List.sum_cons,
      Nat.zero_add, Nat.add_assoc]

theorem slashPairs_substituteDirectory {word directory : List Char} (hne : word ≠ [])
    (hword : '/' ∉ word) (h : IsClosed directory) (text : List Char) :
    slashPairs (substituteDirectory word directory text) = slashPairs text := by
  obtain ⟨first, more, hpieces⟩ := piecesAround_cons word 0 text
  have htext := append_flatMap_piecesAround hne hpieces
  rw [List.drop_zero] at htext
  rw [substituteDirectory_eq directory hpieces, slashPairs_foldl h, ← htext,
    slashPairs_flatMap hne hword]

theorem getLast?_directoryText (directory : Path) :
    (directoryText directory).getLast? ≠ some '/' := by
  intro hlast
  rw [directoryText, List.getLast?_reverse] at hlast
  have hfirst := List.head?_dropWhile_not (· = '/')
    (directory.display.toList.map fun c => if c = '\\' then '/' else c).reverse
  rw [hlast] at hfirst
  simp at hfirst

theorem isClosed_directoryText_iff {directory : Path} :
    IsClosed (directoryText directory) ↔
      directoryText directory ≠ [] ∧ slashPairs (directoryText directory) = 0 :=
  ⟨fun h => ⟨h.ne_nil, h.pairs⟩, fun h => ⟨h.1, getLast?_directoryText directory, h.2⟩⟩

theorem toList_withDirectory (directory : Path) (text : String) :
    (withDirectory directory text).toList =
      substituteDirectory "$PWD".toList (directoryText directory)
        (substituteDirectory "$CWD".toList (directoryText directory) text.toList) :=
  String.toList_ofList

theorem toList_withDirectory_ofList (directory : Path) (text : List Char) :
    (withDirectory directory (String.ofList text)).toList =
      substituteDirectory "$PWD".toList (directoryText directory)
        (substituteDirectory "$CWD".toList (directoryText directory) text) := by
  rw [toList_withDirectory, String.toList_ofList (l := text)]

theorem slashPairs_withDirectory_of_isClosed {directory : Path}
    (h : IsClosed (directoryText directory)) (text : String) :
    slashPairs (withDirectory directory text).toList = slashPairs text.toList := by
  rw [toList_withDirectory, slashPairs_substituteDirectory (by decide) (by decide) h,
    slashPairs_substituteDirectory (by decide) (by decide) h]

theorem substituteDirectory_once (word directory : List Char) {front back : List Char}
    (hfront : '$' ∉ front) (hback : '$' ∉ back) :
    substituteDirectory ('$' :: word) directory (front ++ '$' :: (word ++ back)) =
      front ++ insertedBehind directory front ++ back := by
  have hrest : piecesAround ('$' :: word) word.length (word ++ back) = [back] := by
    have hskip : ∀ (s : List Char), piecesAround ('$' :: word) s.length (s ++ back) =
        piecesAround ('$' :: word) 0 back := by
      intro s
      induction s with
      | nil => rfl
      | cons c s ih => exact ih
    rw [hskip, piecesAround_whole word hback]
  have hword : piecesAround ('$' :: word) 0 ('$' :: (word ++ back)) = [[], back] := by
    have hbegins : ('$' :: word).isPrefixOf ('$' :: (word ++ back)) = true :=
      List.isPrefixOf_iff_prefix.2 ⟨back, rfl⟩
    rw [piecesAround, if_pos hbegins, List.length_cons, Nat.add_sub_cancel, hrest]
  have hpieces := piecesAround_append hfront hword
  rw [List.append_nil] at hpieces
  rw [substituteDirectory_eq directory hpieces]
  rfl

theorem toList_withDirectory_pwd (directory : Path) {front back : List Char} (hfront : '$' ∉ front)
    (hback : '$' ∉ back) :
    (withDirectory directory (String.ofList (front ++ "$PWD".toList ++ back))).toList =
      front ++ insertedBehind (directoryText directory) front ++ back := by
  have hother : piecesAround "$CWD".toList 0 ('$' :: 'P' :: 'W' :: 'D' :: back) =
      ['$' :: 'P' :: 'W' :: 'D' :: back] := by
    have hrest : piecesAround "$CWD".toList 0 ('P' :: 'W' :: 'D' :: back) =
        ['P' :: 'W' :: 'D' :: back] := by
      have hother : '$' ∉ 'P' :: 'W' :: 'D' :: back := by simp [hback]
      exact piecesAround_whole ['C', 'W', 'D'] hother
    have hbegins : "$CWD".toList.isPrefixOf ('$' :: 'P' :: 'W' :: 'D' :: back) = false := rfl
    rw [piecesAround, if_neg (by rw [hbegins]; decide), hrest]
  have hfirst : substituteDirectory "$CWD".toList (directoryText directory)
      (front ++ "$PWD".toList ++ back) = front ++ "$PWD".toList ++ back := by
    rw [List.append_assoc]
    exact substituteDirectory_eq _ (piecesAround_append hfront hother)
  rw [toList_withDirectory_ofList, hfirst, List.append_assoc]
  exact substituteDirectory_once ['P', 'W', 'D'] _ hfront hback

theorem toList_withDirectory_cwd {directory : Path} (hroot : directoryText directory = [])
    {front back : List Char} (hfront : '$' ∉ front) (hback : '$' ∉ back) :
    (withDirectory directory (String.ofList (front ++ "$CWD".toList ++ back))).toList =
      front ++ back := by
  have hfirst : substituteDirectory "$CWD".toList [] (front ++ "$CWD".toList ++ back) =
      front ++ back := by
    have honce := substituteDirectory_once ['C', 'W', 'D'] [] hfront hback
    rw [List.append_assoc]
    simpa [insertedBehind] using honce
  have hnone : '$' ∉ front ++ back := by simp [hfront, hback]
  rw [toList_withDirectory_ofList, hroot, hfirst]
  exact substituteDirectory_self ['P', 'W', 'D'] [] hnone

theorem isClosed_of_le {directory : Path}
    (h : ∀ text, slashPairs (withDirectory directory text).toList ≤ slashPairs text.toList) :
    IsClosed (directoryText directory) := by
  rw [isClosed_directoryText_iff]
  constructor
  · intro hroot
    have hmeet := h (String.ofList (['/'] ++ "$PWD".toList ++ ['/']))
    rw [toList_withDirectory_pwd directory (by simp) (by simp), hroot] at hmeet
    exact absurd hmeet (by decide)
  · have halone := h (String.ofList ([] ++ "$PWD".toList ++ []))
    rw [toList_withDirectory_pwd directory (by simp) (by simp)] at halone
    have hnone : slashPairs (String.ofList ([] ++ "$PWD".toList ++ [])).toList = 0 := by decide
    rw [hnone] at halone
    simpa [insertedBehind] using halone

theorem display_cons {directory : Path} (h : directory.isAbsolute) :
    ∃ rest, directory.display.toList = '/' :: rest := by
  obtain ⟨bytes⟩ := directory
  cases bytes with
  | nil => contradiction
  | cons b rest =>
    obtain rfl : b = Path.slash := by simpa [Path.isAbsolute] using h
    refine ⟨decodeUtf8 rest, ?_⟩
    rw [Path.display, ofUtf8, String.toList_ofList, decodeUtf8, if_pos (by decide)]
    rfl

/-- Of the absolute directories without a doubled slash only the root ends up empty. -/
theorem isClosed_directoryText_iff_ne_root {directory : Path} (habsolute : directory.isAbsolute)
    (hpairs : slashPairs directory.display.toList = 0) (hforward : '\\' ∉ directory.display.toList) :
    IsClosed (directoryText directory) ↔ directory.display ≠ "/" := by
  have hslashed : (directory.display.toList.map fun c => if c = '\\' then '/' else c) =
      directory.display.toList := by
    refine (List.map_congr_left fun c hc => if_neg ?_).trans (List.map_id _)
    rintro rfl
    exact hforward hc
  have htext : directoryText directory = directory.display.toList.rdropWhile (· = '/') := by
    rw [directoryText, hslashed]
    rfl
  obtain ⟨rest, hrest⟩ := display_cons habsolute
  rw [isClosed_directoryText_iff, htext,
    and_iff_left (Nat.le_zero.1 (hpairs ▸ slashPairs_le_of_prefix (List.rdropWhile_prefix _ _))),
    ne_eq, ne_eq, List.rdropWhile_eq_nil_iff, not_iff_not, ← String.toList_inj, hrest]
  constructor
  · intro hall
    cases rest with
    | nil => rfl
    | cons c rest =>
      have hc : c = '/' := by simpa using hall c (by simp)
      rw [hrest, slashPairs_cons, hc] at hpairs
      simp at hpairs
  · intro hroot c hc
    rw [hroot] at hc
    simpa using hc

/-- Slashes come together exactly in directories that are empty once their last slashes are
gone, or that have slashes side by side when they are written forward. All others leave as
many pairs as there are. Of absolute directories without backslashes and without a pair of
their own only the root is such a one, and there slashes around a placeholder always meet. -/
theorem slashPairs_withDirectory (directory : Path) :
    ((∀ text, slashPairs (withDirectory directory text).toList ≤ slashPairs text.toList) ↔
      directoryText directory ≠ [] ∧ slashPairs (directoryText directory) = 0) ∧
    (directoryText directory ≠ [] → slashPairs (directoryText directory) = 0 →
      ∀ text, slashPairs (withDirectory directory text).toList = slashPairs text.toList) ∧
    (directory.isAbsolute → slashPairs directory.display.toList = 0 →
      '\\' ∉ directory.display.toList →
        (directoryText directory ≠ [] ∧ slashPairs (directoryText directory) = 0 ↔
          directory.display ≠ "/")) ∧
    (directoryText directory = [] → ∀ word ∈ ["$CWD", "$PWD"], ∀ front back : List Char,
      '$' ∉ front → '$' ∉ back →
        slashPairs (withDirectory directory
            (String.ofList ((front ++ ['/']) ++ word.toList ++ '/' :: back))).toList =
          slashPairs ((front ++ ['/']) ++ word.toList ++ '/' :: back) + 1) := by
  refine ⟨⟨fun h => isClosed_directoryText_iff.1 (isClosed_of_le h), fun h text => ?_⟩,
    fun hne hpairs => ?_, fun habsolute hpairs hforward => ?_, fun hroot word hword front back
      hfront hback => ?_⟩
  · exact (slashPairs_withDirectory_of_isClosed (isClosed_directoryText_iff.2 h) text).le
  · exact slashPairs_withDirectory_of_isClosed (isClosed_directoryText_iff.2 ⟨hne, hpairs⟩)
  · rw [← isClosed_directoryText_iff]
    exact isClosed_directoryText_iff_ne_root habsolute hpairs hforward
  · have hleft : '$' ∉ front ++ ['/'] := by simp [hfront]
    have hright : '$' ∉ '/' :: back := by simp [hback]
    have hresult : (withDirectory directory
        (String.ofList ((front ++ ['/']) ++ word.toList ++ '/' :: back))).toList =
          (front ++ ['/']) ++ '/' :: back := by
      rcases List.mem_pair.1 hword with rfl | rfl
      · exact toList_withDirectory_cwd hroot hleft hright
      · rw [toList_withDirectory_pwd directory hleft hright, hroot]
        simp [insertedBehind]
    have happart : word.toList ≠ [] ∧ '/' ∉ word.toList := by
      rcases List.mem_pair.1 hword with rfl | rfl <;> decide
    have hbetween := slashPairs_flatMap happart.1 happart.2 (front ++ ['/']) ['/' :: back]
    rw [List.flatMap_singleton, ← List.append_assoc] at hbetween
    rw [hresult, hbetween, slashPairs_append]
    simp
    omega

/-- The root brings slashes together, a directory whose own name is a placeholder does not. -/
theorem slashPairs_withDirectory_places :
    (directoryText (Path.ofString "/") = [] ∧
      slashPairs (withDirectory (Path.ofString "/")
          (String.ofList (("sops-env://".toList ++ ['/']) ++ "$CWD".toList ++
            '/' :: "a.env".toList))).toList =
        slashPairs (("sops-env://".toList ++ ['/']) ++ "$CWD".toList ++ '/' :: "a.env".toList) + 1) ∧
    ((Path.ofString "/$PWD/").isAbsolute ∧
      slashPairs (Path.ofString "/$PWD/").display.toList = 0 ∧
      '\\' ∉ (Path.ofString "/$PWD/").display.toList ∧
      slashPairs (withDirectory (Path.ofString "/$PWD/") "//$CWD//$PWD$CWD/").toList =
        slashPairs "//$CWD//$PWD$CWD/".toList) ∧
    ∃ text, slashPairs text.toList <
      slashPairs (withDirectory (Path.ofString "/a\\/b") text).toList := by
  have hroot : directoryText (Path.ofString "/") = [] := by decide +kernel
  have habsolute : (Path.ofString "/$PWD/").isAbsolute := by decide +kernel
  have hpairs : slashPairs (Path.ofString "/$PWD/").display.toList = 0 := by decide +kernel
  have hforward : '\\' ∉ (Path.ofString "/$PWD/").display.toList := by decide +kernel
  obtain ⟨-, hkept, hplain, -⟩ := slashPairs_withDirectory (Path.ofString "/$PWD/")
  obtain ⟨hne, hnone⟩ := (hplain habsolute hpairs hforward).2 (by decide +kernel)
  refine ⟨⟨hroot, ?_⟩, ⟨habsolute, hpairs, hforward, hkept hne hnone _⟩, ?_⟩
  · exact (slashPairs_withDirectory (Path.ofString "/")).2.2.2 hroot "$CWD" (by decide)
      "sops-env://".toList "a.env".toList (by decide) (by decide)
  · by_contra hall
    simp only [not_exists, not_lt] at hall
    have hnone := ((slashPairs_withDirectory (Path.ofString "/a\\/b")).1.1 hall).2
    exact absurd hnone (by decide +kernel)

theorem root_doubles_slash :
    ((Path.ofString "/").isAbsolute ∧ slashPairs (Path.ofString "/").display.toList = 0 ∧
      slashPairs "sops-env:///$CWD/a.env".toList <
        slashPairs (withDirectory (Path.ofString "/") "sops-env:///$CWD/a.env").toList) ∧
    ((Path.ofString "/a\\\\b").isAbsolute ∧
      slashPairs (Path.ofString "/a\\\\b").display.toList = 0 ∧
      slashPairs "sops-env:///$CWD/a.env".toList <
        slashPairs (withDirectory (Path.ofString "/a\\\\b") "sops-env:///$CWD/a.env").toList) := by
  refine ⟨⟨?_, ?_, ?_⟩, ⟨?_, ?_, ?_⟩⟩
  all_goals decide +kernel

end SecretDotenv.Secret.Expression
