import SecretDotenv.Proofs.Secret.CacheKey
import SecretDotenv.Proofs.Url.PlainParts
import SecretDotenv.Secret.Expression

/-! Requests for URLs of plain parts. Whatever the working directory and the flags are, such
a URL is read as it is written. -/
namespace SecretDotenv.Secret

open SecretDotenv.Text SecretDotenv.Machine SecretDotenv.Url

namespace Expression

theorem piecesAround_cons (part : List Char) (skip : Nat) (s : List Char) :
    ∃ first more, piecesAround part skip s = first :: more := by
  fun_induction piecesAround part skip s with
  | case1 => exact ⟨_, _, rfl⟩
  | case2 _ _ _ ih => exact ih
  | case3 => exact ⟨_, _, rfl⟩
  | case4 => exact ⟨_, _, rfl⟩
  | case5 => exact ⟨_, _, rfl⟩

theorem piecesAround_append {mark : Char} {word front s first : List Char} {more : List (List Char)}
    (hfront : mark ∉ front) (h : piecesAround (mark :: word) 0 s = first :: more) :
    piecesAround (mark :: word) 0 (front ++ s) = (front ++ first) :: more := by
  induction front with
  | nil => exact h
  | cons c front ih =>
    obtain ⟨hc, hfront⟩ := not_or.1 (mt List.mem_cons.2 hfront)
    have hother : (mark :: word).isPrefixOf (c :: (front ++ s)) = false := by
      simp [List.isPrefixOf, hc]
    simp [piecesAround, hother, ih hfront]

theorem piecesAround_whole {mark : Char} (word : List Char) {s : List Char} (hs : mark ∉ s) :
    piecesAround (mark :: word) 0 s = [s] := by
  have hpieces : piecesAround (mark :: word) 0 (s ++ []) = [s ++ []] := piecesAround_append hs rfl
  rwa [List.append_nil] at hpieces

theorem foldl_append_of {α β : Type} {f : List α → β → List α}
    (hf : ∀ out b, ∃ more, f out b = out ++ more) (out : List α) (l : List β) :
    ∃ more, l.foldl f out = out ++ more := by
  induction l generalizing out with
  | nil => exact ⟨[], by simp⟩
  | cons b l ih =>
    obtain ⟨more, hmore⟩ := hf out b
    obtain ⟨last, hlast⟩ := ih (f out b)
    exact ⟨more ++ last, by rw [List.foldl_cons, hlast, hmore, List.append_assoc]⟩

section Substitute

variable {mark : Char} {front : List Char} (word directory : List Char) (hfront : mark ∉ front)
include hfront

theorem substituteDirectory_append (s : List Char) :
    ∃ rest, substituteDirectory (mark :: word) directory (front ++ s) = front ++ rest := by
  obtain ⟨first, more, hpieces⟩ := piecesAround_cons (mark :: word) 0 s
  unfold substituteDirectory
  rw [piecesAround_append hfront hpieces]
  obtain ⟨rest, hrest⟩ := foldl_append_of (f := fun out piece =>
      out ++ (if out.getLast? = some '/' then directory.dropWhile (· = '/') else directory) ++ piece)
    (fun out piece => ⟨_, List.append_assoc _ _ _⟩) (front ++ first) more
  exact ⟨first ++ rest, by rw [← List.append_assoc, ← hrest]⟩

theorem substituteDirectory_self : substituteDirectory (mark :: word) directory front = front := by
  rw [substituteDirectory, piecesAround_whole word hfront]
  rfl

end Substitute

theorem substituteDirectory_behind {s behind : List Char} (word directory : List Char) (hs : '$' ∉ s)
    (hbehind : IsBehind behind) :
    ∃ left, IsBehind left ∧
      substituteDirectory ('$' :: word) directory (s ++ behind) = s ++ left := by
  have hkept : ∀ {front : List Char}, (∀ c ∈ front, c ≠ '$') → '$' ∉ front :=
    fun hfront hmem => hfront _ hmem rfl
  exact behind_kept (· ≠ '$') (by decide) (by decide)
    (fun front s hfront => substituteDirectory_append word directory (hkept hfront) s)
    (fun s hs => substituteDirectory_self word directory (hkept hs))
    (fun c hc hdollar => hs (hdollar ▸ hc)) hbehind

theorem withDirectory_behind (directory : Path) {s behind : List Char} (hs : '$' ∉ s)
    (hbehind : IsBehind behind) :
    ∃ left, IsBehind left ∧
      withDirectory directory (String.ofList (s ++ behind)) = String.ofList (s ++ left) := by
  obtain ⟨middle, hmiddle, hfirst⟩ :=
    substituteDirectory_behind ['C', 'W', 'D'] (directoryText directory) hs hbehind
  obtain ⟨left, hleft, hsecond⟩ :=
    substituteDirectory_behind ['P', 'W', 'D'] (directoryText directory) hs hmiddle
  refine ⟨left, hleft, ?_⟩
  have hcwd : "$CWD".toList = ['$', 'C', 'W', 'D'] := rfl
  have hpwd : "$PWD".toList = ['$', 'P', 'W', 'D'] := rfl
  simp only [withDirectory, String.toList_ofList, hcwd, hpwd, hfirst, hsecond]

theorem not_sameIgnoringCase_default {target : String} (h : ':' ∈ target.toList) :
    sameIgnoringCase target "default" = false := by
  rw [Bool.eq_false_iff, ne_eq, sameIgnoringCase_iff]
  intro hsame
  have hmem : ':' ∈ target.toList.map Char.toLower := List.mem_map.2 ⟨':', h, rfl⟩
  rw [hsame] at hmem
  simp at hmem

theorem parse_spelled {scheme path behind : List Char} {known : String}
    {authority : Option Authority} {route : Route} (hscheme : IsSpelling scheme known)
    (hpath : IsPath path) (hbehind : IsBehind behind)
    (hmiddle : ∀ ends, middle? known ends path = some (authority, route))
    {keyword first : String} {directory : Path} {default : Option String} {flags : List String}
    {e : Expression} (hkeyword : sameIgnoringCase first keyword)
    (h : parse keyword directory default
      (first :: String.ofList (scheme ++ ':' :: (path ++ behind)) :: flags) = .ok e) :
    e.uri.authority = authority ∧ e.uri.route = route := by
  have hdollar : '$' ∉ scheme ++ ':' :: path := by
    simp only [List.mem_append, List.mem_cons, not_or]
    exact ⟨hscheme.not_mem rfl, by decide, hpath.not_mem (by decide) rfl⟩
  obtain ⟨left, hleft, htext⟩ := withDirectory_behind directory hdollar hbehind
  obtain ⟨u, hu, hauthority, hroute⟩ := ofString?_spelled hscheme hpath hleft hmiddle
  rw [List.append_assoc, List.append_assoc, List.cons_append, List.cons_append] at htext
  have hdefault : sameIgnoringCase (String.ofList (scheme ++ ':' :: (path ++ behind))) "default" =
      false :=
    not_sameIgnoringCase_default (by simp)
  unfold parse at h
  simp only [dropKeyword, hkeyword, Bool.true_or, if_true, hdefault, Bool.false_eq_true, if_false,
    htext, hu] at h
  split at h
  · contradiction
  · rw [readArguments_uri h]
    exact ⟨hauthority, hroute⟩

end Expression

/-- A request for a URL of plain parts, with or without a query or a fragment. The first
part stands behind two slashes, as a host, or behind three, as the beginning of a path. -/
structure PlainRequest where
  keyword : String
  /-- The scheme in lower case, and as it is written. -/
  known : String
  scheme : List Char
  spelling : IsSpelling scheme known
  hosted : Bool
  first : List Char
  others : List (List Char)
  plain : ∀ part ∈ first :: others, IsPlain part
  behind : List Char
  marked : IsBehind behind
  flag : String
  flags : List String

namespace PlainRequest

variable (r : PlainRequest)

def path : List Char :=
  if r.hosted then '/' :: rooted (r.first :: r.others) else '/' :: '/' :: rooted (r.first :: r.others)

def target : String :=
  String.ofList (r.scheme ++ ':' :: (r.path ++ r.behind))

def args : List String :=
  r.keyword :: r.target :: r.flag :: r.flags

theorem isPath : IsPath r.path := by
  have hrooted : IsPath (rooted (r.first :: r.others)) := isPath_rooted r.plain
  unfold path
  split
  · exact hrooted.slash
  · exact hrooted.slash.slash

theorem target?_args (keyword : String) :
    target? keyword r.args = if sameIgnoringCase r.keyword keyword then some r.target else none := rfl

variable {r} {keyword : String} {directory : Path} {default : Option String} {e : Expression}
  (hkeyword : sameIgnoringCase r.keyword keyword)
  (h : Expression.parse keyword directory default r.args = .ok e)
include hkeyword h

theorem host_of_parse (hhosted : r.hosted) :
    e.uri.host? = some (.name (String.ofList r.first)) ∧
      e.uri.route = .segments (r.others.map String.ofList) := by
  obtain ⟨hfirst, hothers⟩ := List.forall_mem_cons.1 r.plain
  obtain ⟨hauthority, hroute⟩ := Expression.parse_spelled r.spelling r.isPath r.marked
    (fun ends => by
      rw [path, if_pos hhosted]
      exact middle?_host r.spelling.family ends hfirst hothers) hkeyword h
  exact ⟨by rw [Url.host?, hauthority]; rfl, hroute⟩

theorem path_of_parse (hhosted : r.hosted = false) :
    e.uri.host? = none ∧ e.uri.route = .segments ((r.first :: r.others).map String.ofList) := by
  obtain ⟨hauthority, hroute⟩ := Expression.parse_spelled r.spelling r.isPath r.marked
    (fun ends => by
      rw [path, if_neg (by simp [hhosted])]
      exact middle?_path r.spelling.family ends r.plain) hkeyword h
  exact ⟨by rw [Url.host?, hauthority]; rfl, hroute⟩

end PlainRequest
end SecretDotenv.Secret
