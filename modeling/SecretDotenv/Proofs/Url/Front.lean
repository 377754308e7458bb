import SecretDotenv.Proofs.Text.Pieces
import SecretDotenv.Proofs.Url.Authority
import SecretDotenv.Proofs.Url.LocalPath

/-! The text of a URL up to its query tells the scheme, the authority and the path
apart: the scheme has no colon, the authority no slash, and what follows them
begins differently where there is no authority. -/
namespace SecretDotenv.Url

open SecretDotenv.Text

/-- A part that can stand in a path that was read: without a slash, and not a dot. -/
def IsKept (part : List Char) : Prop :=
  '/' ∉ part ∧ ¬Route.isHere part

theorem step_isKept {parts : List (List Char)} {part : List Char}
    (hparts : ∀ p ∈ parts, IsKept p) (hpart : '/' ∉ part) :
    ∀ p ∈ Route.step false parts part, IsKept p := by
  unfold Route.step
  split
  · intro p hp
    unfold Route.up at hp
    split at hp
    · split at hp
      · exact hparts p hp
      · exact hparts p (List.mem_of_mem_dropLast hp)
    · simp at hp
  · split
    · exact hparts
    · next hhere =>
      rw [Bool.false_and, if_neg (by decide)]
      intro p hp
      rcases List.mem_append.1 hp with hp | hp
      · exact hparts p hp
      · obtain rfl := List.mem_singleton.1 hp
        exact ⟨hpart, hhere⟩

theorem walk_isKept {parts rest : List (List Char)} (hparts : ∀ p ∈ parts, IsKept p)
    (hrest : ∀ p ∈ rest, '/' ∉ p) : ∀ p ∈ Route.walk false parts rest, IsKept p := by
  fun_induction Route.walk false parts rest with
  | case1 => exact hparts
  | case2 parts last hdots =>
    intro p hp
    rcases List.mem_append.1 hp with hp | hp
    · exact step_isKept hparts (hrest last List.mem_cons_self) p hp
    · obtain rfl := List.mem_singleton.1 hp
      exact ⟨by simp, by decide⟩
  | case3 parts last => exact step_isKept hparts (hrest last List.mem_cons_self)
  | case4 parts part rest _ ih =>
    apply ih
    · exact step_isKept hparts (hrest part List.mem_cons_self)
    · intro p hp
      exact hrest p (List.mem_cons_of_mem _ hp)

theorem routeOf_segments (family : Family) (path : List Char) :
    ∃ parts, (∀ p ∈ parts, IsKept p) ∧ routeOf family path = Route.ofParts parts := by
  unfold routeOf
  split
  · exact ⟨[], by simp, rfl⟩
  · refine ⟨_, ?_, rfl⟩
    apply walk_isKept (by simp)
    unfold pieces
    exact splitOn_not_mem (by simp [isSlash]) _

def IsRooted (path : List Char) : Prop :=
  path = [] ∨ ∃ rest, path = '/' :: rest

theorem text_segments (parts : List String) :
    (Route.text (.segments parts)).toList = parts.flatMap fun part => '/' :: part.toList := by
  unfold Route.text
  rw [String.toList_join, List.flatMap_map]
  congr 1
  funext part
  rw [String.toList_append]
  rfl

theorem isRooted_segments (parts : List String) : IsRooted (Route.text (.segments parts)).toList := by
  rw [text_segments]
  cases parts with
  | nil => exact Or.inl rfl
  | cons part parts => exact Or.inr ⟨_, rfl⟩

theorem not_dot_of_isKept {parts : List (List Char)} (hparts : ∀ p ∈ parts, IsKept p) :
    ¬"/./".toList <+: (Route.ofParts parts).text.toList := by
  unfold Route.ofParts
  rw [text_segments, List.flatMap_map]
  rintro ⟨behind, hbehind⟩
  cases parts with
  | nil => simp at hbehind
  | cons part parts =>
    obtain ⟨hslash, hhere⟩ := hparts part List.mem_cons_self
    rw [List.flatMap_cons, String.toList_ofList] at hbehind
    cases part with
    | nil =>
      cases parts with
      | nil => simp at hbehind
      | cons next parts => simp at hbehind
    | cons c part =>
      cases part with
      | nil =>
        have hc : c = '.' := by
          simp at hbehind
          exact hbehind.1.symm
        subst hc
        exact hhere (by decide)
      | cons x part =>
        have hx : x = '/' := by
          simp at hbehind
          exact hbehind.2.1.symm
        subst hx
        simp at hslash

/-- What reading grants to a URL. -/
structure IsParsed (u : Url) : Prop where
  scheme : ':' ∉ u.scheme.toList
  authority : ∀ a, u.authority = some a → '/' ∉ a.text.toList ∧ IsRooted u.path.toList
  bare : u.authority = none → ¬"/./".toList <+: u.path.toList

theorem colon_not_mem_scheme? {s rest : List Char} {scheme : String}
    (h : scheme? s = some (scheme, rest)) : ':' ∉ scheme.toList := by
  unfold scheme? at h
  obtain ⟨⟨name, behind⟩, -, h⟩ := Option.bind_eq_some_iff.1 h
  dsimp only at h
  split at h
  · next hname =>
    rw [← (Prod.mk.inj (Option.some.inj h)).1, String.toList_ofList]
    intro hcolon
    obtain ⟨c, hc, hlower⟩ := List.mem_map.1 hcolon
    have hpart := List.all_eq_true.1 (Bool.and_eq_true_iff.1 hname).2 c hc
    have hcases : c.isAlphanum ∨ c = '+' ∨ c = '-' ∨ c = '.' := by
      simpa [or_assoc] using hpart
    rcases hcases with halphanum | rfl | rfl | rfl
    · by_cases halpha : c.isAlpha
      · rw [← Char.isAlpha_toLower_eq_isAlpha, hlower] at halpha
        simp at halpha
      · have hupper : ¬c.isUpper := by
          intro hupper
          exact halpha (Bool.or_eq_true_iff.2 (Or.inl hupper))
        rw [Char.toLower_eq_of_not_isUpper hupper] at hlower
        subst hlower
        simp at halphanum
    · simp at hlower
    · simp at hlower
    · simp at hlower
  · contradiction

theorem isParsed_of_middle? {scheme : String} {ends : Bool} {s : List Char}
    {authority : Option Authority} {route : Route}
    (h : middle? scheme ends s = some (authority, route)) :
    (∀ a, authority = some a → '/' ∉ a.text.toList ∧ IsRooted route.text.toList) ∧
      (authority = none → ¬"/./".toList <+: route.text.toList) := by
  have hrooted : ∀ family path, IsRooted (routeOf family path).text.toList := by
    intro family path
    obtain ⟨parts, -, hroute⟩ := routeOf_segments family path
    rw [hroute]
    exact isRooted_segments _
  unfold middle? at h
  split at h
  · obtain ⟨⟨a, found⟩, hlocal, h⟩ := Option.bind_eq_some_iff.1 h
    obtain ⟨rfl, rfl⟩ := Prod.mk.inj (Option.some.inj h)
    refine ⟨?_, by simp⟩
    rintro _ ⟨⟩
    obtain ⟨parts, -, rfl⟩ := route_of_localFile? hlocal
    exact ⟨slash_not_mem_localFile? hlocal, isRooted_segments parts⟩
  · obtain ⟨⟨a, path⟩, hfound, h⟩ := Option.bind_eq_some_iff.1 h
    obtain ⟨rfl, rfl⟩ := Prod.mk.inj (Option.some.inj h)
    refine ⟨?_, by simp⟩
    rintro _ ⟨⟩
    exact ⟨slash_not_mem_authority? hfound, hrooted _ _⟩
  · split at h
    · obtain ⟨⟨a, path⟩, hfound, h⟩ := Option.bind_eq_some_iff.1 h
      obtain ⟨rfl, rfl⟩ := Prod.mk.inj (Option.some.inj h)
      refine ⟨?_, by simp⟩
      rintro _ ⟨⟩
      exact ⟨slash_not_mem_authority? hfound, hrooted _ _⟩
    · obtain ⟨rfl, rfl⟩ := Prod.mk.inj (Option.some.inj h)
      refine ⟨by simp, ?_⟩
      intro _
      obtain ⟨parts, hparts, hroute⟩ := routeOf_segments .other _
      rw [hroute]
      exact not_dot_of_isKept hparts
    · next hslashes hslash =>
      obtain ⟨rfl, rfl⟩ := Prod.mk.inj (Option.some.inj h)
      refine ⟨by simp, ?_⟩
      rintro - ⟨behind, hbehind⟩
      dsimp only [Route.text] at hbehind
      rw [String.toList_ofList, String.toList_ofList] at hbehind
      cases s with
      | nil => simp [percentEncode] at hbehind
      | cons c s =>
        apply head?_percentEncode_ne_slash controlSet s (c := c)
        · rintro rfl
          exact hslash s rfl
        · rw [← hbehind]
          rfl

theorem isParsed_of_ofString? {s : String} {u : Url} (h : ofString? s = some u) : u.IsParsed := by
  unfold ofString? at h
  obtain ⟨⟨scheme, rest⟩, hscheme, h⟩ := Option.bind_eq_some_iff.1 h
  dsimp only at h
  obtain ⟨⟨authority, route⟩, hmiddle, h⟩ := Option.bind_eq_some_iff.1 h
  obtain rfl := Option.some.inj h
  obtain ⟨hauthority, hbare⟩ := isParsed_of_middle? hmiddle
  exact ⟨colon_not_mem_scheme? hscheme, hauthority, hbare⟩

def bareText (path : List Char) : List Char :=
  if "//".toList.isPrefixOf path then '/' :: '.' :: path else path

theorem toList_front (u : Url) :
    u.front.toList = u.scheme.toList ++ ':' ::
      match u.authority with
      | some a => '/' :: '/' :: (a.text.toList ++ u.path.toList)
      | none => bareText u.path.toList := by
  unfold front bareText
  cases u.authority with
  | none =>
    dsimp only
    split <;> simp
  | some a => simp

/-- Two lists of a part without `c` and a part that is empty or begins with `c` agree
only part by part. -/
theorem append_inj_of_not_mem {c : Char} {a b x y : List Char} (ha : c ∉ a) (hb : c ∉ b)
    (hx : x = [] ∨ ∃ rest, x = c :: rest) (hy : y = [] ∨ ∃ rest, y = c :: rest)
    (h : a ++ x = b ++ y) : a = b ∧ x = y := by
  have htake : ∀ {l z : List Char}, c ∉ l → (z = [] ∨ ∃ rest, z = c :: rest) →
      (l ++ z).takeWhile (· != c) = l := by
    intro l z hl hz
    have hall : ∀ d ∈ l, (d != c) = true := by
      intro d hd
      rw [bne_iff_ne]
      rintro rfl
      exact hl hd
    rw [List.takeWhile_append_of_pos hall]
    rcases hz with rfl | ⟨rest, rfl⟩
    · simp
    · simp
  have hfront : a = b := by
    rw [← htake ha hx, h, htake hb hy]
  subst hfront
  exact ⟨rfl, List.append_cancel_left h⟩

theorem bareText_ne (path rest : List Char) : bareText path ≠ '/' :: '/' :: rest := by
  unfold bareText
  intro h
  split at h
  · simp at h
  · next hslashes =>
    rw [h] at hslashes
    simp at hslashes

/-- A path that was read without an authority begins with no dot, so the one that is put
in front of two slashes is told from it. -/
theorem bareText_injective {a b : List Char} (ha : ¬"/./".toList <+: a) (hb : ¬"/./".toList <+: b)
    (h : bareText a = bareText b) : a = b := by
  have hdot : ∀ {x y : List Char}, "//".toList.isPrefixOf x → ¬"/./".toList <+: y →
      '/' :: '.' :: x ≠ y := by
    rintro x y hx hy rfl
    obtain ⟨rest, rfl⟩ := List.isPrefixOf_iff_prefix.1 hx
    exact hy ⟨'/' :: rest, rfl⟩
  unfold bareText at h
  split at h
  · next hx =>
    split at h
    · exact (List.cons.inj (List.cons.inj h).2).2
    · exact absurd h (hdot hx hb)
  · split at h
    · next hy => exact absurd h.symm (hdot hy ha)
    · exact h

/-- Two URLs differ at most behind their paths. -/
def SpelledAlike (u w : Url) : Prop :=
  u.scheme = w.scheme ∧ u.authority.map Authority.text = w.authority.map Authority.text ∧
    u.path = w.path

theorem front_eq_front_iff {u w : Url} (hu : u.IsParsed) (hw : w.IsParsed) :
    u.front = w.front ↔ u.SpelledAlike w := by
  constructor
  · intro h
    have hlist := congrArg String.toList h
    rw [toList_front, toList_front] at hlist
    obtain ⟨hscheme, hrest⟩ := append_inj_of_not_mem hu.scheme hw.scheme
      (Or.inr ⟨_, rfl⟩) (Or.inr ⟨_, rfl⟩) hlist
    refine ⟨String.toList_inj.1 hscheme, ?_⟩
    have hrest := (List.cons.inj hrest).2
    cases hau : u.authority with
    | some a =>
      obtain ⟨haslash, hapath⟩ := hu.authority a hau
      rw [hau] at hrest
      cases haw : w.authority with
      | some b =>
        obtain ⟨hbslash, hbpath⟩ := hw.authority b haw
        rw [haw] at hrest
        have htail := (List.cons.inj (List.cons.inj hrest).2).2
        obtain ⟨htext, hpath⟩ := append_inj_of_not_mem haslash hbslash hapath hbpath htail
        refine ⟨?_, String.toList_inj.1 hpath⟩
        rw [Option.map_some, Option.map_some, String.toList_inj.1 htext]
      | none =>
        rw [haw] at hrest
        exact absurd hrest.symm (bareText_ne _ _)
    | none =>
      rw [hau] at hrest
      cases haw : w.authority with
      | some b =>
        rw [haw] at hrest
        exact absurd hrest (bareText_ne _ _)
      | none =>
        rw [haw] at hrest
        exact ⟨rfl, String.toList_inj.1 (bareText_injective (hu.bare hau) (hw.bare haw) hrest)⟩
  · rintro ⟨hscheme, hauthority, hpath⟩
    unfold front
    rw [hscheme, hpath]
    cases hau : u.authority with
    | none =>
      rw [hau] at hauthority
      rw [Option.map_eq_none_iff.1 hauthority.symm]
    | some a =>
      rw [hau] at hauthority
      obtain ⟨b, hb, htext⟩ := Option.map_eq_some_iff.1 hauthority.symm
      rw [hb]
      dsimp only
      rw [htext]

end SecretDotenv.Url
