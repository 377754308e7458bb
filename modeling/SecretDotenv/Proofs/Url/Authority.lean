import Mathlib
import SecretDotenv.Url.Basic

/-! The authority of a URL that was read has no slash in its text: users are encoded,
and hosts that hold one are refused. -/
namespace SecretDotenv.Url

open SecretDotenv.Text

theorem upperHexDigit_ne_slash {n : Nat} (hn : n < 16) : upperHexDigit n ≠ '/' := by
  have hall : ∀ m < 16, upperHexDigit m ≠ '/' := by decide
  exact hall n hn

theorem slash_not_mem_encodeByte (b : UInt8) : '/' ∉ encodeByte b := by
  have hb : b.toNat < 256 := b.toNat_lt
  unfold encodeByte
  simp only [List.mem_cons, List.not_mem_nil, or_false, not_or]
  refine ⟨by decide, ?_, ?_⟩
  · exact (upperHexDigit_ne_slash (by omega)).symm
  · exact (upperHexDigit_ne_slash (by omega)).symm

theorem slash_not_mem_percentEncode {set : EncodeSet} {s : List Char}
    (h : '/' ∈ s → set '/') : '/' ∉ percentEncode set s := by
  intro hmem
  obtain ⟨c, hc, hslash⟩ := List.mem_flatMap.1 hmem
  split at hslash
  · obtain ⟨b, -, hb⟩ := List.mem_flatMap.1 hslash
    exact slash_not_mem_encodeByte b hb
  · next hraw =>
    obtain rfl := List.mem_singleton.1 hslash
    exact hraw (h hc)

theorem head?_percentEncode_ne_slash (set : EncodeSet) {c : Char} (rest : List Char)
    (hc : c ≠ '/') : (percentEncode set (c :: rest)).head? ≠ some '/' := by
  have hfirst : '/' ∉ percentEncode set [c] := by
    apply slash_not_mem_percentEncode
    intro hmem
    exact absurd (List.mem_singleton.1 hmem).symm hc
  have hwritten : percentEncode set [c] ≠ [] := by
    simp only [percentEncode, List.flatMap_singleton]
    split
    · rw [ne_eq, List.flatMap_eq_nil_iff]
      intro hnone
      cases hbytes : String.utf8EncodeChar c with
      | nil => exact String.utf8EncodeChar_ne_nil hbytes
      | cons b bytes =>
        have hb := hnone b (hbytes ▸ List.mem_cons_self)
        simp [encodeByte] at hb
    · simp
  have hsplit : percentEncode set (c :: rest) = percentEncode set [c] ++ percentEncode set rest := by
    simp [percentEncode]
  rw [hsplit, List.head?_append_of_ne_nil _ hwritten]
  intro hhead
  exact hfirst (List.mem_of_mem_head? hhead)

theorem digitChar_ne_slash (n : Nat) : n.digitChar ≠ '/' := by
  match n with
  | 0 | 1 | 2 | 3 | 4 | 5 | 6 | 7 | 8 | 9 | 10 | 11 | 12 | 13 | 14 | 15 => decide
  | n + 16 => simp [Nat.digitChar]

theorem slash_not_mem_toDigitsCore {base fuel n : Nat} {digits : List Char} (h : '/' ∉ digits) :
    '/' ∉ Nat.toDigitsCore base fuel n digits := by
  induction fuel generalizing n digits with
  | zero => exact h
  | succ fuel ih =>
    have hcons : '/' ∉ (n % base).digitChar :: digits := by
      rw [List.mem_cons, not_or]
      exact ⟨(digitChar_ne_slash _).symm, h⟩
    rw [Nat.toDigitsCore]
    split
    · exact hcons
    · exact ih hcons

theorem slash_not_mem_toString (n : Nat) : '/' ∉ (toString n).toList := by
  rw [Nat.toString_eq_repr, Nat.toList_repr]
  exact slash_not_mem_toDigitsCore (by simp)

theorem slash_not_mem_hexText (n : Nat) : '/' ∉ (hexText n).toList := by
  rw [hexText, String.toList_ofList]
  exact slash_not_mem_toDigitsCore (by simp)

theorem slash_not_mem_intercalate {separator : String} {texts : List String}
    (hseparator : '/' ∉ separator.toList) (htexts : ∀ text ∈ texts, '/' ∉ text.toList) :
    '/' ∉ (separator.intercalate texts).toList := by
  induction texts with
  | nil => simp
  | cons text texts ih =>
    have htext := htexts text List.mem_cons_self
    have hrest := ih fun t ht => htexts t (List.mem_cons_of_mem _ ht)
    cases texts with
    | nil => simpa using htext
    | cons next texts =>
      rw [String.intercalate_cons_cons]
      simp only [String.toList_append, List.mem_append, not_or]
      exact ⟨⟨htext, hseparator⟩, hrest⟩

theorem slash_not_mem_ipv4Text (a : Nat) : '/' ∉ (ipv4Text a).toList := by
  apply slash_not_mem_intercalate (by decide)
  intro text htext
  obtain ⟨n, -, rfl⟩ := List.mem_map.1 htext
  exact slash_not_mem_toString n

theorem slash_not_mem_ipv6Text (pieces : List Nat) : '/' ∉ (ipv6Text pieces).toList := by
  have hjoin : ∀ ps : List Nat, '/' ∉ (":".intercalate (ps.map hexText)).toList := by
    intro ps
    apply slash_not_mem_intercalate (by decide)
    intro text htext
    obtain ⟨n, -, rfl⟩ := List.mem_map.1 htext
    exact slash_not_mem_hexText n
  unfold ipv6Text
  dsimp only
  split
  · simp only [String.toList_append, List.mem_append, not_or]
    exact ⟨⟨hjoin _, by decide⟩, hjoin _⟩
  · exact hjoin _

/-- A host that was read has no slash in its text. -/
def Host.IsPlain (host : Host) : Prop :=
  '/' ∉ host.text.toList

theorem isPlain_ipv4 (address : Nat) : (Host.ipv4 address).IsPlain :=
  slash_not_mem_ipv4Text address

theorem isPlain_ipv6 (pieces : List Nat) : (Host.ipv6 pieces).IsPlain := by
  unfold Host.IsPlain Host.text
  simp only [String.toList_append, List.mem_append, not_or]
  exact ⟨⟨by decide, slash_not_mem_ipv6Text pieces⟩, by decide⟩

theorem isPlain_of_bracketed? {s : List Char} {host : Host} (h : bracketed? s = some (some host)) :
    host.IsPlain := by
  unfold bracketed? at h
  split at h
  · split at h
    · obtain ⟨pieces, -, rfl⟩ := Option.map_eq_some_iff.1 (Option.some.inj h)
      exact isPlain_ipv6 pieces
    · simp at h
  · contradiction

theorem isPlain_of_freeHost? {s : List Char} {host : Host} (h : freeHost? s = some host) :
    host.IsPlain := by
  unfold freeHost? at h
  split at h
  · next found hfound =>
    subst h
    exact isPlain_of_bracketed? hfound
  · split at h
    · contradiction
    · next hallowed =>
      obtain rfl := Option.some.inj h
      unfold Host.IsPlain Host.text
      rw [String.toList_ofList]
      apply slash_not_mem_percentEncode
      intro hslash
      exact absurd (List.any_eq_true.2 ⟨'/', hslash, by decide⟩) hallowed

theorem isPlain_of_webHost? {s : List Char} {host : Host} (h : webHost? s = some host) :
    host.IsPlain := by
  unfold webHost? at h
  split at h
  · next found hfound =>
    subst h
    exact isPlain_of_bracketed? hfound
  · obtain ⟨domain, -, h⟩ := Option.bind_eq_some_iff.1 h
    split at h
    · contradiction
    · next hallowed =>
      split at h
      · obtain ⟨address, -, rfl⟩ := Option.map_eq_some_iff.1 h
        exact isPlain_ipv4 address
      · obtain rfl := Option.some.inj h
        unfold Host.IsPlain Host.text
        rw [String.toList_ofList]
        intro hslash
        have hany : domain.any (fun c =>
            c ∈ forbiddenInHost || c = '%' || c.toNat < 0x20 || c.toNat = 0x7F) :=
          List.any_eq_true.2 ⟨'/', hslash, by decide⟩
        exact hallowed (Bool.or_eq_true_iff.2 (Or.inr hany))

theorem slash_not_mem_userText (s : List Char) : '/' ∉ (userText s).toList := by
  have hencoded : ∀ t : List Char, '/' ∉ percentEncode userinfoSet t := fun t =>
    slash_not_mem_percentEncode fun _ => by decide
  unfold userText
  dsimp only
  split
  · next name password hcut =>
    rw [String.toList_append, String.toList_ofList, List.mem_append, not_or]
    refine ⟨hencoded name, ?_⟩
    split
    · simp
    · simp only [String.toList_append, String.toList_ofList, List.mem_append, not_or]
      exact ⟨by decide, hencoded password⟩
  · rw [String.toList_ofList]
    exact hencoded s

theorem slash_not_mem_text {a : Authority} (huser : '/' ∉ a.user.toList)
    (hhost : ∀ host, a.host = some host → host.IsPlain) : '/' ∉ a.text.toList := by
  unfold Authority.text
  simp only [String.toList_append, List.mem_append, not_or]
  refine ⟨⟨?_, ?_⟩, ?_⟩
  · split
    · simp
    · rw [String.toList_append, List.mem_append, not_or]
      exact ⟨huser, by decide⟩
  · cases hfound : a.host with
    | none => simp
    | some host => exact hhost host hfound
  · cases a.port with
    | none => simp
    | some port =>
      rw [Option.map_some, Option.getD_some, String.toList_append, List.mem_append, not_or]
      exact ⟨by decide, slash_not_mem_toString port⟩

def placeBehind (scheme : String) (family : Family) (path : List Char) (user : String)
    (place : List Char) : Option (Authority × List Char) := do
  let (hostText, rest) := cutHost false place
  let port ← port? scheme (rest.takeWhile (· != '\\'))
  let path := rest.dropWhile (· != '\\') ++ path
  if hostText.isEmpty then
    if family = .other && rest.isEmpty && user.isEmpty then some ({}, path) else none
  else
    let host ← if family = .web then webHost? hostText else freeHost? hostText
    some ({ user, host := some host, port }, path)

theorem authority?_eq (scheme : String) (family : Family) (ends : Bool) (s : List Char) :
    authority? scheme family ends s =
      let (whole, path) := (s.takeWhile (!isSlash family ·), s.dropWhile (!isSlash family ·))
      match cutUser whole with
      | none => placeBehind scheme family path "" whole
      | some (user, place) =>
        if user.isEmpty && place.isEmpty && !(ends && path.isEmpty) then none
        else placeBehind scheme family path (userText user) place := by
  unfold authority? placeBehind
  dsimp only
  cases cutUser (s.takeWhile (!isSlash family ·)) with
  | none => rfl
  | some found =>
    obtain ⟨user, place⟩ := found
    dsimp only
    split <;> rfl

theorem slash_not_mem_placeBehind {scheme : String} {family : Family} {path place rest : List Char}
    {user : String} {a : Authority} (huser : '/' ∉ user.toList)
    (h : placeBehind scheme family path user place = some (a, rest)) : '/' ∉ a.text.toList := by
  unfold placeBehind at h
  dsimp only at h
  obtain ⟨port, -, h⟩ := Option.bind_eq_some_iff.1 h
  split at h
  · split at h
    · rw [← (Prod.mk.inj (Option.some.inj h)).1]
      decide
    · contradiction
  · have hhost : ∀ host, host.IsPlain →
        '/' ∉ (Authority.text { user, host := some host, port }).toList := by
      intro host hhost
      apply slash_not_mem_text huser
      rintro _ ⟨⟩
      exact hhost
    split at h
    · obtain ⟨host, hfound, h⟩ := Option.bind_eq_some_iff.1 h
      rw [← (Prod.mk.inj (Option.some.inj h)).1]
      exact hhost host (isPlain_of_webHost? hfound)
    · obtain ⟨host, hfound, h⟩ := Option.bind_eq_some_iff.1 h
      rw [← (Prod.mk.inj (Option.some.inj h)).1]
      exact hhost host (isPlain_of_freeHost? hfound)

theorem slash_not_mem_authority? {scheme : String} {family : Family} {ends : Bool}
    {s path : List Char} {a : Authority} (h : authority? scheme family ends s = some (a, path)) :
    '/' ∉ a.text.toList := by
  rw [authority?_eq] at h
  dsimp only at h
  split at h
  · exact slash_not_mem_placeBehind (by decide) h
  · next user place _ =>
    split at h
    · contradiction
    · exact slash_not_mem_placeBehind (slash_not_mem_userText user) h

theorem slash_not_mem_localFile? {s : List Char} {a : Authority} {route : Route}
    (h : localFile? s = some (a, route)) : '/' ∉ a.text.toList := by
  have hfree : ∀ (host : Option Host) (parts : List (List Char)),
      (∀ found, host = some found → found.IsPlain) →
        '/' ∉ (Authority.text { host := if Route.namesDrive [] parts then none else host }).toList := by
    intro host parts hhost
    apply slash_not_mem_text (by simp)
    intro found hfound
    dsimp only at hfound
    split at hfound
    · contradiction
    · exact hhost found hfound
  unfold localFile? at h
  simp only [Option.bind_eq_bind, Option.pure_def] at h
  split at h
  · split at h
    · split at h
      · rw [← (Prod.mk.inj (Option.some.inj h)).1]
        exact hfree _ _ (by simp)
      · split at h
        · rw [← (Prod.mk.inj (Option.some.inj h)).1]
          exact hfree _ _ (by simp)
        · obtain ⟨host, hhost, h⟩ := Option.bind_eq_some_iff.1 h
          rw [← (Prod.mk.inj (Option.some.inj h)).1]
          apply hfree
          intro found hfound
          split at hfound
          · contradiction
          · obtain rfl := Option.some.inj hfound
            exact isPlain_of_webHost? hhost
    · rw [← (Prod.mk.inj (Option.some.inj h)).1]
      exact hfree _ _ (by simp)
  · rw [← (Prod.mk.inj (Option.some.inj h)).1]
    exact hfree _ _ (by simp)

end SecretDotenv.Url
