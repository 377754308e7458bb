import SecretDotenv.Proofs.Url.PathBytes

/-! Paths that stand for themselves in a URL. A path that comes back as it was has lost no byte on
the way, so it has no mark, no escape, no backslash and no blank at its end; then only the drives
of local files, which are written in a way of their own, are left to tell it from what comes back. -/
namespace SecretDotenv.Url

open SecretDotenv.Text SecretDotenv.Machine

/-- A component of a path: what stands between two slashes, if it is neither empty nor dots. -/
structure IsComponent (part : List Char) : Prop where
  ne_nil : part ≠ []
  ne_here : part ≠ ['.']
  ne_up : part ≠ ['.', '.']
  slash : '/' ∉ part

instance (part : List Char) : Decidable (IsComponent part) :=
  decidable_of_iff (part ≠ [] ∧ part ≠ ['.'] ∧ part ≠ ['.', '.'] ∧ '/' ∉ part)
    ⟨fun ⟨hnil, hhere, hup, hslash⟩ => ⟨hnil, hhere, hup, hslash⟩,
      fun h => ⟨h.ne_nil, h.ne_here, h.ne_up, h.slash⟩⟩

def endsInDrive (path : List Char) : Bool :=
  match path.reverse with
  | mark :: letter :: _ => letter.isAlpha && (mark = ':' || mark = '|')
  | _ => false

/-- Components that a URL names as they are. -/
structure IsLiteral (parts : List (List Char)) : Prop where
  marks : ∀ part ∈ parts, ∀ c ∈ part, c ∉ ['#', '?', '\\', '\t', '\n', '\r']
  last : ∀ c ∈ (rooted parts).getLast?, 0x20 < c.toNat
  escape : hasEscape (rooted parts) = false
  /-- The first component is no drive that is written with a bar or goes on behind its colon. -/
  drive : ∀ part ∈ parts.head?, Route.withDrive part = [part]
  end_drive : endsInDrive (rooted parts) = false

instance (parts : List (List Char)) : Decidable (IsLiteral parts) :=
  decidable_of_iff
    ((∀ part ∈ parts, part.all (· ∉ ['#', '?', '\\', '\t', '\n', '\r'])) ∧
      (rooted parts).getLast?.all (0x20 < ·.toNat) ∧ hasEscape (rooted parts) = false ∧
      (∀ part ∈ parts.head?, Route.withDrive part = [part]) ∧ endsInDrive (rooted parts) = false)
    ⟨fun ⟨hmarks, hlast, hescape, hdrive, hend⟩ =>
      ⟨fun part hpart => by simpa using hmarks part hpart, by simpa [Option.all_eq_true] using hlast,
        hescape, hdrive, hend⟩,
      fun h => ⟨fun part hpart => by simpa using h.marks part hpart,
        by simpa [Option.all_eq_true] using h.last, h.escape, h.drive, h.end_drive⟩⟩

theorem startsWithDigits_append {a : List Char} (b : List Char) (h : startsWithDigits a) :
    startsWithDigits (a ++ b) := by
  match a with
  | [] => contradiction
  | [c] => contradiction
  | c :: d :: a => exact h

theorem hasEscape_append_left {a : List Char} (b : List Char) (h : hasEscape a) :
    hasEscape (a ++ b) := by
  induction a with
  | nil => contradiction
  | cons c a ih =>
    rw [List.cons_append, hasEscape]
    rw [hasEscape, Bool.or_eq_true, Bool.and_eq_true] at h
    rcases h with ⟨hc, hdigits⟩ | h
    · rw [hc, startsWithDigits_append b hdigits]
      rfl
    · rw [ih h, Bool.or_true]

theorem hasEscape_append_right (a : List Char) {b : List Char} (h : hasEscape b) :
    hasEscape (a ++ b) := by
  induction a with
  | nil => exact h
  | cons c a ih => rw [List.cons_append, hasEscape, ih, Bool.or_true]

theorem hasEscape_right {a b : List Char} (h : hasEscape (a ++ b) = false) :
    hasEscape b = false := by
  rw [Bool.eq_false_iff] at h ⊢
  exact fun hb => h (hasEscape_append_right a hb)

theorem hasEscape_of_mem {parts : List (List Char)} (h : hasEscape (rooted parts) = false) :
    ∀ part ∈ parts, hasEscape part = false := by
  intro part hpart
  obtain ⟨front, back, rfl⟩ := List.append_of_mem hpart
  rw [Bool.eq_false_iff]
  intro hescape
  have hbehind : hasEscape (rooted (part :: back)) :=
    hasEscape_append_right ['/'] (hasEscape_append_left (rooted back) hescape)
  rw [rooted_append, hasEscape_append_right _ hbehind] at h
  contradiction

namespace Route

theorem eq_of_toLower_e {c : Char} (h : c.toLower = 'e') : c = 'e' ∨ c = 'E' := by
  revert h
  refine ascii_cases (P := fun c => c.toLower = 'e' → c = 'e' ∨ c = 'E') (by decide)
    (fun c hc h => ?_) c
  rw [toLower_of_le hc] at h
  exact Or.inl h

theorem percentDecode_of_dot {part l : List Char}
    (h : part.map Char.toLower = '.' :: l ∨ part.map Char.toLower = '%' :: '2' :: 'e' :: l) :
    ∃ rest, rest.map Char.toLower = l ∧ percentDecode part = 0x2E :: percentDecode rest := by
  rcases h with h | h
  · obtain ⟨c, rest, rfl, hc, hrest⟩ := List.map_eq_cons_iff.1 h
    obtain rfl := eq_of_toLower (by decide) hc
    exact ⟨rest, hrest, percentDecode_cons (by decide) rest⟩
  · obtain ⟨c, rest, rfl, hc, h⟩ := List.map_eq_cons_iff.1 h
    obtain ⟨d, rest, rfl, hd, h⟩ := List.map_eq_cons_iff.1 h
    obtain ⟨x, rest, rfl, hx, hrest⟩ := List.map_eq_cons_iff.1 h
    obtain rfl := eq_of_toLower (by decide) hc
    obtain rfl := eq_of_toLower (by decide) hd
    refine ⟨rest, hrest, ?_⟩
    rcases eq_of_toLower_e hx with rfl | rfl <;> exact percentDecode_escape (by decide) (by decide) rest

theorem percentDecode_of_isHere {part : List Char} (h : isHere part) :
    percentDecode part = utf8 ['.'] := by
  simp only [isHere, decide_eq_true_eq, List.mem_cons, List.not_mem_nil, or_false] at h
  obtain ⟨rest, hrest, hdecoded⟩ := percentDecode_of_dot (l := []) h
  rw [hdecoded, List.map_eq_nil_iff.1 hrest]
  rfl

theorem percentDecode_of_isUp {part : List Char} (h : isUp part) :
    percentDecode part = utf8 ['.', '.'] := by
  have hfirst : ∃ l, (l = ['.'] ∨ l = ['%', '2', 'e']) ∧
      (part.map Char.toLower = '.' :: l ∨ part.map Char.toLower = '%' :: '2' :: 'e' :: l) := by
    simp only [isUp, decide_eq_true_eq, List.mem_cons, List.not_mem_nil, or_false] at h
    rcases h with h | h | h | h
    · exact ⟨['.'], Or.inl rfl, Or.inl h⟩
    · exact ⟨['%', '2', 'e'], Or.inr rfl, Or.inl h⟩
    · exact ⟨['.'], Or.inl rfl, Or.inr h⟩
    · exact ⟨['%', '2', 'e'], Or.inr rfl, Or.inr h⟩
  obtain ⟨l, hl, hpart⟩ := hfirst
  obtain ⟨rest, rfl, hdecoded⟩ := percentDecode_of_dot hpart
  obtain ⟨last, hlast, hrest⟩ := percentDecode_of_dot (l := []) hl
  rw [hdecoded, hrest, List.map_eq_nil_iff.1 hlast]
  rfl

theorem not_dots {part : List Char} (h : IsComponent part) (hescape : hasEscape part = false) :
    isHere (percentEncode pathSet part) = false ∧ isUp (percentEncode pathSet part) = false := by
  have hdecoded : percentDecode (percentEncode pathSet part) = utf8 part := by
    rw [percentDecode_percentEncode, (percentDecode_hasEscape part).1 hescape]
  constructor
  · rw [Bool.eq_false_iff]
    intro hhere
    rw [percentDecode_of_isHere hhere] at hdecoded
    exact h.ne_here (utf8_injective hdecoded).symm
  · rw [Bool.eq_false_iff]
    intro hup
    rw [percentDecode_of_isUp hup] at hdecoded
    exact h.ne_up (utf8_injective hdecoded).symm

theorem walk_of_not_dots (isLocal : Bool) {parts rest : List (List Char)}
    (h : ∀ p ∈ rest, isHere p = false ∧ isUp p = false) (hbehind : isLocal = false ∨ parts ≠ []) :
    walk isLocal parts rest = parts ++ rest := by
  have hstep : ∀ {parts part}, (isLocal = false ∨ parts ≠ []) → isHere part = false →
      isUp part = false → step isLocal parts part = parts ++ [part] := by
    intro parts part hbehind hhere hup
    have hplain : (isLocal && parts.isEmpty) = false := by
      rcases hbehind with rfl | hne
      · rfl
      · simp [hne]
    simp [step, hhere, hup, hplain]
  fun_induction walk isLocal parts rest with
  | case1 => simp
  | case2 parts last hdots =>
    obtain ⟨hhere, hup⟩ := h last List.mem_cons_self
    simp [hhere, hup] at hdots
  | case3 parts last =>
    obtain ⟨hhere, hup⟩ := h last List.mem_cons_self
    exact hstep hbehind hhere hup
  | case4 parts part rest _ ih =>
    obtain ⟨⟨hhere, hup⟩, hrest⟩ := List.forall_mem_cons.1 h
    rw [hstep hbehind hhere hup] at ih ⊢
    rw [ih hrest (Or.inr (by simp)), List.append_assoc, List.singleton_append]

theorem walk_local {part : List Char} {rest : List (List Char)}
    (h : ∀ p ∈ part :: rest, isHere p = false ∧ isUp p = false) :
    walk true [] (part :: rest) = withDrive part ++ rest := by
  obtain ⟨⟨hhere, hup⟩, hrest⟩ := List.forall_mem_cons.1 h
  have hfirst : step true [] part = withDrive part := by simp [step, hhere, hup]
  have hne : withDrive part ≠ [] := by
    obtain ⟨_, -, -, hdrive⟩ | ⟨_, _, -, -, -, hdrive⟩ | hdrive := withDrive_cases part <;>
      simp [hdrive]
  cases rest with
  | nil => simp [walk, hhere, hup, hfirst]
  | cons next rest => rw [walk, hfirst, walk_of_not_dots true hrest (Or.inr hne)]; simp

end Route

theorem percentEncode_rooted (parts : List (List Char)) :
    percentEncode pathSet (rooted parts) = rooted (parts.map (percentEncode pathSet)) := by
  induction parts with
  | nil => rfl
  | cons part parts ih =>
    rw [rooted_cons, percentEncode_cons_raw rfl, percentEncode_append, ih, List.map_cons,
      rooted_cons]

section Components

variable {first : List Char} {others : List (List Char)}
  (hcomponents : ∀ part ∈ first :: others, IsComponent part)
  (hescape : hasEscape (rooted (first :: others)) = false)
include hcomponents hescape

theorem not_dots_of_mem_map :
    ∀ part ∈ (first :: others).map (percentEncode pathSet),
      Route.isHere part = false ∧ Route.isUp part = false := by
  intro part hpart
  obtain ⟨raw, hraw, rfl⟩ := List.mem_map.1 hpart
  exact Route.not_dots (hcomponents raw hraw) (hasEscape_of_mem hescape raw hraw)

theorem urlParts_components :
    urlParts (first ++ rooted others) = (first :: others).map (percentEncode pathSet) := by
  have hslash : ∀ part ∈ (first :: others).map (percentEncode pathSet), ∀ c ∈ part,
      isSlash .other c = false := by
    intro part hpart c hc
    obtain ⟨raw, hraw, rfl⟩ := List.mem_map.1 hpart
    refine isSlash_of_mem_percentEncode (fun x hx => ?_) hc
    have hne : x ≠ '/' := fun heq => (hcomponents raw hraw).slash (heq ▸ hx)
    simp [isSlash, hne]
  obtain ⟨hfirst, hothers⟩ := List.forall_mem_cons.1 hslash
  rw [urlParts, percentEncode_append, percentEncode_rooted, splitOn_rooted .other hfirst hothers]
  exact Route.walk_of_not_dots false (not_dots_of_mem_map hcomponents hescape) (Or.inl rfl)

theorem localParts_components (hback : ∀ part ∈ first :: others, '\\' ∉ part) :
    localParts (percentEncode pathSet first ++ rooted (others.map (percentEncode pathSet))) =
      Route.withDrive (percentEncode pathSet first) ++ others.map (percentEncode pathSet) := by
  have hslash : ∀ part ∈ (first :: others).map (percentEncode pathSet), ∀ c ∈ part,
      isSlash .file c = false := by
    intro part hpart c hc
    obtain ⟨raw, hraw, rfl⟩ := List.mem_map.1 hpart
    refine isSlash_of_mem_percentEncode (fun x hx => ?_) hc
    have hne : x ≠ '/' := fun heq => (hcomponents raw hraw).slash (heq ▸ hx)
    have hforward : x ≠ '\\' := fun heq => hback raw hraw (heq ▸ hx)
    simp [isSlash, hne, hforward]
  obtain ⟨hfirst, hothers⟩ := List.forall_mem_cons.1 hslash
  have hempty : percentEncode pathSet first ≠ [] := by
    obtain ⟨c, rest, hfirst⟩ := List.exists_cons_of_ne_nil (hcomponents first List.mem_cons_self).ne_nil
    rw [hfirst]
    exact percentEncode_ne_nil pathSet c rest
  rw [localParts, splitOn_rooted .file hfirst hothers,
    Route.walk_local (not_dots_of_mem_map hcomponents hescape)]
  obtain ⟨letter, -, -, hdrive⟩ | ⟨letter, rest, -, -, -, hdrive⟩ | hdrive :=
    Route.withDrive_cases (percentEncode pathSet first)
  · simp [hdrive, Route.withoutEmptyStart]
  · simp [hdrive, Route.withoutEmptyStart]
  · simp [hdrive, Route.withoutEmptyStart, hempty]

end Components

theorem percentEncode_eq_cons {c : Char} (hc : c ≠ '%') {s rest : List Char}
    (h : percentEncode pathSet s = c :: rest) :
    ∃ more, s = c :: more ∧ rest = percentEncode pathSet more := by
  cases s with
  | nil => simp [percentEncode] at h
  | cons d s =>
    cases hd : pathSet d with
    | true =>
      obtain ⟨more, hmore⟩ := encoded_eq_percent d
      rw [percentEncode_cons, if_pos hd, hmore, List.cons_append] at h
      exact absurd (List.cons.inj h).1.symm hc
    | false =>
      rw [percentEncode_cons_raw hd] at h
      obtain ⟨rfl, rfl⟩ := List.cons.inj h
      exact ⟨s, rfl, rfl⟩

theorem ne_percent_of_isAlpha {c : Char} (h : c.isAlpha) : c ≠ '%' := by
  rintro rfl
  contradiction

theorem lt_of_isAlpha {c : Char} (h : c.isAlpha) : c.toNat < 128 := by
  have hnat : c.toNat = c.val.toNat := rfl
  simp only [Char.isAlpha, Char.isUpper, Char.isLower, Bool.or_eq_true, Bool.and_eq_true,
    decide_eq_true_eq, UInt32.le_iff_toNat_le, ge_iff_le] at h
  simp at h
  omega

theorem lt_of_isDigit {c : Char} (h : c.isDigit) : c.toNat < 128 := by
  have hnat : c.toNat = c.val.toNat := rfl
  simp only [Char.isDigit, Bool.and_eq_true, decide_eq_true_eq, UInt32.le_iff_toNat_le, ge_iff_le] at h
  simp at h
  omega

theorem pathSet_of_isAlpha {c : Char} (h : c.isAlpha) : pathSet c = false := by
  revert h
  exact ascii_cases (P := fun c => c.isAlpha = true → pathSet c = false) (by decide)
    (fun c hc h => absurd (lt_of_isAlpha h) (Nat.not_lt.2 hc)) c

theorem withDrive_percentEncode {part : List Char} (h : Route.withDrive part = [part]) :
    Route.withDrive (percentEncode pathSet part) = [percentEncode pathSet part] := by
  obtain ⟨letter, halpha, hpart, -⟩ | ⟨letter, rest, halpha, hrest, hpart, -⟩ | hdrive :=
    Route.withDrive_cases (percentEncode pathSet part)
  · obtain ⟨more, rfl, hmore⟩ := percentEncode_eq_cons (ne_percent_of_isAlpha halpha) hpart
    obtain ⟨last, rfl, hlast⟩ := percentEncode_eq_cons (by decide) hmore.symm
    cases last with
    | nil => simp [Route.withDrive, Route.isDrive, halpha] at h
    | cons c last => exact absurd hlast.symm (percentEncode_ne_nil pathSet c last)
  · obtain ⟨more, rfl, hmore⟩ := percentEncode_eq_cons (ne_percent_of_isAlpha halpha) hpart
    obtain ⟨last, rfl, hlast⟩ := percentEncode_eq_cons (by decide) hmore.symm
    cases last with
    | nil => exact absurd hlast hrest
    | cons c last => simp [Route.withDrive, halpha] at h
  · exact hdrive

theorem percentDecode_drive {letter : Char} (halpha : letter.isAlpha) :
    percentDecode (rooted [[letter, ':']]) = utf8 ['/', letter] ++ [0x3A] := by
  have hpercent : '%' ∉ rooted [[letter, ':']] := by
    simp [(ne_percent_of_isAlpha halpha).symm]
  rw [percentDecode_eq hpercent]
  exact utf8_append ['/', letter] [':']

theorem drive_changes {part : List Char} (hescape : hasEscape part = false)
    (h : Route.withDrive part ≠ [part]) :
    let bytes := percentDecode (rooted (Route.withDrive (percentEncode pathSet part)))
    bytes.length = (utf8 (rooted [part])).length ∧ bytes ≠ utf8 (rooted [part]) ∨
      bytes.length = (utf8 (rooted [part])).length + 1 := by
  obtain ⟨letter, halpha, rfl, hdrive⟩ | ⟨letter, rest, halpha, hne, rfl, -⟩ | hdrive :=
    Route.withDrive_cases part
  · have hraw : percentEncode pathSet [letter, '|'] = [letter, '|'] := by
      rw [percentEncode_cons_raw (pathSet_of_isAlpha halpha)]
      rfl
    have hbar : utf8 (rooted [[letter, '|']]) = utf8 ['/', letter] ++ [0x7C] :=
      utf8_append ['/', letter] ['|']
    left
    rw [hraw, hdrive, percentDecode_drive halpha, hbar]
    exact ⟨by simp, fun heq => absurd (List.append_cancel_left heq) (by decide)⟩
  · have hraw : percentEncode pathSet (letter :: ':' :: rest) =
        letter :: ':' :: percentEncode pathSet rest := by
      rw [percentEncode_cons_raw (pathSet_of_isAlpha halpha), percentEncode_cons_raw (by decide)]
    have hnone : hasEscape ([letter, ':'] ++ rest) = false := hescape
    have hrest : percentDecode (percentEncode pathSet rest) = utf8 rest := by
      rw [percentDecode_percentEncode, (percentDecode_hasEscape rest).1 (hasEscape_right hnone)]
    have hwhole : utf8 (rooted [letter :: ':' :: rest]) =
        utf8 ['/', letter] ++ 0x3A :: utf8 rest := by
      rw [rooted_cons, rooted_nil, List.append_nil]
      exact utf8_append ['/', letter] (':' :: rest)
    have hdrive : Route.withDrive (letter :: ':' :: percentEncode pathSet rest) =
        [[letter, ':']] ++ [percentEncode pathSet rest] := by
      obtain ⟨c, more, rfl⟩ := List.exists_cons_of_ne_nil hne
      obtain ⟨d, last, hlast⟩ := List.exists_cons_of_ne_nil (percentEncode_ne_nil pathSet c more)
      simp [hlast, Route.withDrive, halpha]
    right
    rw [hraw, hdrive, percentDecode_rooted_append, percentDecode_drive halpha, hwhole, rooted_cons,
      rooted_nil, List.append_nil, percentDecode_slash, hrest]
    simp
    omega
  · exact absurd hdrive h

theorem eq_concat_of_utf8_reverse {s : List Char} {b : UInt8} {rest : List UInt8}
    (h : (utf8 s).reverse = b :: rest) (hb : b.toNat < 128) :
    ∃ front c, s = front ++ [c] ∧ c.toNat = b.toNat ∧ (utf8 front).reverse = rest := by
  rcases List.eq_nil_or_concat s with rfl | ⟨front, c, rfl⟩
  · simp at h
  have hsplit : (String.utf8EncodeChar c).reverse ++ (utf8 front).reverse = b :: rest := by
    rw [← List.reverse_append, ← h, List.concat_eq_append, utf8_append]
    simp [utf8]
  have hmem : b ∈ String.utf8EncodeChar c := by
    obtain ⟨x, more, hmore⟩ := List.exists_cons_of_ne_nil
      (List.reverse_ne_nil_iff.2 (String.utf8EncodeChar_ne_nil (c := c)))
    rw [hmore] at hsplit
    rw [← List.mem_reverse, hmore, ← (List.cons.inj hsplit).1]
    exact List.mem_cons_self
  have hvalue : c.toNat < 128 ∧ b.toNat = c.toNat := by
    rcases mem_utf8EncodeChar hmem with hvalue | hvalue
    · exact hvalue
    · omega
  rw [utf8EncodeChar_of_lt hvalue.1] at hsplit
  exact ⟨front, c, List.concat_eq_append, hvalue.2.symm, (List.cons.inj hsplit).2⟩

theorem isAlphaByte_eq {b : UInt8} {c : Char} (h : c.toNat = b.toNat) :
    filePath?.isAlphaByte b = c.isAlpha := by
  have hnat : c.toNat = c.val.toNat := rfl
  rw [Bool.eq_iff_iff]
  simp only [filePath?.isAlphaByte, Char.isAlpha, Char.isUpper, Char.isLower, Bool.or_eq_true,
    Bool.and_eq_true, decide_eq_true_eq, UInt32.le_iff_toNat_le, UInt8.le_iff_toNat_le, ge_iff_le]
  simp
  omega

theorem drivePath_of_endsInDrive {s : List Char} (h : endsInDrive ('/' :: s)) :
    (drivePath (utf8 ('/' :: s))).bytes = utf8 ('/' :: s) ++ [Path.slash] := by
  unfold endsInDrive at h
  split at h
  · next mark letter front hreverse =>
    rw [Bool.and_eq_true, Bool.or_eq_true, decide_eq_true_eq, decide_eq_true_eq] at h
    obtain ⟨halpha, hmark⟩ := h
    have hpath : '/' :: s = front.reverse ++ [letter, mark] := by
      rw [← List.reverse_reverse ('/' :: s), hreverse]
      simp
    have hone : ∀ c : Char, c.toNat < 128 → utf8 [c] = [UInt8.ofNat c.toNat] := fun c hc => by
      rw [utf8, List.flatMap_singleton, utf8EncodeChar_of_lt hc]
    have hascii : mark.toNat < 128 := by rcases hmark with rfl | rfl <;> decide
    have hbytes : utf8 ('/' :: s) =
        utf8 front.reverse ++ [UInt8.ofNat letter.toNat, UInt8.ofNat mark.toNat] := by
      rw [hpath, utf8_append, ← List.singleton_append, utf8_append, hone _ (lt_of_isAlpha halpha),
        hone _ hascii]
      rfl
    -- the slash in front is no letter, so a byte stands in front of the drive
    have hnonempty : utf8 front.reverse ≠ [] := by
      intro hnil
      rw [utf8_injective (hnil.trans utf8_nil.symm), List.nil_append] at hpath
      obtain ⟨rfl, -⟩ := List.cons.inj hpath
      exact absurd halpha (by decide)
    obtain ⟨b, rest, hrest⟩ := List.exists_cons_of_ne_nil (List.reverse_ne_nil_iff.2 hnonempty)
    have hreversed : (utf8 ('/' :: s)).reverse =
        UInt8.ofNat mark.toNat :: UInt8.ofNat letter.toNat :: b :: rest := by
      rw [hbytes, List.reverse_append, hrest]
      rfl
    have hletter : letter.toNat = (UInt8.ofNat letter.toNat).toNat := by
      have hlt := lt_of_isAlpha halpha
      simp
      omega
    have hbyte : UInt8.ofNat mark.toNat = 0x3A ∨ UInt8.ofNat mark.toNat = 0x7C := by
      rcases hmark with rfl | rfl
      · exact Or.inl rfl
      · exact Or.inr rfl
    unfold drivePath
    rw [hreversed]
    dsimp only
    rw [if_pos (by simp [isAlphaByte_eq hletter, halpha, hbyte])]
  · contradiction

theorem drivePath_of_not_endsInDrive {s : List Char} (h : endsInDrive s = false) :
    (drivePath (utf8 s)).bytes = utf8 s := by
  unfold drivePath
  split
  · next mark letter b rest hreverse =>
    rw [if_neg]
    intro hdrive
    rw [Bool.and_eq_true, Bool.or_eq_true, decide_eq_true_eq, decide_eq_true_eq] at hdrive
    obtain ⟨halpha, hmark⟩ := hdrive
    have hascii : mark.toNat < 128 := by rcases hmark with rfl | rfl <;> decide
    have hletter : letter.toNat < 128 := by
      simp only [filePath?.isAlphaByte, Bool.or_eq_true, Bool.and_eq_true, decide_eq_true_eq,
        UInt8.le_iff_toNat_le] at halpha
      simp at halpha
      omega
    obtain ⟨front, c, rfl, hc, hfront⟩ := eq_concat_of_utf8_reverse hreverse hascii
    obtain ⟨more, d, rfl, hd, -⟩ := eq_concat_of_utf8_reverse hfront hletter
    have hcolon : c = ':' ∨ c = '|' := by
      rcases hmark with rfl | rfl
      · exact Or.inl (Char.toNat_inj.1 hc)
      · exact Or.inr (Char.toNat_inj.1 hc)
    rw [isAlphaByte_eq hd] at halpha
    have hends : endsInDrive (more ++ [d] ++ [c]) = true := by
      simp [endsInDrive, halpha, hcolon]
    rw [hends] at h
    contradiction
  · rfl

/-- The slash behind a drive is put exactly behind paths that end like one. -/
theorem drivePath_utf8 (s : List Char) :
    (drivePath (utf8 ('/' :: s))).bytes = utf8 ('/' :: s) ↔ endsInDrive ('/' :: s) = false := by
  refine ⟨fun h => Bool.eq_false_iff.2 fun hends => ?_, drivePath_of_not_endsInDrive⟩
  rw [drivePath_of_endsInDrive hends] at h
  simpa using congrArg List.length h

theorem drivePath_withDrive {first : List Char} (hescape : hasEscape first = false)
    (tail : List Char) :
    (drivePath (percentDecode (rooted (Route.withDrive (percentEncode pathSet first))) ++
        utf8 tail)).bytes = utf8 ('/' :: (first ++ tail)) ↔
      Route.withDrive first = [first] ∧ endsInDrive ('/' :: (first ++ tail)) = false := by
  have hwhole : utf8 ('/' :: (first ++ tail)) = utf8 (rooted [first]) ++ utf8 tail := by
    rw [← utf8_append]
    simp
  by_cases hdrive : Route.withDrive first = [first]
  · have hfirst : percentDecode (rooted [percentEncode pathSet first]) = utf8 (rooted [first]) := by
      rw [rooted_cons, rooted_nil, List.append_nil, percentDecode_slash, percentDecode_percentEncode,
        (percentDecode_hasEscape first).1 hescape, rooted_cons, rooted_nil, List.append_nil]
      rfl
    rw [withDrive_percentEncode hdrive, hfirst, ← hwhole, drivePath_utf8, and_iff_right hdrive]
  · refine iff_of_false (fun h => ?_) fun h => hdrive h.1
    rw [hwhole] at h
    rcases drive_changes hescape hdrive with ⟨hlength, hne⟩ | hlonger
    · rcases drivePath_cases (percentDecode (rooted (Route.withDrive (percentEncode pathSet first))) ++
          utf8 tail) with hbytes | hbytes
      · rw [hbytes] at h
        exact hne (List.append_cancel_right h)
      · rw [hbytes] at h
        have hlengths := congrArg List.length h
        simp only [List.length_append, List.length_singleton] at hlengths
        omega
    · have hlengths := congrArg List.length h
      rcases drivePath_cases (percentDecode (rooted (Route.withDrive (percentEncode pathSet first))) ++
          utf8 tail) with hbytes | hbytes <;>
        simp only [hbytes, List.length_append, List.length_singleton] at hlengths <;>
        omega

theorem filePath_eq {u : Url} {s : List Char} (hroute : u.route = Route.ofParts (urlParts s)) :
    ∃ t, rooted (urlParts s) = '/' :: t ∧
      Secret.SopsEnv.filePath u =
        if t.all (· = '/') then .error (.noPath u)
        else .ok (drivePath (percentDecode (rooted (localParts t)))) := by
  have hne : urlParts s ≠ [] := by
    refine Route.walk_ne_nil _ fun hnil => ?_
    have hsplit := rooted_splitOn .other (percentEncode pathSet s)
    rw [hnil] at hsplit
    simp at hsplit
  obtain ⟨first, others, hparts⟩ := List.exists_cons_of_ne_nil hne
  have hpath : u.path.toList = rooted (urlParts s) := by
    rw [Url.path, hroute, Route.ofParts, text_segments, List.flatMap_map]
    exact List.flatMap_congr fun part _ => by rw [String.toList_ofList]
  have hraw : ∀ c ∈ first ++ rooted others, pathSet c = false := by
    have hpieces : ∀ part ∈ splitOn (isSlash .other) (percentEncode pathSet s), ∀ c ∈ part,
        pathSet c = false := by
      intro part hpart c hc
      have hmem : c ∈ rooted (splitOn (isSlash .other) (percentEncode pathSet s)) :=
        List.mem_flatMap.2 ⟨part, hpart, List.mem_cons_of_mem _ hc⟩
      rw [rooted_splitOn, map_forward_other] at hmem
      rcases List.mem_cons.1 hmem with rfl | hmem
      · rfl
      · exact pathSet_of_mem_percentEncode hmem
    have hall : ∀ part ∈ first :: others, ∀ c ∈ part, pathSet c = false := by
      rw [← hparts]
      exact Route.forall_mem_walk (P := fun part => ∀ c ∈ part, pathSet c = false) (by simp) (by simp)
        hpieces
    intro c hc
    have hmem : c ∈ rooted (first :: others) := List.mem_cons_of_mem _ hc
    rcases mem_rooted hmem with rfl | ⟨part, hpart, hc⟩
    · rfl
    · exact hall part hpart c hc
  refine ⟨first ++ rooted others, by rw [hparts, rooted_cons], ?_⟩
  have htext : u.path = String.ofList ('/' :: (first ++ rooted others)) := by
    rw [← String.toList_inj, hpath, hparts, String.toList_ofList, rooted_cons]
  obtain ⟨file, hfile, hhost, hlocal⟩ := ofString?_file hraw
  unfold Secret.SopsEnv.filePath
  rw [htext, hfile, Option.bind_some, filePath?_segments hhost hlocal, String.toList_ofList]
  rfl

theorem solid_drivePath (bytes : List UInt8) : solid (drivePath bytes).bytes = solid bytes := by
  rcases drivePath_cases bytes with h | h
  · rw [h]
  · rw [h, solid_append, solid_cons, if_pos rfl, solid_nil, Nat.add_zero]

/-- No file has more bytes than the text that named it, and if it has as many then nothing of the
text was lost on the way. -/
theorem solid_filePath {s t : List Char} {path : Path}
    (hpath : rooted (urlParts (keptPath s)) = '/' :: t)
    (h : path = drivePath (percentDecode (rooted (localParts t)))) :
    solid path.bytes ≤ solid (utf8 s) ∧ (solid path.bytes = solid (utf8 s) →
      keptPath s = s ∧ hasEscape s = false ∧ '\\' ∉ t) := by
  have hlocal := weight_localParts_le t
  have hurl := weight_urlParts_le (keptPath s)
  have hmiddle : weight (urlParts (keptPath s)) = solid (percentDecode t) := by
    rw [weight, hpath, solid_percentDecode_slash]
  have hdecoded := solid_percentDecode_le (keptPath s)
  have hsheds := sheds_keptPath s
  have hkept := hsheds.le
  have hsolid : solid path.bytes = weight (localParts t) := by rw [h, solid_drivePath, weight]
  refine ⟨by omega, fun hsame => ?_⟩
  have hself : keptPath s = s := by
    rcases hsheds with hself | hlost
    · exact hself
    · omega
  refine ⟨hself, ?_, List.count_eq_zero.1 (by omega)⟩
  rw [hself] at hurl hdecoded hmiddle
  rw [Bool.eq_false_iff]
  intro hescape
  have hless := (percentDecode_hasEscape s).2 hescape
  omega

section Components

variable {first : List Char} {others : List (List Char)}
  (hcomponents : ∀ part ∈ first :: others, IsComponent part)
include hcomponents

theorem filePath_components {u : Url} (hescape : hasEscape (rooted (first :: others)) = false)
    (hback : ∀ part ∈ first :: others, '\\' ∉ part)
    (hroute : u.route = Route.ofParts (urlParts (first ++ rooted others))) :
    Secret.SopsEnv.filePath u = .ok (Path.ofString (String.ofList (rooted (first :: others)))) ↔
      Route.withDrive first = [first] ∧ endsInDrive (rooted (first :: others)) = false := by
  have hfirst := hasEscape_of_mem hescape first List.mem_cons_self
  have hdecoded : percentDecode (rooted (others.map (percentEncode pathSet))) =
      utf8 (rooted others) := by
    have hwhole : hasEscape ('/' :: first ++ rooted others) = false := hescape
    rw [← percentEncode_rooted, percentDecode_percentEncode,
      (percentDecode_hasEscape _).1 (hasEscape_right hwhole)]
  obtain ⟨t, hpath, hfile⟩ := filePath_eq hroute
  rw [urlParts_components hcomponents hescape, List.map_cons, rooted_cons] at hpath
  obtain rfl := (List.cons.inj hpath).2
  have hnamed : ¬(percentEncode pathSet first ++
      rooted (others.map (percentEncode pathSet))).all (· = '/') := by
    obtain ⟨hne, -, -, hslash⟩ := hcomponents first List.mem_cons_self
    obtain ⟨c, rest, rfl⟩ := List.exists_cons_of_ne_nil hne
    obtain ⟨x, hx⟩ := List.exists_mem_of_ne_nil _ (percentEncode_ne_nil pathSet c rest)
    rw [List.all_eq_true]
    intro hall
    obtain rfl : x = '/' := of_decide_eq_true (hall x (List.mem_append_left _ hx))
    exact slash_not_mem_percentEncode (fun hmem => absurd hmem hslash) hx
  rw [hfile, if_neg hnamed, localParts_components hcomponents hescape hback,
    percentDecode_rooted_append, hdecoded, Except.ok.injEq, rooted_cons,
    ← drivePath_withDrive hfirst (rooted others)]
  constructor
  · intro h
    rw [h, Path.ofString, String.toList_ofList]
  · intro h
    rw [Path.ofString, String.toList_ofList, ← h]

theorem mem_path {part : List Char} (hpart : part ∈ first :: others) {c : Char} (hc : c ∈ part) :
    c ∈ first ++ rooted others := by
  have hrooted : c ∈ rooted (first :: others) :=
    List.mem_flatMap.2 ⟨part, hpart, List.mem_cons_of_mem _ hc⟩
  rcases List.mem_cons.1 hrooted with rfl | hrooted
  · exact absurd hc (hcomponents part hpart).slash
  · exact hrooted

theorem getLast?_path : (first ++ rooted others).getLast? = (rooted (first :: others)).getLast? := by
  obtain ⟨c, rest, rfl⟩ := List.exists_cons_of_ne_nil (hcomponents first List.mem_cons_self).ne_nil
  exact List.getLast?_cons_cons.symm

theorem isLiteral_of_filePath {u : Url}
    (hroute : u.route = Route.ofParts (urlParts (keptPath (first ++ rooted others))))
    (h : Secret.SopsEnv.filePath u = .ok (Path.ofString (String.ofList (rooted (first :: others))))) :
    IsLiteral (first :: others) := by
  obtain ⟨t, hpath, hfile⟩ := filePath_eq hroute
  have hopened := h
  rw [hfile] at hopened
  split at hopened
  · contradiction
  obtain ⟨-, hlossless⟩ := solid_filePath hpath (Except.ok.inj hopened).symm
  have hsame : solid (Path.ofString (String.ofList (rooted (first :: others)))).bytes =
      solid (utf8 (first ++ rooted others)) := by
    rw [Path.ofString, String.toList_ofList, rooted_cons, solid_utf8_cons]
    exact Nat.zero_add _
  obtain ⟨hkept, hnone, hback⟩ := hlossless hsame
  have hescape : hasEscape (rooted (first :: others)) = false := hnone
  obtain ⟨hmarks, hend⟩ := keptPath_eq_self_iff.1 hkept
  rw [hkept] at hroute hpath
  rw [urlParts_components hcomponents hescape] at hpath
  have hforward : ∀ part ∈ first :: others, '\\' ∉ part := by
    intro part hpart hmark
    have hencoded : '\\' ∈ rooted ((first :: others).map (percentEncode pathSet)) := by
      rw [← percentEncode_rooted]
      exact List.mem_flatMap.2 ⟨'\\', List.mem_cons_of_mem _ (mem_path hcomponents hpart hmark),
        List.mem_singleton_self _⟩
    rw [hpath] at hencoded
    exact hback ((List.mem_cons.1 hencoded).resolve_left (by decide))
  obtain ⟨hdrive, hends⟩ := (filePath_components hcomponents hescape hforward hroute).1 h
  refine ⟨fun part hpart c hc => ?_, getLast?_path hcomponents ▸ hend, hescape, ?_, hends⟩
  · have hc' := hmarks c (mem_path hcomponents hpart hc)
    have hne : c ≠ '\\' := fun heq => hforward part hpart (heq ▸ hc)
    simp only [List.mem_cons, not_or] at hc' ⊢
    exact ⟨hc'.1, hc'.2.1, hne, hc'.2.2⟩
  · intro part hpart
    obtain rfl := Option.mem_some.1 hpart
    exact hdrive

theorem filePath_of_isLiteral {u : Url}
    (hroute : u.route = Route.ofParts (urlParts (keptPath (first ++ rooted others))))
    (h : IsLiteral (first :: others)) :
    Secret.SopsEnv.filePath u = .ok (Path.ofString (String.ofList (rooted (first :: others)))) := by
  have hkept : keptPath (first ++ rooted others) = first ++ rooted others := by
    refine keptPath_eq_self_iff.2 ⟨fun c hc => ?_, getLast?_path hcomponents ▸ h.last⟩
    have hrooted : c ∈ rooted (first :: others) := List.mem_cons_of_mem _ hc
    rcases mem_rooted hrooted with rfl | ⟨part, hpart, hc⟩
    · decide
    · have hc' := h.marks part hpart c hc
      simp only [List.mem_cons, not_or] at hc' ⊢
      exact ⟨hc'.1, hc'.2.1, hc'.2.2.2⟩
  have hforward : ∀ part ∈ first :: others, '\\' ∉ part := fun part hpart hback =>
    h.marks part hpart _ hback (by decide)
  rw [hkept] at hroute
  exact (filePath_components hcomponents h.escape hforward hroute).2 ⟨h.drive first rfl, h.end_drive⟩

theorem filePath_iff_isLiteral {u : Url}
    (hroute : u.route = Route.ofParts (urlParts (keptPath (first ++ rooted others)))) :
    Secret.SopsEnv.filePath u = .ok (Path.ofString (String.ofList (rooted (first :: others)))) ↔
      IsLiteral (first :: others) :=
  ⟨isLiteral_of_filePath hcomponents hroute, filePath_of_isLiteral hcomponents hroute⟩

end Components

theorem hasEscape_of_not_mem {s : List Char} (h : '%' ∉ s) : hasEscape s = false := by
  induction s with
  | nil => rfl
  | cons c s ih =>
    obtain ⟨hc, hs⟩ := not_or.1 (mt List.mem_cons.2 h)
    simp [hasEscape, Ne.symm hc, ih hs]

theorem endsInDrive_of_not_mem {s : List Char} (hcolon : ':' ∉ s) (hbar : '|' ∉ s) :
    endsInDrive s = false := by
  unfold endsInDrive
  split
  · next mark letter front hreverse =>
    have hmark : mark ∈ s := by
      rw [← List.mem_reverse, hreverse]
      exact List.mem_cons_self
    have hne : mark ≠ ':' ∧ mark ≠ '|' :=
      ⟨fun heq => hcolon (heq ▸ hmark), fun heq => hbar (heq ▸ hmark)⟩
    simp [hne]
  · rfl

theorem isLiteral_of_isPlain {parts : List (List Char)} (h : ∀ part ∈ parts, IsPlain part) :
    IsLiteral parts where
  marks part hpart c hc := not_mem_of_isPlainChar ((h part hpart).chars c hc) rfl
  last c hc := (isPath_rooted h).graphic c (List.mem_of_mem_getLast? hc)
  escape := hasEscape_of_not_mem ((isPath_rooted h).not_mem (by decide) rfl)
  drive part hpart := Route.withDrive_of_isPlain (h part (List.mem_of_mem_head? hpart))
  end_drive := endsInDrive_of_not_mem ((isPath_rooted h).not_mem (by decide) rfl)
    ((isPath_rooted h).not_mem (by decide) rfl)

theorem filePath_doubled {u : Url} {part : List Char} (h : IsPlain part)
    (hroute : u.route = Route.ofParts (urlParts (keptPath ('/' :: part)))) :
    Secret.SopsEnv.filePath u = .ok (Path.ofString (String.ofList (rooted [part]))) := by
  have hpath : IsPath (rooted [part]) := isPath_rooted (by simpa using h)
  have hkept : keptPath ('/' :: part) = '/' :: part := by
    refine keptPath_eq_self_iff.2 ⟨fun c hc => ?_, fun c hc => ?_⟩
    · rcases List.mem_cons.1 hc with rfl | hc
      · decide
      · exact not_mem_of_isPlainChar (h.chars c hc) rfl
    · exact hpath.graphic c (by simpa using List.mem_of_mem_getLast? hc)
  have hslash : ∀ family, ∀ c ∈ part, isSlash family c = false := fun family c hc =>
    isSlash_of_isPlainChar (h.chars c hc) family
  have hsplit : ∀ family, splitOn (isSlash family) ('/' :: part) = [[], part] := by
    intro family
    have hrooted : splitOn (isSlash family) ([] ++ rooted [part]) = [[], part] :=
      splitOn_rooted family (by simp) (by simpa using hslash family)
    simpa using hrooted
  have hdots : ∀ p ∈ [[], part], Route.isHere p = false ∧ Route.isUp p = false := by
    simpa [Route.isHere_of_isPlain h, Route.isUp_of_isPlain h] using
      (show Route.isHere [] = false ∧ Route.isUp [] = false by decide)
  have hraw : percentEncode pathSet ('/' :: part) = '/' :: part := by
    refine percentEncode_eq fun c hc => ?_
    rcases List.mem_cons.1 hc with rfl | hc
    · rfl
    · exact pathSet_of_isPlainChar (h.chars c hc)
  rw [hkept] at hroute
  obtain ⟨t, hrooted, hfile⟩ := filePath_eq hroute
  rw [urlParts, hraw, hsplit, Route.walk_of_not_dots false hdots (Or.inl rfl)] at hrooted
  obtain rfl : t = '/' :: part := by simpa using (List.cons.inj hrooted).2.symm
  have hlocal : localParts ('/' :: part) = [part] := by
    rw [localParts, hsplit, Route.walk_local hdots]
    simp [Route.withDrive, Route.withoutEmptyStart, h.ne_nil]
  have hnamed : ¬('/' :: part).all (· = '/') := by
    obtain ⟨c, rest, rfl⟩ := List.exists_cons_of_ne_nil h.ne_nil
    have hc : c ≠ '/' := ne_of_isPlainChar (h.chars c List.mem_cons_self) rfl
    simp [hc]
  have hdecoded : percentDecode (rooted [part]) = utf8 (rooted [part]) :=
    percentDecode_eq (hpath.not_mem (by decide) rfl)
  have hliteral : IsLiteral [part] := isLiteral_of_isPlain (by simpa using h)
  have hbytes : (drivePath (utf8 (rooted [part]))).bytes = utf8 (rooted [part]) :=
    (drivePath_utf8 _).2 hliteral.end_drive
  rw [hfile, if_neg hnamed, hlocal, hdecoded, Except.ok.injEq, Path.ofString, String.toList_ofList]
  exact congrArg Machine.Path.mk hbytes

end SecretDotenv.Url
