import SecretDotenv.Machine.Path
import SecretDotenv.Proofs.Url.PlainParts

/-! What percent-encoded texts stand for. Encoding changes nothing of it, even where a text
holds escapes of its own, and each of these escapes makes it shorter than the text. -/
namespace SecretDotenv.Url

open SecretDotenv.Text SecretDotenv.Machine

theorem isHexDigit_of_le {c : Char} (h : 128 ≤ c.toNat) : isHexDigit c = false := by
  have hnat : c.toNat = c.val.toNat := rfl
  simp only [isHexDigit, Char.isDigit, Char.le_def, UInt32.le_iff_toNat_le, ge_iff_le,
    Bool.or_eq_false_iff, Bool.and_eq_false_iff, decide_eq_false_iff_not]
  simp
  omega

theorem isHexDigit_of_pathSet {c : Char} (h : pathSet c) : isHexDigit c = false := by
  revert h
  exact ascii_cases (P := fun c => pathSet c = true → isHexDigit c = false) (by decide)
    (fun c hc _ => isHexDigit_of_le hc) c

theorem pathSet_of_isHexDigit {c : Char} (h : isHexDigit c) : pathSet c = false :=
  Bool.eq_false_iff.2 fun hset => by simp [isHexDigit_of_pathSet hset] at h

theorem hexValue_upperHexDigit {n : Nat} (hn : n < 16) :
    isHexDigit (upperHexDigit n) ∧ hexValue (upperHexDigit n) = n := by
  have hall : ∀ m < 16, isHexDigit (upperHexDigit m) ∧ hexValue (upperHexDigit m) = m := by decide
  exact hall n hn

theorem percentDecode_escape {a b : Char} (ha : isHexDigit a) (hb : isHexDigit b) (s : List Char) :
    percentDecode ('%' :: a :: b :: s) =
      UInt8.ofNat (16 * hexValue a + hexValue b) :: percentDecode s := by
  simp [percentDecode, ha, hb]

def startsWithDigits : List Char → Bool
  | a :: b :: _ => isHexDigit a && isHexDigit b
  | _ => false

section Short

variable {s : List Char} (h : ∀ a b rest, s ≠ a :: b :: rest)
include h

theorem startsWithDigits_of_short : startsWithDigits s = false := by
  unfold startsWithDigits
  split
  · exact absurd rfl (h _ _ _)
  · rfl

theorem startsWithDigits_append_cons {c : Char} (hc : isHexDigit c = false) (rest : List Char) :
    startsWithDigits (s ++ c :: rest) = false := by
  cases s with
  | nil => cases rest <;> simp [startsWithDigits, hc]
  | cons a s =>
    cases s with
    | nil => simp [startsWithDigits, hc]
    | cons b s => exact absurd rfl (h a b s)

end Short

theorem percentDecode_percent {s : List Char} (h : startsWithDigits s = false) :
    percentDecode ('%' :: s) = 0x25 :: percentDecode s := by
  match s with
  | [] => rfl
  | [a] => rfl
  | a :: b :: s => rw [percentDecode, if_neg (by rw [startsWithDigits] at h; simp [h])]

theorem percentDecode_cons {c : Char} (hc : c ≠ '%') (s : List Char) :
    percentDecode (c :: s) = String.utf8EncodeChar c ++ percentDecode s := by
  rw [percentDecode]
  rintro a b rest rfl
  contradiction

theorem percentDecode_encodeByte (b : UInt8) (s : List Char) :
    percentDecode (encodeByte b ++ s) = b :: percentDecode s := by
  have hb : b.toNat < 256 := b.toNat_lt
  obtain ⟨hhigh, hhighValue⟩ := hexValue_upperHexDigit (n := b.toNat / 16) (by omega)
  obtain ⟨hlow, hlowValue⟩ := hexValue_upperHexDigit (n := b.toNat % 16) (by omega)
  rw [encodeByte, List.cons_append, List.cons_append, List.cons_append, List.nil_append,
    percentDecode_escape hhigh hlow, hhighValue, hlowValue, Nat.div_add_mod, UInt8.ofNat_toNat]

theorem percentDecode_encoded (bytes : List UInt8) (s : List Char) :
    percentDecode (bytes.flatMap encodeByte ++ s) = bytes ++ percentDecode s := by
  induction bytes with
  | nil => rfl
  | cons b bytes ih =>
    rw [List.flatMap_cons, List.append_assoc, percentDecode_encodeByte, ih, List.cons_append]

theorem percentDecode_append_cons {c : Char} (hpercent : c ≠ '%') (hdigit : isHexDigit c = false)
    (a b : List Char) :
    percentDecode (a ++ c :: b) = percentDecode a ++ String.utf8EncodeChar c ++ percentDecode b := by
  fun_induction percentDecode a with
  | case1 x y rest hdigits ih =>
    obtain ⟨hx, hy⟩ := Bool.and_eq_true_iff.1 hdigits
    rw [List.cons_append, List.cons_append, List.cons_append, percentDecode_escape hx hy, ih]
    rfl
  | case2 x y rest hdigits ih =>
    have hstart : startsWithDigits (x :: y :: (rest ++ c :: b)) = false := by
      simpa [startsWithDigits] using hdigits
    rw [List.cons_append, List.cons_append, List.cons_append, percentDecode_percent hstart]
    exact congrArg (0x25 :: ·) ih
  | case3 x rest hshort ih =>
    by_cases hx : x = '%'
    · subst hx
      have hstart := startsWithDigits_append_cons (fun y z more => hshort y z more rfl) hdigit b
      rw [List.cons_append, percentDecode_percent hstart, ih]
      rfl
    · rw [List.cons_append, percentDecode_cons hx, ih, List.append_assoc, List.append_assoc,
        List.append_assoc]
  | case4 => exact percentDecode_cons hpercent b

theorem percentEncode_cons (set : EncodeSet) (c : Char) (s : List Char) :
    percentEncode set (c :: s) =
      (if set c then (String.utf8EncodeChar c).flatMap encodeByte else [c]) ++ percentEncode set s :=
  List.flatMap_cons

theorem percentEncode_cons_raw {set : EncodeSet} {c : Char} (hc : set c = false) (s : List Char) :
    percentEncode set (c :: s) = c :: percentEncode set s := by
  rw [percentEncode_cons, hc, if_neg Bool.false_ne_true, List.singleton_append]

theorem percentEncode_append (set : EncodeSet) (a b : List Char) :
    percentEncode set (a ++ b) = percentEncode set a ++ percentEncode set b :=
  List.flatMap_append

theorem encoded_eq_percent (c : Char) :
    ∃ rest, (String.utf8EncodeChar c).flatMap encodeByte = '%' :: rest := by
  cases hbytes : String.utf8EncodeChar c with
  | nil => exact absurd hbytes String.utf8EncodeChar_ne_nil
  | cons b bytes => exact ⟨_, rfl⟩

theorem percentEncode_ne_nil (set : EncodeSet) (c : Char) (s : List Char) :
    percentEncode set (c :: s) ≠ [] := by
  obtain ⟨rest, hrest⟩ := encoded_eq_percent c
  rw [percentEncode_cons]
  split <;> simp [hrest]

theorem startsWithDigits_percentEncode (s : List Char) :
    startsWithDigits (percentEncode pathSet s) = startsWithDigits s := by
  have hset : ∀ c rest, pathSet c → ∃ more, percentEncode pathSet (c :: rest) = '%' :: more := by
    intro c rest hc
    obtain ⟨more, hmore⟩ := encoded_eq_percent c
    exact ⟨_, by rw [percentEncode_cons, if_pos hc, hmore, List.cons_append]⟩
  have hpercent : ∀ more, startsWithDigits ('%' :: more) = false := by
    intro more
    cases more <;> rfl
  match s with
  | [] => rfl
  | [c] =>
    cases hc : pathSet c with
    | true =>
      obtain ⟨more, hmore⟩ := hset c [] hc
      rw [hmore, hpercent]
      rfl
    | false => rw [percentEncode_cons_raw hc]; rfl
  | c :: d :: rest =>
    cases hc : pathSet c with
    | true =>
      obtain ⟨more, hmore⟩ := hset c (d :: rest) hc
      rw [hmore, hpercent, startsWithDigits, isHexDigit_of_pathSet hc, Bool.false_and]
    | false =>
      cases hd : pathSet d with
      | true =>
        obtain ⟨more, hmore⟩ := hset d rest hd
        rw [percentEncode_cons_raw hc, hmore, startsWithDigits, startsWithDigits, isHexDigit_of_pathSet hd]
        exact congrArg (isHexDigit c && ·) rfl
      | false => rw [percentEncode_cons_raw hc, percentEncode_cons_raw hd]; rfl

theorem percentDecode_percentEncode (s : List Char) :
    percentDecode (percentEncode pathSet s) = percentDecode s := by
  fun_induction percentDecode s with
  | case1 a b rest hdigits ih =>
    obtain ⟨ha, hb⟩ := Bool.and_eq_true_iff.1 hdigits
    rw [percentEncode_cons_raw rfl, percentEncode_cons_raw (pathSet_of_isHexDigit ha),
      percentEncode_cons_raw (pathSet_of_isHexDigit hb), percentDecode_escape ha hb, ih]
  | case2 a b rest hdigits ih =>
    have hstart : startsWithDigits (a :: b :: rest) = false := by
      simpa [startsWithDigits] using hdigits
    rw [percentEncode_cons_raw rfl,
      percentDecode_percent (by rw [startsWithDigits_percentEncode, hstart]), ih]
  | case3 c rest hshort ih =>
    cases hc : pathSet c with
    | true => rw [percentEncode_cons, if_pos hc, percentDecode_encoded, ih]
    | false =>
      rw [percentEncode_cons_raw hc]
      by_cases hpercent : c = '%'
      · subst hpercent
        have hstart := startsWithDigits_of_short fun a b more => hshort a b more rfl
        rw [percentDecode_percent (by rw [startsWithDigits_percentEncode, hstart]), ih]
        rfl
      · rw [percentDecode_cons hpercent, ih]
  | case4 => rfl

def solid (bytes : List UInt8) : Nat :=
  bytes.countP (· != Path.slash)

@[simp] theorem solid_nil : solid [] = 0 := rfl

@[simp] theorem solid_append (a b : List UInt8) : solid (a ++ b) = solid a + solid b :=
  List.countP_append

@[simp] theorem solid_cons (b : UInt8) (bytes : List UInt8) :
    solid (b :: bytes) = solid bytes + if b = Path.slash then 0 else 1 := by
  simp [solid, List.countP_cons]

theorem solid_utf8_cons (c : Char) (s : List Char) :
    solid (utf8 (c :: s)) = solid (String.utf8EncodeChar c) + solid (utf8 s) := by
  rw [← solid_append]
  rfl

theorem solid_utf8EncodeChar_of_isHexDigit {c : Char} (h : isHexDigit c) :
    solid (String.utf8EncodeChar c) = 1 := by
  revert h
  refine ascii_cases (P := fun c => isHexDigit c = true → solid (String.utf8EncodeChar c) = 1)
    (by decide) (fun c hc h => ?_) c
  simp [isHexDigit_of_le hc] at h

theorem solid_utf8EncodeChar_pos {c : Char} (h : c ≠ '/') : 0 < solid (String.utf8EncodeChar c) := by
  refine List.countP_pos_iff.2 ?_
  obtain ⟨b, hb⟩ := List.exists_mem_of_ne_nil _ (String.utf8EncodeChar_ne_nil (c := c))
  refine ⟨b, hb, ?_⟩
  rw [bne_iff_ne]
  rintro rfl
  have hslash : Path.slash.toNat = '/'.toNat := rfl
  rcases mem_utf8EncodeChar hb with ⟨-, hvalue⟩ | ⟨-, hvalue⟩
  · exact h (Char.toNat_inj.1 (hvalue.symm.trans hslash))
  · rw [hslash] at hvalue
    exact absurd hvalue (by decide)

/-- Whether a percent sign stands somewhere in front of two hexadecimal digits. -/
def hasEscape : List Char → Bool
  | [] => false
  | c :: s => (c = '%' && startsWithDigits s) || hasEscape s

/-- A text without escapes stands for itself, and one with an escape for fewer bytes. -/
theorem percentDecode_hasEscape (s : List Char) :
    (hasEscape s = false → percentDecode s = utf8 s) ∧
      (hasEscape s = true → solid (percentDecode s) < solid (utf8 s)) := by
  -- a character that begins no escape stands for its bytes
  have hraw : ∀ (c : Char) (rest : List Char) (decoded : List UInt8),
      (c = '%' && startsWithDigits rest) = false →
      String.utf8EncodeChar c ++ percentDecode rest = decoded →
      ((hasEscape rest = false → percentDecode rest = utf8 rest) ∧
        (hasEscape rest = true → solid (percentDecode rest) < solid (utf8 rest))) →
      (hasEscape (c :: rest) = false → decoded = utf8 (c :: rest)) ∧
        (hasEscape (c :: rest) = true → solid decoded < solid (utf8 (c :: rest))) := by
    rintro c rest decoded hstart rfl ⟨hnone, hsome⟩
    rw [hasEscape, hstart, Bool.false_or, solid_utf8_cons, solid_append]
    refine ⟨fun h => ?_, fun h => Nat.add_lt_add_left (hsome h) _⟩
    rw [hnone h]
    rfl
  fun_induction percentDecode s with
  | case1 a b rest hdigits ih =>
    obtain ⟨ha, hb⟩ := Bool.and_eq_true_iff.1 hdigits
    have hescape : hasEscape ('%' :: a :: b :: rest) = true := by
      simp [hasEscape, startsWithDigits, hdigits]
    have hle : solid (percentDecode rest) ≤ solid (utf8 rest) := by
      cases h : hasEscape rest with
      | true => exact Nat.le_of_lt (ih.2 h)
      | false => exact Nat.le_of_eq (by rw [ih.1 h])
    have hone : solid (String.utf8EncodeChar '%') = 1 := by decide
    refine ⟨fun h => by simp [hescape] at h, fun _ => ?_⟩
    rw [solid_utf8_cons, solid_utf8_cons, solid_utf8_cons, hone,
      solid_utf8EncodeChar_of_isHexDigit ha, solid_utf8EncodeChar_of_isHexDigit hb, solid_cons]
    split <;> omega
  | case2 a b rest hdigits ih =>
    exact hraw '%' (a :: b :: rest) _ (by simpa [startsWithDigits] using hdigits) rfl ih
  | case3 c rest hshort ih =>
    refine hraw c rest _ ?_ rfl ih
    rw [Bool.and_eq_false_iff]
    by_cases hc : c = '%'
    · subst hc
      exact Or.inr (startsWithDigits_of_short fun a b more => hshort a b more rfl)
    · exact Or.inl (decide_eq_false hc)
  | case4 => simp [hasEscape]

theorem solid_percentDecode_le (s : List Char) : solid (percentDecode s) ≤ solid (utf8 s) := by
  cases h : hasEscape s with
  | true => exact Nat.le_of_lt ((percentDecode_hasEscape s).2 h)
  | false => exact Nat.le_of_eq (by rw [(percentDecode_hasEscape s).1 h])

end SecretDotenv.Url
