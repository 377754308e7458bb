import SecretDotenv.Text.Utf8

/-! The bytes of a text. An ASCII character is one byte, and every byte of any other
character lies above ASCII, so ASCII bytes are found where their characters stand. -/
namespace SecretDotenv.Text

theorem ascii_cases {P : Char → Prop} (hascii : ∀ n < 128, P (Char.ofNat n))
    (hother : ∀ c : Char, 128 ≤ c.toNat → P c) (c : Char) : P c := by
  by_cases hc : c.toNat < 128
  · have hsame := hascii c.toNat hc
    rwa [Char.ofNat_toNat] at hsame
  · exact hother c (Nat.not_lt.1 hc)

theorem mem_utf8EncodeChar {b : UInt8} {c : Char} (h : b ∈ String.utf8EncodeChar c) :
    (c.toNat < 128 ∧ b.toNat = c.toNat) ∨ (128 ≤ c.toNat ∧ 128 ≤ b.toNat) := by
  have hc : c.toNat = c.val.toNat := rfl
  unfold String.utf8EncodeChar at h
  dsimp only at h
  split at h
  · simp only [List.mem_singleton] at h
    subst h
    simp
    omega
  · split at h
    · simp only [List.mem_cons, List.not_mem_nil, or_false] at h
      rcases h with rfl | rfl <;> simp <;> omega
    · split at h
      · simp only [List.mem_cons, List.not_mem_nil, or_false] at h
        rcases h with rfl | rfl | rfl <;> simp <;> omega
      · simp only [List.mem_cons, List.not_mem_nil, or_false] at h
        rcases h with rfl | rfl | rfl | rfl <;> simp <;> omega

theorem utf8EncodeChar_of_lt {c : Char} (h : c.toNat < 128) :
    String.utf8EncodeChar c = [UInt8.ofNat c.toNat] := by
  unfold String.utf8EncodeChar
  have hc : c.val.toNat ≤ 127 := by
    change c.toNat ≤ 127
    omega
  simp only [hc, if_true]
  rfl

@[simp] theorem utf8_nil : utf8 [] = [] := rfl

@[simp] theorem utf8_append (a b : List Char) : utf8 (a ++ b) = utf8 a ++ utf8 b :=
  List.flatMap_append

theorem utf8_injective {a b : List Char} (h : utf8 a = utf8 b) : a = b := by
  have hencoded : a.utf8Encode = b.utf8Encode := by
    simpa [List.utf8Encode, utf8] using congrArg List.toByteArray h
  rw [← String.toByteArray_ofList, ← String.toByteArray_ofList, String.toByteArray_inj] at hencoded
  exact String.ofList_injective hencoded

theorem mem_utf8_ofNat {c : Char} {s : List Char} (hc : c.toNat < 128) :
    UInt8.ofNat c.toNat ∈ utf8 s ↔ c ∈ s := by
  constructor
  · intro h
    obtain ⟨x, hx, hbyte⟩ := List.mem_flatMap.1 h
    have hvalue := mem_utf8EncodeChar hbyte
    simp at hvalue
    have hsame : x.toNat = c.toNat := by omega
    rwa [← Char.toNat_inj.1 hsame]
  · intro h
    refine List.mem_flatMap.2 ⟨c, h, ?_⟩
    rw [utf8EncodeChar_of_lt hc]
    exact List.mem_singleton_self _

end SecretDotenv.Text
