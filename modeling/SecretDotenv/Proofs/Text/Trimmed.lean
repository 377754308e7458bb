import Mathlib.Data.List.TakeWhile
import SecretDotenv.Text.Blank

/-! What trimming takes from a text: the white space that stands at its ends, and nothing
from a text without white space. -/
namespace SecretDotenv.Text

theorem trimEnd_append {ended : List Char} (kept : List Char) (hended : ∀ c ∈ ended, isBlank c) :
    trimEnd (kept ++ ended) = trimEnd kept := by
  unfold trimEnd
  rw [List.reverse_append, List.dropWhile_append_of_pos (by simpa using hended)]

theorem trimChars_append {ended : List Char} (kept : List Char) (hended : ∀ c ∈ ended, isBlank c) :
    trimChars (kept ++ ended) = trimChars kept := by
  unfold trimChars trimStart
  by_cases hblank : ∀ c ∈ kept, isBlank c
  · have hnone : ended.dropWhile isBlank = [] := List.dropWhile_eq_nil_iff.2 hended
    rw [List.dropWhile_append_of_pos hblank, hnone, List.dropWhile_eq_nil_iff.2 hblank]
  · have hsome : (kept.dropWhile isBlank).isEmpty = false := by
      simpa [List.dropWhile_eq_nil_iff] using hblank
    rw [List.dropWhile_append, hsome]
    exact trimEnd_append _ hended

theorem trimChars_of_not_blank {s : List Char} (h : ∀ c ∈ s, isBlank c = false) :
    trimChars s = s := by
  have hkeep : ∀ t : List Char, (∀ c ∈ t, isBlank c = false) → t.dropWhile isBlank = t := by
    intro t ht
    cases t with
    | nil => rfl
    | cons c t => simp [ht c List.mem_cons_self]
  unfold trimChars trimStart trimEnd
  rw [hkeep s h, hkeep s.reverse (by simpa using h), List.reverse_reverse]

theorem length_trimChars_le (s : List Char) : (trimChars s).length ≤ s.length := by
  have hdrop : ∀ t : List Char, (t.dropWhile isBlank).length ≤ t.length :=
    fun t => (List.dropWhile_sublist _).length_le
  calc (trimChars s).length
      = ((s.dropWhile isBlank).reverse.dropWhile isBlank).length := List.length_reverse
    _ ≤ (s.dropWhile isBlank).length := by simpa using hdrop (s.dropWhile isBlank).reverse
    _ ≤ s.length := hdrop s

theorem trimChars_ne_of_blank {b : Char} (s : List Char) (hb : isBlank b) :
    trimChars (b :: s) ≠ b :: s := by
  have hdropped : trimChars (b :: s) = trimChars s := by
    simp [trimChars, trimStart, hb]
  intro hkept
  have hlength := length_trimChars_le s
  rw [← hdropped, hkept, List.length_cons] at hlength
  omega

theorem trim_ofList (s : List Char) : trim (String.ofList s) = String.ofList (trimChars s) := by
  rw [trim, String.toList_ofList]

end SecretDotenv.Text
