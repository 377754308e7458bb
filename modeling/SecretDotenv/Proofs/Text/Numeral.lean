import SecretDotenv.Text.Numeral

/-! Every integer that fits is read back from its digits. -/
namespace SecretDotenv.Text

theorem digitsValue_toDigits (n : Nat) : digitsValue (Nat.toDigits 10 n) = n :=
  Nat.ofDigitChars_toDigits (by decide) (by decide)

theorem isDigits_toDigits (n : Nat) : isDigits (Nat.toDigits 10 n) := by
  have hall : ∀ c ∈ Nat.toDigits 10 n, c.isDigit := fun _ =>
    Nat.isDigit_of_mem_toDigits (by decide) (by decide)
  simpa [isDigits, Nat.toDigits_ne_nil] using hall

theorem signOf_of_isDigits {digits : List Char} (h : isDigits digits) :
    signOf digits = (false, digits) := by
  unfold signOf
  split
  · simp [isDigits] at h
  · simp [isDigits] at h
  · rfl

theorem int64?_toString {n : Int} (h : fitsInt64 n) : int64? (toString n) = some n := by
  cases n with
  | ofNat m =>
    have htext : (toString (Int.ofNat m)).toList = Nat.toDigits 10 m := String.toList_ofList
    rw [int64?, htext, signOf_of_isDigits (isDigits_toDigits m)]
    simpa [isDigits_toDigits, digitsValue_toDigits] using h
  | negSucc m =>
    have htext : (toString (Int.negSucc m)).toList = '-' :: Nat.toDigits 10 (m + 1) := by
      rw [show toString (Int.negSucc m) = "-" ++ (m + 1).repr from rfl]
      simp [Nat.repr]
    rw [Int.negSucc_eq] at h
    rw [int64?, htext, Int.negSucc_eq]
    simpa [signOf, isDigits_toDigits, digitsValue_toDigits] using h

end SecretDotenv.Text
