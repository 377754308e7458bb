import Mathlib
import SecretDotenv.Proofs.Dotenv.WrittenForm
import SecretDotenv.Secret.SopsEnv

/-! Names of entries are made of the characters that dotenv names are read from, so an
entry that is stored under one can be read. -/
namespace SecretDotenv.Secret

open SecretDotenv.Dotenv

theorem toUpper_of_isAlphanum {c : Char} (h : c.isAlphanum) :
    c.toUpper.isUpper ∨ c.toUpper.isDigit := by
  by_cases halpha : c.isAlpha
  · rw [← Char.isUpper_toUpper_eq_isAlpha] at halpha
    exact Or.inl halpha
  · have hlower : ¬c.isLower := by
      intro hlower
      exact halpha (Bool.or_eq_true_iff.2 (Or.inr hlower))
    rw [Char.toUpper_eq_of_not_isLower hlower]
    exact Or.inr ((Bool.or_eq_true_iff.1 h).resolve_left halpha)

theorem isAlphanum_of_isUpper_or_isDigit {c : Char} (h : c.isUpper ∨ c.isDigit) :
    c.isAlphanum := by
  unfold Char.isAlphanum Char.isAlpha
  rcases h with h | h
  · simp [h]
  · simp [h]

theorem mem_variableNameFrom {started : Bool} {name : List Char} {c : Char}
    (h : c ∈ variableNameFrom started name) : (c.isUpper ∨ c.isDigit) ∨ c = '_' := by
  fun_induction variableNameFrom started name with
  | case1 => simp at h
  | case2 _ _ _ ih =>
    rcases List.mem_cons.1 h with rfl | h
    · exact Or.inr rfl
    · exact ih h
  | case3 _ _ _ _ _ ih => exact ih h
  | case4 _ _ _ _ halphanum ih =>
    rcases List.mem_cons.1 h with rfl | h
    · exact Or.inl (toUpper_of_isAlphanum halphanum)
    · exact ih h
  | case5 _ _ _ _ _ ih => exact ih h

theorem isReadable_variableName {name : String} (value : String) (h : variableName name ≠ "") :
    (Node.entry { name := variableName name, value }).IsReadable := by
  refine ⟨h, ?_⟩
  intro c hc
  dsimp only at hc
  unfold variableName at hc
  rw [String.toList_ofList] at hc
  exact (mem_variableNameFrom hc).imp_left isAlphanum_of_isUpper_or_isDigit

theorem SopsEnv.isReadable_of_entryName {e : Expression} {name : String} (value : String)
    (h : SopsEnv.entryName e = .ok name) : (Node.entry { name, value }).IsReadable := by
  unfold SopsEnv.entryName at h
  dsimp only at h
  split at h
  · contradiction
  · next hempty =>
    obtain rfl := Except.ok.inj h
    apply isReadable_variableName
    intro hnone
    rw [hnone] at hempty
    exact hempty rfl

end SecretDotenv.Secret
