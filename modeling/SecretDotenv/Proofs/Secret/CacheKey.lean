import SecretDotenv.Proofs.Secret.FileRequests
import SecretDotenv.Proofs.Url.Front

/-! Keys of kept documents. A key tells the path of its file; the path does not tell
the key, for a file has as many keys as its URL has spellings. -/
namespace SecretDotenv.Secret

open SecretDotenv.Text SecretDotenv.Machine

namespace Expression

theorem readFlag_uri (e : Expression) (flag : String) : (e.readFlag flag).2.uri = e.uri := by
  have hset : ∀ (e : Expression) (s : Switch) (on : Bool), (e.set s on).uri = e.uri := by
    intro e s on
    cases s <;> rfl
  have hgroup : ∀ (letters : List Char) (e : Expression), (letters.foldl readLetter e).uri = e.uri := by
    intro letters
    induction letters with
    | nil => exact fun _ => rfl
    | cons letter letters ih =>
      intro e
      rw [List.foldl_cons, ih]
      unfold readLetter
      split
      · exact hset ..
      · exact hset ..
      · exact hset ..
      · exact hset ..
      · rfl
  unfold readFlag
  split
  all_goals try rfl
  split
  · rfl
  · unfold readGroup
    dsimp only
    split
    · exact hgroup _ e
    · exact hgroup _ e
  · rfl

theorem readArgument_uri {awaited next : Awaited} {e f : Expression} {part : String}
    (h : readArgument awaited e part = .ok (next, f)) : f.uri = e.uri := by
  have hflag : ∀ {next : Awaited} {f : Expression},
      Except.ok (ε := ExpressionError) (e.readFlag part) = .ok (next, f) → f.uri = e.uri := by
    intro next f hread
    rw [← readFlag_uri e part, Except.ok.inj hread]
  cases awaited with
  | flag => exact hflag h
  | name | chars =>
    obtain ⟨-, rfl⟩ := Prod.mk.inj (Except.ok.inj h)
    rfl
  | size | expiry =>
    unfold readArgument at h
    dsimp only at h
    split at h
    · obtain ⟨-, rfl⟩ := Prod.mk.inj (Except.ok.inj h)
      rfl
    · contradiction
  | specials more =>
    cases more <;>
      (obtain ⟨-, rfl⟩ := Prod.mk.inj (Except.ok.inj h); rfl)
  | switch s =>
    unfold readArgument at h
    dsimp only at h
    split at h
    · obtain ⟨-, rfl⟩ := Prod.mk.inj (Except.ok.inj h)
      cases s <;> rfl
    · exact hflag h
  | special =>
    unfold readArgument at h
    dsimp only at h
    split at h
    · obtain ⟨-, rfl⟩ := Prod.mk.inj (Except.ok.inj h)
      rfl
    · exact hflag h

theorem readArguments_uri {awaited : Awaited} {e f : Expression} {args : List String}
    (h : readArguments awaited e args = .ok f) : f.uri = e.uri := by
  induction args generalizing awaited e with
  | nil =>
    unfold readArguments at h
    split at h
    · contradiction
    · rw [Except.ok.inj h]
  | cons part args ih =>
    unfold readArguments at h
    split at h
    · next next g hread =>
      rw [ih h, readArgument_uri hread]
    · contradiction

theorem isParsed_of_parse {keyword : String} {directory : Path} {default : Option String}
    {args : List String} {e : Expression} (h : parse keyword directory default args = .ok e) :
    e.uri.IsParsed := by
  unfold parse at h
  split at h
  · cases h
  · split at h
    · cases h
    · split at h
      · cases h
      · split at h
        · cases h
        · next uri huri =>
          rw [readArguments_uri h]
          exact Url.isParsed_of_ofString? huri

end Expression

namespace SopsEnv

theorem filePath_congr {u w : Url} {path : Path} (hpath : u.path = w.path)
    (hu : filePath u = .ok path) : filePath w = .ok path := by
  unfold filePath at hu ⊢
  rw [hpath] at hu
  split at hu
  · contradiction
  · next hnamed =>
    rw [if_neg hnamed]
    split at hu
    · exact hu
    · contradiction

theorem cacheKey_eq_iff {u w : Url} (hu : u.IsParsed) (hw : w.IsParsed) :
    cacheKey u = cacheKey w ↔ u.SpelledAlike w :=
  Url.front_eq_front_iff hu hw

theorem filePath_of_cacheKey {u w : Url} {path : Path} (hu : u.IsParsed) (hw : w.IsParsed)
    (hkey : cacheKey u = cacheKey w) (hpath : filePath u = .ok path) : filePath w = .ok path :=
  filePath_congr ((cacheKey_eq_iff hu hw).1 hkey).2.2 hpath

theorem wanted_cases {v : SopsEnv} {directory : Path} {args : List String} {w : Wanted}
    (h : v.wanted directory args = .ok w) :
    w.expression.uri.IsParsed ∧ entryName w.expression = .ok w.entry ∧
      filePath w.expression.uri = .ok w.path := by
  unfold wanted at h
  split at h
  · cases h
  · next e hparse =>
    split at h
    · cases h
    · next entry hentry =>
      split at h
      · cases h
      · next path hpath =>
        obtain rfl := Except.ok.inj h
        exact ⟨Expression.isParsed_of_parse hparse, hentry, hpath⟩

theorem path_eq_of_cacheKey {v : SopsEnv} {directory : Path} {args₁ args₂ : List String}
    {w₁ w₂ : Wanted} (h₁ : v.wanted directory args₁ = .ok w₁)
    (h₂ : v.wanted directory args₂ = .ok w₂)
    (hkey : cacheKey w₁.expression.uri = cacheKey w₂.expression.uri) : w₁.path = w₂.path := by
  obtain ⟨hu₁, -, hpath₁⟩ := wanted_cases h₁
  obtain ⟨hu₂, -, hpath₂⟩ := wanted_cases h₂
  have hsame := filePath_of_cacheKey hu₁ hu₂ hkey hpath₁
  rw [hpath₂] at hsame
  exact (Except.ok.inj hsame).symm

end SopsEnv

end SecretDotenv.Secret
