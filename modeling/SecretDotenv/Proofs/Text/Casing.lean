import Mathlib
import SecretDotenv.Text.Ascii

/-! Texts without regard to case. Only letters lose their case, so marks stay where they are. -/
namespace SecretDotenv.Text

theorem toLower_of_le {c : Char} (h : 128 ≤ c.toNat) : c.toLower = c := by
  have hnat : c.toNat = c.val.toNat := rfl
  simp only [Char.toLower, UInt32.le_iff_toNat_le, ge_iff_le]
  rw [dif_neg]
  simp
  omega

theorem eq_of_toLower {c x : Char} (hx : x.isLower = false) (h : c.toLower = x) : c = x := by
  have hupper : ¬ c.isUpper := fun hupper => by
    rw [← h, Char.isLower_toLower_eq_isAlpha] at hx
    simp [Char.isAlpha, hupper] at hx
  rwa [Char.toLower_eq_of_not_isUpper hupper] at h

theorem mem_of_mem_lower {x : Char} {s : List Char} (hx : x.isLower = false)
    (h : x ∈ s.map Char.toLower) : x ∈ s := by
  obtain ⟨c, hc, hlower⟩ := List.mem_map.1 h
  rwa [← eq_of_toLower hx hlower]

theorem sameIgnoringCase_iff {a b : String} :
    sameIgnoringCase a b ↔ a.toList.map Char.toLower = b.toList.map Char.toLower := by
  simp [sameIgnoringCase]

theorem startsWithIgnoringCase_iff {text start : String} :
    startsWithIgnoringCase text start ↔
      start.toList.map Char.toLower <+: text.toList.map Char.toLower := by
  simp [startsWithIgnoringCase]

theorem sameIgnoringCase_iff_length {text start : String} (h : startsWithIgnoringCase text start) :
    sameIgnoringCase text start ↔ text.length = start.length := by
  rw [sameIgnoringCase_iff, ← String.length_toList, ← String.length_toList]
  constructor
  · intro hsame
    simpa using congrArg List.length hsame
  · intro hlength
    exact ((startsWithIgnoringCase_iff.1 h).eq_of_length (by simp [hlength])).symm

/-- Up to a mark that neither has, two texts agree only if they are the same. -/
theorem prefix_cons_iff {mark : Char} {a b x y : List Char} (ha : mark ∉ a) (hb : mark ∉ b) :
    a ++ mark :: x <+: b ++ mark :: y ↔ a = b ∧ x <+: y := by
  induction a generalizing b with
  | nil =>
    cases b with
    | nil => simp
    | cons d b =>
      have hd : mark ≠ d := fun h => hb (h ▸ List.mem_cons_self)
      simp [hd]
  | cons c a ih =>
    have hc : mark ≠ c := fun h => ha (h ▸ List.mem_cons_self)
    cases b with
    | nil => simp [Ne.symm hc]
    | cons d b =>
      rw [List.cons_append, List.cons_append, List.cons_prefix_cons,
        ih (mt (List.mem_cons_of_mem _) ha) (mt (List.mem_cons_of_mem _) hb), List.cons.injEq,
        and_assoc]

theorem prefix_append_iff {s a tail : List Char} (h : ∀ mark ∈ tail.head?, mark ∉ s) :
    s <+: a ++ tail ↔ s <+: a := by
  cases tail with
  | nil => rw [List.append_nil]
  | cons mark tail =>
    have hs : mark ∉ s := h mark rfl
    clear h
    induction s generalizing a with
    | nil => simp
    | cons c s ih =>
      obtain ⟨hc, hs⟩ := not_or.1 (mt List.mem_cons.2 hs)
      cases a with
      | nil => simp [Ne.symm hc]
      | cons d a =>
        rw [List.cons_append, List.cons_prefix_cons, List.cons_prefix_cons]
        exact and_congr_right fun _ => ih hs

theorem lower_prefix_append_iff {s a tail : List Char}
    (h : ∀ mark ∈ tail.head?, mark.toLower ∉ s.map Char.toLower) :
    s.map Char.toLower <+: (a ++ tail).map Char.toLower ↔
      s.map Char.toLower <+: a.map Char.toLower := by
  rw [List.map_append]
  refine prefix_append_iff fun mark hmark => ?_
  rw [List.head?_map] at hmark
  obtain ⟨c, hc, rfl⟩ := Option.map_eq_some_iff.1 hmark
  exact h c hc

end SecretDotenv.Text
