import SecretDotenv.Text.Pieces

/-! The pieces of a text between separators, the separators of its lines, and the parts in
front of and behind a mark. -/
namespace SecretDotenv.Text

def lineBreaks : List (List Char) := [['\n'], ['\r', '\n']]

theorem splitOn_not_mem {isSeparator : Char → Bool} {c : Char} (hc : isSeparator c)
    (s : List Char) : ∀ piece ∈ splitOn isSeparator s, c ∉ piece := by
  fun_induction splitOn isSeparator s with
  | case1 => simp
  | case2 _ _ _ ih =>
    intro piece hpiece
    rcases List.mem_cons.1 hpiece with rfl | hpiece
    · simp
    · exact ih piece hpiece
  | case3 x _ hx _ _ =>
    intro piece hpiece
    obtain rfl := List.mem_singleton.1 hpiece
    rw [List.mem_singleton]
    rintro rfl
    contradiction
  | case4 x _ hx first more hsplit ih =>
    rw [hsplit] at ih
    intro piece hpiece
    rcases List.mem_cons.1 hpiece with rfl | hpiece
    · rw [List.mem_cons, not_or]
      refine ⟨?_, ih first List.mem_cons_self⟩
      rintro rfl
      contradiction
    · exact ih piece (List.mem_cons_of_mem _ hpiece)

theorem splitOn_of_not {isSeparator : Char → Bool} {part : List Char}
    (h : ∀ c ∈ part, isSeparator c = false) : splitOn isSeparator part = [part] := by
  induction part with
  | nil => rfl
  | cons c part ih =>
    obtain ⟨hc, hpart⟩ := List.forall_mem_cons.1 h
    simp [splitOn, hc, ih hpart]

theorem splitOn_append {isSeparator : Char → Bool} {part : List Char} {mark : Char}
    (h : ∀ c ∈ part, isSeparator c = false) (hmark : isSeparator mark) (rest : List Char) :
    splitOn isSeparator (part ++ mark :: rest) = part :: splitOn isSeparator rest := by
  induction part with
  | nil => simp [splitOn, hmark]
  | cons c part ih =>
    obtain ⟨hc, hpart⟩ := List.forall_mem_cons.1 h
    simp [splitOn, hc, ih hpart]

theorem cut_append {mark : Char} {s before after : List Char} (more : List Char)
    (h : cut mark s = some (before, after)) : cut mark (s ++ more) = some (before, after ++ more) := by
  induction s generalizing before with
  | nil => simp [cut] at h
  | cons c rest ih =>
    simp only [cut, List.cons_append] at h ⊢
    split at h
    · next hc =>
      obtain ⟨rfl, rfl⟩ := Prod.mk.inj (Option.some.inj h)
      simp [hc]
    · next hc =>
      obtain ⟨⟨front, back⟩, hfound, h⟩ := Option.map_eq_some_iff.1 h
      obtain ⟨rfl, rfl⟩ := Prod.mk.inj h
      simp [hc, ih hfound]

theorem eq_append_of_cut {mark : Char} {s before after : List Char}
    (h : cut mark s = some (before, after)) : s = before ++ mark :: after := by
  induction s generalizing before with
  | nil => simp [cut] at h
  | cons c rest ih =>
    simp only [cut] at h
    split at h
    · next hc =>
      obtain ⟨rfl, rfl⟩ := Prod.mk.inj (Option.some.inj h)
      simp [hc]
    · obtain ⟨⟨front, back⟩, hfound, h⟩ := Option.map_eq_some_iff.1 h
      obtain ⟨rfl, rfl⟩ := Prod.mk.inj h
      rw [List.cons_append, ← ih hfound]

theorem cut_append_of_not_mem {mark : Char} {s : List Char} (h : mark ∉ s) (rest : List Char) :
    cut mark (s ++ rest) = (cut mark rest).map fun (front, back) => (s ++ front, back) := by
  induction s with
  | nil => simp
  | cons c s ih =>
    obtain ⟨hc, hs⟩ := not_or.1 (mt List.mem_cons.2 h)
    rw [List.cons_append, cut, if_neg (Ne.symm hc), ih hs]
    cases cut mark rest <;> rfl

theorem cut_eq_none {mark : Char} {s : List Char} (h : mark ∉ s) : cut mark s = none := by
  have hnone := cut_append_of_not_mem h []
  rwa [List.append_nil] at hnone

end SecretDotenv.Text
