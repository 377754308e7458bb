import SecretDotenv.Secret.SopsEnv

/-! A file that a URL names is named from the root, whatever the working directory is:
every text behind `file://` is read as parts, and each part stands behind a slash. -/
namespace SecretDotenv

open SecretDotenv.Text SecretDotenv.Machine

namespace Url

theorem cleaned_append (front s : List Char) (hfront : front ≠ [])
    (h : ∀ c ∈ front, 0x20 < c.toNat) : ∃ rest, cleaned (front ++ s) = front ++ rest := by
  have hkept : ∀ c ∈ front, ¬(decide (c.toNat ≤ 0x20) = true) := by
    intro c hc
    have hc := h c hc
    simp
    omega
  have hfilter : front.filter (fun c => decide (c ∉ ['\t', '\n', '\r'])) = front := by
    apply List.filter_eq_self.2
    intro c hc
    have hc := h c hc
    simp only [List.mem_cons, List.not_mem_nil, or_false, not_or, decide_eq_true_eq]
    refine ⟨?_, ?_, ?_⟩ <;> (rintro rfl; simp at hc)
  have hstart : (front ++ s).dropWhile (fun c => decide (c.toNat ≤ 0x20)) = front ++ s := by
    cases front with
    | nil => contradiction
    | cons c front =>
      rw [List.cons_append, List.dropWhile_cons, if_neg (hkept c List.mem_cons_self)]
  have hend : front.reverse.dropWhile (fun c => decide (c.toNat ≤ 0x20)) = front.reverse := by
    cases hreverse : front.reverse with
    | nil => rfl
    | cons c rest =>
      have hc : c ∈ front := by
        rw [← List.mem_reverse, hreverse]
        exact List.mem_cons_self
      rw [List.dropWhile_cons, if_neg (hkept c hc)]
  unfold cleaned
  dsimp only
  rw [hstart, List.reverse_append, List.dropWhile_append]
  split
  · refine ⟨[], ?_⟩
    rw [hend, List.reverse_reverse, hfilter, List.append_nil]
  · rw [List.reverse_append, List.reverse_reverse, List.filter_append, hfilter]
    exact ⟨_, rfl⟩

theorem scheme?_file (rest : List Char) : scheme? ("file:".toList ++ rest) = some ("file", rest) := by
  rfl

theorem withoutEmptyStart_ne_nil (parts : List (List Char)) :
    Route.withoutEmptyStart parts ≠ [] := by
  unfold Route.withoutEmptyStart
  split
  · simp
  · next hrest => exact hrest

theorem ofParts_withoutEmptyStart (parts : List (List Char)) :
    ∃ texts, texts ≠ [] ∧ Route.ofParts (Route.withoutEmptyStart parts) = .segments texts := by
  refine ⟨_, ?_, rfl⟩
  rw [ne_eq, List.map_eq_nil_iff]
  exact withoutEmptyStart_ne_nil parts

theorem route_of_localFile? {s : List Char} {authority : Authority} {route : Route}
    (h : localFile? s = some (authority, route)) :
    ∃ parts, parts ≠ [] ∧ route = .segments parts := by
  have hroute : ∃ parts, Route.ofParts (Route.withoutEmptyStart parts) = route := by
    unfold localFile? at h
    simp only [Option.bind_eq_bind, Option.pure_def] at h
    split at h
    · split at h
      · split at h
        · exact ⟨_, (Prod.mk.inj (Option.some.inj h)).2⟩
        · split at h
          · exact ⟨_, (Prod.mk.inj (Option.some.inj h)).2⟩
          · obtain ⟨host, -, h⟩ := Option.bind_eq_some_iff.1 h
            exact ⟨_, (Prod.mk.inj (Option.some.inj h)).2⟩
      · exact ⟨_, (Prod.mk.inj (Option.some.inj h)).2⟩
    · exact ⟨_, (Prod.mk.inj (Option.some.inj h)).2⟩
  obtain ⟨parts, rfl⟩ := hroute
  exact ofParts_withoutEmptyStart parts

theorem route_of_file {x : String} {u : Url} (h : ofString? ("file://" ++ x) = some u) :
    ∃ parts, parts ≠ [] ∧ u.route = .segments parts := by
  obtain ⟨rest, hrest⟩ := cleaned_append "file:".toList ("//".toList ++ x.toList) (by decide)
    (by simp)
  have htext : ("file://" ++ x).toList = "file:".toList ++ ("//".toList ++ x.toList) := by
    rw [String.toList_append]
    rfl
  unfold ofString? at h
  rw [htext, hrest, scheme?_file] at h
  simp only [Option.bind_eq_bind, Option.bind_some, middle?, familyOf, if_true,
    Option.bind_eq_some_iff, Option.pure_def, Option.some.injEq] at h
  obtain ⟨-, ⟨⟨authority, route⟩, hlocal, rfl⟩, rfl⟩ := h
  exact route_of_localFile? hlocal

theorem isAbsolute_of_filePath? {u : Url} {parts : List String} {path : Path}
    (hparts : parts ≠ []) (hroute : u.route = .segments parts) (h : u.filePath? = some path) :
    path.isAbsolute := by
  have hslash : (parts.flatMap fun part => Path.slash :: percentDecode part.toList).head? =
      some Path.slash := by
    cases parts with
    | nil => contradiction
    | cons part parts => rfl
  unfold filePath? at h
  rw [hroute] at h
  simp only [Option.bind_eq_bind, Option.bind_some] at h
  split at h
  · contradiction
  · split at h
    · split at h
      · rw [← Option.some.inj h]
        simp [Path.isAbsolute, List.head?_append, hslash]
      · rw [← Option.some.inj h]
        simp [Path.isAbsolute, hslash]
    · rw [← Option.some.inj h]
      simp [Path.isAbsolute, hslash]

end Url

theorem Secret.SopsEnv.isAbsolute_of_filePath {uri : Url} {path : Path}
    (h : Secret.SopsEnv.filePath uri = .ok path) : path.isAbsolute := by
  unfold Secret.SopsEnv.filePath at h
  split at h
  · contradiction
  · split at h
    · next found hfound =>
      obtain ⟨u, hu, hpath⟩ := Option.bind_eq_some_iff.1 hfound
      obtain ⟨parts, hparts, hroute⟩ := Url.route_of_file hu
      rw [← Except.ok.inj h]
      exact Url.isAbsolute_of_filePath? hparts hroute hpath
    · contradiction

end SecretDotenv
