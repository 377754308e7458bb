import SecretDotenv.Proofs.Expansion.Joined
import SecretDotenv.Proofs.Expansion.Turns

/-! What a reference stands for. A look-up in the turn of an entry sees the entry itself, with its
raw value. So it finds what is beside the entry, unless the entry is the first of its name: then a
reference to the name stands for the raw value, whatever the variables are. -/
namespace SecretDotenv.Expansion

open SecretDotenv.Secret SecretDotenv.Dotenv

namespace Context

variable {σ : Type} {cx : Context σ} {mode : Mode} {document : Document} {world : σ} {index : Nat}
  {name : String} {visit : Visit σ}

theorem lookup_without {d : Document} (h : d.place? name ≠ some index) :
    cx.lookup (d.without index) name = cx.lookup d name := by
  rw [lookup, Document.get?_without h, lookup]

theorem lookup_of_place? {d : Document} {entry : Entry} (h : d.place? name = some index)
    (hentry : d.entryAt? index = some entry) : cx.lookup d name = some entry.value :=
  lookup_of_get? (Document.get?_of_place? h hentry)

def resolveTo (name : String) (otherwise : Otherwise) (found : Option String) : Step σ String :=
  match found with
  | some value => return value
  | none => withoutValue name otherwise

theorem expandPiece_resolveTo (cx : Context σ) (mode : Mode) (name : String) (otherwise : Otherwise)
    (p : Progress σ) :
    cx.expandPiece mode (.reference name otherwise) p =
      resolveTo name otherwise (cx.lookup p.document name) p := by
  cases h : cx.lookup p.document name with
  | none => exact expandPiece_unset otherwise h
  | some value => exact expandPiece_found otherwise h

theorem own_turn {entry : Entry} (hentry : document.entryAt? index = some entry)
    (hvisit : visit ∈ cx.visitsAt mode index (cx.reached mode document world index)) :
    visit.before.document.entryAt? index = some entry ∧
      ∀ name, visit.before.document.place? name = some index ↔ document.place? name = some index := by
  have hindex := Document.lt_length_of_entryAt? hentry
  have hlength := cx.le_length_reached mode world (Nat.le_of_lt hindex)
  have halong := (mem_visitsAt hvisit).2
  have hreached : Document.Since document.nodes.length document
      (cx.reached mode document world index).document :=
    cx.since_expandAll mode (p := { document, world }) (Nat.le_refl _) fun _ hi =>
      Nat.lt_trans (List.mem_range.1 hi) hindex
  refine ⟨?_, fun name => ?_⟩
  · obtain ⟨more, hmore⟩ := halong
    have hnode : visit.before.document.nodes[index]? = document.nodes[index]? := by
      rw [← hmore, List.getElem?_append_left (Nat.lt_of_lt_of_le hindex hlength)]
      exact cx.getElem?_reached mode world (Nat.le_refl _) hindex
    exact (Document.entryAt?_congr hnode).trans hentry
  · exact (hreached.trans (.of_isPrefix hlength halong)).place?_iff hindex

/-- In the turn of an entry a reference stands for what is found beside the entry: for the first
other entry of the name as it is by then, or else a variable of the run, or else one of the
environment; if there is none, it is unset. It is so unless the entry is the first of the name:
then the reference stands for the raw value of the entry itself. -/
theorem reference_resolved (cx : Context σ) (mode : Mode) (document : Document) (world : σ)
    {index : Nat} {entry : Entry} (hentry : document.entryAt? index = some entry) {visit : Visit σ}
    (hvisit : visit ∈ cx.visitsAt mode index (cx.reached mode document world index)) {name : String}
    {otherwise : Otherwise} (hpiece : visit.placed.piece = .reference name otherwise) :
    (document.place? name ≠ some index →
      cx.expandPiece mode visit.placed.piece visit.before =
        resolveTo name otherwise (cx.lookup (visit.before.document.without index) name)
          visit.before) ∧
    (document.place? name = some index →
      cx.expandPiece mode visit.placed.piece visit.before = (.ok entry.value, visit.before)) := by
  obtain ⟨hown, hplace⟩ := own_turn hentry hvisit
  rw [hpiece, expandPiece_resolveTo]
  refine ⟨?_, ?_⟩
  · intro hother
    rw [lookup_without (mt (hplace name).1 hother)]
  · intro hfirst
    rw [lookup_of_place? ((hplace name).2 hfirst) hown]
    rfl

theorem head_mem_visitsAt {entry : Entry} {x : Placed} {p : Progress σ}
    (hentry : p.document.entryAt? index = some entry) (hgoes : cx.stopped mode p.world = false)
    (hx : (pieces cx.options.switches entry.value).head? = some x) :
    { placed := x, before := p } ∈ cx.visitsAt mode index p := by
  obtain ⟨rest, hrest⟩ := List.head?_eq_some_iff.1 hx
  rw [visitsAt_of_goes hentry hgoes, hrest]
  exact List.mem_cons_self

/-- In its own entry the name stands for the raw value, and behind it for what has become of that.
Other names stand for a variable of the environment, or for nothing. -/
theorem reference_resolved_path :
    let cx := onSession { bindings := [("PATH", "/bin")] } [] (fun _ _ => none) [("HOME", "/root")]
    let document : Document :=
      .ofPairs [("PATH", "$PATH:/opt/bin"), ("A", "$PATH"), ("B", "$HOME"), ("C", "$D")]
    let value := fun name index =>
      (cx.expandPiece .blocking (.reference name (.fail none))
        (cx.reached .blocking document {} index)).1
    value "PATH" 0 = .ok "$PATH:/opt/bin" ∧ value "PATH" 1 = .ok "$PATH:/opt/bin:/opt/bin" ∧
      value "HOME" 2 = .ok "/root" ∧ value "D" 3 = .error (.unset "D") := by
  intro cx document value
  have hresolved := fun index entry name
      (hentry : document.entryAt? index = some entry)
      (hwaits : (cx.reached .blocking document {} index).document.entryAt? index = some entry)
      (hhead : (pieces cx.options.switches entry.value).head? =
        some { position := 0, piece := .reference name (.fail none) }) =>
    cx.reference_resolved .blocking document {} hentry
      (head_mem_visitsAt hwaits rfl hhead)
      (Eq.refl (Piece.reference name (.fail none)))
  refine ⟨?_, ?_, ?_, ?_⟩
  · have hown := (hresolved 0 ⟨"PATH", "$PATH:/opt/bin"⟩ "PATH" rfl rfl (by decide +kernel)).2
    exact congrArg Prod.fst (hown (by decide +kernel))
  · have hother := (hresolved 1 ⟨"A", "$PATH"⟩ "PATH" rfl (by decide +kernel) (by decide +kernel)).1
    exact (congrArg Prod.fst (hother (by decide +kernel))).trans (by decide +kernel)
  · have hother := (hresolved 2 ⟨"B", "$HOME"⟩ "HOME" rfl (by decide +kernel) (by decide +kernel)).1
    exact (congrArg Prod.fst (hother (by decide +kernel))).trans (by decide +kernel)
  · have hother := (hresolved 3 ⟨"C", "$D"⟩ "D" rfl (by decide +kernel) (by decide +kernel)).1
    exact (congrArg Prod.fst (hother (by decide +kernel))).trans (by decide +kernel)

/-- An entry that refers to its own name does not get the variable, but its own raw value. -/
theorem own_reference_raw :
    let cx := onSession { bindings := [("PATH", "/bin")] } [] (fun _ _ => none) []
    let document : Document := .ofPairs [("PATH", "$PATH:/opt/bin")]
    let summary := (cx.expand .blocking document {}).1
    cx.lookup (document.without 0) "PATH" = some "/bin" ∧ summary.failures = [] ∧
      summary.document.get? "PATH" = some "$PATH:/opt/bin:/opt/bin" ∧
      summary.document.get? "PATH" ≠ some "/bin:/opt/bin" := by
  decide +kernel

end Context
end SecretDotenv.Expansion
