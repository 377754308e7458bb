import SecretDotenv.Proofs.Expansion.Turns

/-! What a whole pass leaves alone, and what becomes of each entry: the value that it was
given is what is expanded in its turn. -/
namespace SecretDotenv.Expansion

open SecretDotenv.Secret SecretDotenv.Dotenv

namespace Context

variable {σ : Type}

def passDefaults (cx : Context σ) (mode : Mode) (document : Document) (world : σ) :
    List (String × String) :=
  (cx.passVisits mode document world).filterMap cx.assignedAt?

/-- What a pass leaves of a document and of the world, and what it adds. -/
structure Framed (cx : Context σ) (mode : Mode) (document : Document) (world : σ)
    (summary : Summary) (after : σ) : Prop where
  length_le : document.nodes.length ≤ summary.document.nodes.length
  labels : (summary.document.nodes.take document.nodes.length).map Node.label =
    document.nodes.map Node.label
  raw : ∀ turn ∈ cx.passTurns mode document world,
    ∃ entry, document.entryAt? turn.index = some entry ∧ turn.raw = entry.value ∧
      summary.result turn.index =
        settled turn.index entry (cx.expandValue mode turn.raw turn.before).1
  /-- Only a run that was told to stop leaves out an entry. -/
  turns : ∀ index entry, document.entryAt? index = some entry →
    (∃ turn ∈ cx.passTurns mode document world, turn.index = index) ∨
      mode = .cooperative ∧
        summary.result index = settled index entry (.error { cause := .cancelled, position := 0 })
  failed : ∀ failure ∈ summary.failures, ∃ entry, document.entryAt? failure.index = some entry ∧
    failure.key = entry.name ∧ summary.document.entryAt? failure.index = some entry
  increasing : (summary.failures.map (·.index)).Pairwise (· < ·)
  bounded : ∀ failure ∈ summary.failures, failure.index < document.nodes.length
  behind : summary.document.nodes.drop document.nodes.length =
    (cx.passDefaults mode document world).map addedNode
  /-- A default that is added stands in an input value, and nothing else defines its name. -/
  written : ∀ default ∈ cx.passDefaults mode document world,
    Piece.isName default.1.toList = true ∧
      (∃ entry ∈ document.entries,
        (Piece.assignment default.1 default.2).toList <:+: entry.value.toList) ∧
      (∀ entry ∈ document.entries, entry.name ≠ default.1) ∧
      default.1 ∉ cx.options.bindings.map (·.1) ∧ cx.environment.get? default.1 = none
  distinct : ((cx.passDefaults mode document world).map (·.1)).Nodup
  lasting : ∀ before visit after name value,
    cx.passVisits mode document world = before ++ visit :: after →
      cx.assignedAt? visit = some (name, value) →
        ∀ later ∈ after, cx.lookup later.before.document name = some value
  asked : cx.Leads mode world (cx.passAsked mode document world) after

variable {cx : Context σ} {mode : Mode} {document : Document} {world : σ}

theorem result_of_turn {turn : Turn σ} (h : turn ∈ cx.passTurns mode document world) :
    ∃ entry, document.entryAt? turn.index = some entry ∧ turn.raw = entry.value ∧
      (cx.expand mode document world).1.result turn.index =
        settled turn.index entry (cx.expandValue mode turn.raw turn.before).1 := by
  obtain ⟨hindex, hturn⟩ := (cx.mem_passTurns mode world).1 h
  obtain ⟨-, hbefore, hgoes, entry, hentry, hraw⟩ := turn_of_turnAt? hturn
  rw [cx.entryAt?_reached mode world hindex] at hentry
  refine ⟨entry, hentry, hraw, ?_⟩
  rw [cx.result_expand_entry mode world hentry, expandEntry_eq, hgoes, hraw, hbefore]
  rfl

theorem turn_or_stopped {index : Nat} {entry : Entry} (h : document.entryAt? index = some entry) :
    (∃ turn ∈ cx.passTurns mode document world, turn.index = index) ∨
      mode = .cooperative ∧ (cx.expand mode document world).1.result index =
        settled index entry (.error { cause := .cancelled, position := 0 }) := by
  have hindex := Document.lt_length_of_entryAt? h
  have hentry := (cx.entryAt?_reached mode world hindex).trans h
  cases hstop : cx.stopped mode (cx.reached mode document world index).world with
  | false =>
    refine .inl ⟨{ index, raw := entry.value, before := cx.reached mode document world index }, ?_,
      rfl⟩
    exact (cx.mem_passTurns mode world).2 ⟨hindex, turnAt?_of_goes hentry hstop⟩
  | true =>
    refine .inr ⟨?_, ?_⟩
    · cases mode with
      | blocking => simp at hstop
      | cooperative => rfl
    · rw [cx.result_expand_entry mode world h, expandEntry_eq, if_pos hstop]

theorem mem_passVisits {v : Visit σ} (h : v ∈ cx.passVisits mode document world) :
    ∃ entry ∈ document.entries, v.placed ∈ pieces cx.options.switches entry.value := by
  obtain ⟨turn, hturn, hv⟩ := List.mem_flatMap.1 h
  obtain ⟨entry, hentry, hraw, -⟩ := result_of_turn hturn
  have hplaced := (mem_visits hv).1
  rw [hraw] at hplaced
  exact ⟨entry, Document.mem_entries_of_entryAt? hentry, hplaced⟩

theorem expand_framed (cx : Context σ) (mode : Mode) (document : Document) (world : σ) :
    cx.Framed mode document world (cx.expand mode document world).1
      (cx.expand mode document world).2 := by
  have hn : document.nodes.length ≤ ({ document, world } : Progress σ).document.nodes.length :=
    Nat.le_refl _
  have hindices : ∀ index ∈ List.range document.nodes.length, index < document.nodes.length :=
    fun _ => List.mem_range.1
  have hnodup : (List.range document.nodes.length).Nodup := List.nodup_range
  have hsince := cx.since_expandAll mode hn hindices
  have hfailures := cx.failures_sublist mode (List.range document.nodes.length) { document, world }
  have hpairs := cx.pairwise_visitsAll mode hn hindices
  refine { length_le := hsince.le_length hn, labels := ?labels, raw := fun _ => result_of_turn,
           turns := fun _ _ => turn_or_stopped, failed := ?failed,
           increasing := ?increasing, bounded := ?bounded, behind := ?behind,
           written := ?written, distinct := ?distinct, lasting := ?lasting,
           asked := cx.leads_expand mode document world }
  case labels =>
    refine hsince.labels.trans ?_
    rw [List.take_length]
  case failed =>
    intro failure hfailure
    obtain ⟨-, ⟨entry, hentry, hkey⟩, hnode⟩ := cx.mem_failures mode hn hindices hnodup hfailure
    exact ⟨entry, hentry, hkey, (Document.entryAt?_congr hnode).trans hentry⟩
  case increasing => exact List.pairwise_lt_range.sublist hfailures
  case bounded =>
    intro failure hfailure
    exact List.mem_range.1 (hfailures.subset (List.mem_map_of_mem hfailure))
  case behind =>
    refine (cx.drop_expandAll mode hn hindices).trans ?_
    rw [List.drop_length, List.nil_append]
    rfl
  case written =>
    -- A name that is free when its default is added was free among the first nodes all along.
    rintro ⟨name, value⟩ hdefault
    obtain ⟨visit, hvisit, hassigned⟩ := List.mem_filterMap.1 hdefault
    obtain ⟨hpiece, hunset⟩ := assigned?_eq_some hassigned
    obtain ⟨entry, hentry, hplaced⟩ := mem_passVisits hvisit
    obtain ⟨hname, hinfix⟩ := piece_of_assign hplaced hpiece
    obtain ⟨hfree, hbindings, henvironment⟩ := lookup_eq_none_iff.1 hunset
    have hfront := (cx.since_visitsAll mode hn hindices hvisit).front_eq_none_iff.1
      (Document.front_eq_none _ hfree)
    rw [List.take_length] at hfront
    exact ⟨hname, ⟨entry, hentry, hinfix⟩, Document.get?_eq_none_iff.1 hfront, hbindings,
      henvironment⟩
  case distinct =>
    -- The later of two defaults of one name would find the earlier.
    rw [passDefaults, List.Nodup, List.pairwise_map, List.pairwise_filterMap]
    refine hpairs.imp_of_mem ?_
    intro u v hu _ huv first hfirst second hsecond hname
    have hfound := cx.get?_of_assignedAt? mode hn hindices hu hfirst huv
    rw [hname, (lookup_eq_none_iff.1 (assigned?_eq_some hsecond).2).1] at hfound
    contradiction
  case lasting =>
    intro before visit after name value hvisits hassigned later hlater
    have hmem : visit ∈ cx.visitsAll mode (List.range document.nodes.length) { document, world } := by
      rw [passVisits] at hvisits
      simp [hvisits]
    rw [← passVisits, hvisits] at hpairs
    have hafter := (List.pairwise_cons.1 (List.pairwise_append.1 hpairs).2.1).1 later hlater
    exact lookup_of_get? (cx.get?_of_assignedAt? mode hn hindices hmem hassigned hafter)

end Context
end SecretDotenv.Expansion
