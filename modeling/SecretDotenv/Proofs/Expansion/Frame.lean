import SecretDotenv.Proofs.Dotenv.Labels
import SecretDotenv.Proofs.Expansion.Pieces
import SecretDotenv.Proofs.Expansion.Trace

/-! What a pass leaves alone. Defaults are added only for names that nothing defines, so a
document grows behind its nodes and no entry is touched but the one that is expanded. -/
namespace SecretDotenv.Expansion

open SecretDotenv.Secret SecretDotenv.Dotenv

def addedNode (default : String × String) : Node :=
  .entry { name := default.1, value := default.2 }

namespace Context

variable {σ : Type} {cx : Context σ} {mode : Mode}

def assignedAt? (cx : Context σ) (visit : Visit σ) : Option (String × String) :=
  cx.assigned? visit.before.document visit.placed.piece

theorem lookup_of_get? {document : Document} {name value : String}
    (h : document.get? name = some value) : cx.lookup document name = some value := by
  simp [lookup, h]

theorem lookup_eq_none_iff {document : Document} {name : String} :
    cx.lookup document name = none ↔ document.get? name = none ∧
      name ∉ cx.options.bindings.map (·.1) ∧ cx.environment.get? name = none := by
  have hbindings : cx.options.bindings.find? (·.1 == name) = none ↔
      name ∉ cx.options.bindings.map (·.1) := by
    simp only [List.find?_eq_none, beq_iff_eq, List.mem_map, not_exists, not_and]
  rw [← hbindings]
  cases h : document.get? name <;> simp [lookup, h]

theorem assigned?_eq_some {document : Document} {piece : Piece} {name value : String}
    (h : cx.assigned? document piece = some (name, value)) :
    piece = .reference name (.assign value) ∧ cx.lookup document name = none := by
  unfold assigned? at h
  split at h
  · split_ifs at h with hnone
    obtain ⟨rfl, rfl⟩ := Prod.mk.inj (Option.some.inj h)
    exact ⟨rfl, Option.isNone_iff_eq_none.1 hnone⟩
  · contradiction

theorem nodes_grown (cx : Context σ) (document : Document) (piece : Piece) :
    (cx.grown document piece).nodes =
      document.nodes ++ (cx.assigned? document piece).toList.map addedNode := by
  unfold grown
  cases h : cx.assigned? document piece with
  | none => simp
  | some default =>
    obtain ⟨name, value⟩ := default
    obtain ⟨-, hunset⟩ := assigned?_eq_some h
    exact Document.nodes_set value (lookup_eq_none_iff.1 hunset).1

theorem get?_grown {document : Document} {piece : Piece} {name value : String}
    (h : cx.assigned? document piece = some (name, value)) :
    (cx.grown document piece).get? name = some value := by
  obtain ⟨-, hunset⟩ := assigned?_eq_some h
  have hnone := (lookup_eq_none_iff.1 hunset).1
  unfold grown
  rw [h]
  exact Document.get?_of_entries_append value (Document.entries_set value hnone) hnone

theorem isPrefix_grown (cx : Context σ) (document : Document) (piece : Piece) :
    document.nodes <+: (cx.grown document piece).nodes := by
  rw [nodes_grown]
  exact List.prefix_append _ _

theorem document_of_expandPiece {piece : Piece} {p q : Progress σ}
    {result : Except Failure.Cause String} (h : cx.expandPiece mode piece p = (result, q)) :
    q.document = cx.grown p.document piece := by
  cases hquestion : cx.question? mode p.world piece with
  | none =>
    rw [expandPiece_of_quiet hquestion] at h
    rw [← (Prod.mk.inj h).2]
  | some question =>
    obtain ⟨script, rfl, -⟩ := asks_eq_some (question?_eq_some.1 hquestion).2
    rw [expandPiece_of_question hquestion] at h
    rw [← (Prod.mk.inj h).2]
    rfl

theorem nodes_expandPieces (cx : Context σ) (mode : Mode) (placed : List Placed) (done : String)
    (p : Progress σ) :
    (cx.expandPieces mode done placed p).2.document.nodes =
      p.document.nodes ++ ((cx.visits mode placed p).filterMap cx.assignedAt?).map addedNode := by
  induction placed, p using pieces_induction cx mode generalizing done with
  | nil p => simp [expandPieces, visits]
  | error x rest p cause q hx =>
    rw [visits_cons_error hx, expandPieces_cons_error hx, filterMap_cons_toList,
      document_of_expandPiece hx, nodes_grown]
    simp [assignedAt?]
  | ok x rest p value q hx ih =>
    rw [visits_cons_ok hx, expandPieces_cons_ok hx, filterMap_cons_toList, ih,
      document_of_expandPiece hx, nodes_grown]
    simp [assignedAt?]

theorem mem_visits {placed : List Placed} {p : Progress σ} {v : Visit σ}
    (h : v ∈ cx.visits mode placed p) :
    v.placed ∈ placed ∧ p.document.nodes <+: v.before.document.nodes := by
  induction placed, p using pieces_induction cx mode with
  | nil p => simp [visits] at h
  | error x rest p cause q hx =>
    rw [visits_cons_error hx, List.mem_singleton] at h
    subst h
    exact ⟨List.mem_cons_self, List.prefix_rfl⟩
  | ok x rest p value q hx ih =>
    rw [visits_cons_ok hx, List.mem_cons] at h
    rcases h with rfl | h
    · exact ⟨List.mem_cons_self, List.prefix_rfl⟩
    · obtain ⟨hmem, halong⟩ := ih h
      rw [document_of_expandPiece hx] at halong
      exact ⟨List.mem_cons_of_mem _ hmem, (cx.isPrefix_grown _ _).trans halong⟩

theorem pairwise_visits (cx : Context σ) (mode : Mode) (placed : List Placed) (p : Progress σ) :
    (cx.visits mode placed p).Pairwise fun u v =>
      (cx.grown u.before.document u.placed.piece).nodes <+: v.before.document.nodes := by
  induction placed, p using pieces_induction cx mode with
  | nil p => exact List.Pairwise.nil
  | error x rest p cause q hx =>
    rw [visits_cons_error hx]
    exact List.pairwise_singleton _ _
  | ok x rest p value q hx ih =>
    rw [visits_cons_ok hx]
    refine List.Pairwise.cons ?_ ih
    intro v hv
    rw [← document_of_expandPiece hx]
    exact (mem_visits hv).2

theorem grown_prefix_expandPieces (cx : Context σ) (mode : Mode) (placed : List Placed)
    (done : String) (p : Progress σ) :
    ∀ u ∈ cx.visits mode placed p, (cx.grown u.before.document u.placed.piece).nodes <+:
      (cx.expandPieces mode done placed p).2.document.nodes := by
  induction placed, p using pieces_induction cx mode generalizing done with
  | nil p => simp [visits]
  | error x rest p cause q hx =>
    rw [visits_cons_error hx, expandPieces_cons_error hx]
    intro u hu
    obtain rfl := List.mem_singleton.1 hu
    exact document_of_expandPiece hx ▸ List.prefix_rfl
  | ok x rest p value q hx ih =>
    rw [visits_cons_ok hx, expandPieces_cons_ok hx]
    intro u hu
    rcases List.mem_cons.1 hu with rfl | hu
    · rw [nodes_expandPieces, document_of_expandPiece hx]
      exact List.prefix_append _ _
    · exact ih _ u hu

variable {p : Progress σ} {index n : Nat} {indices : List Nat}

theorem failure_of_expandAt {failure : EntryFailure}
    (h : (cx.expandAt mode index p).1 = some failure) :
    failure.index = index ∧
      ∃ entry, p.document.entryAt? index = some entry ∧ failure.key = entry.name := by
  rcases cx.turn_cases mode index p with
    hentry | ⟨entry, hentry, hstop | ⟨hgoes, ⟨value, q, hvalue⟩ | ⟨_, q, hvalue⟩⟩⟩
  · simp [expandAt_of_none hentry] at h
  · rw [expandAt_of_stopped hentry hstop] at h
    obtain rfl := Option.some.inj h
    exact ⟨rfl, entry, hentry, rfl⟩
  · simp [expandAt_of_ok hentry hgoes hvalue] at h
  · rw [expandAt_of_error hentry hgoes hvalue] at h
    obtain rfl := Option.some.inj h
    exact ⟨rfl, entry, hentry, rfl⟩

theorem turn_of_turnAt? {turn : Turn σ} (h : cx.turnAt? mode index p = some turn) :
    turn.index = index ∧ turn.before = p ∧ cx.stopped mode p.world = false ∧
      ∃ entry, p.document.entryAt? index = some entry ∧ turn.raw = entry.value := by
  unfold turnAt? at h
  split at h
  · contradiction
  · next entry hentry =>
    split_ifs at h with hstop
    obtain rfl := Option.some.inj h
    exact ⟨rfl, rfl, Bool.not_eq_true _ ▸ hstop, entry, hentry, rfl⟩

theorem mem_visitsAt {v : Visit σ} (h : v ∈ cx.visitsAt mode index p) :
    (∃ entry, p.document.entryAt? index = some entry ∧
        v.placed ∈ pieces cx.options.switches entry.value) ∧
      p.document.nodes <+: v.before.document.nodes := by
  obtain ⟨turn, hturn, hv⟩ := List.mem_flatMap.1 h
  obtain ⟨-, hbefore, -, entry, hentry, hraw⟩ := turn_of_turnAt? (Option.mem_toList.1 hturn)
  obtain ⟨hplaced, halong⟩ := mem_visits hv
  rw [hraw] at hplaced
  rw [hbefore] at halong
  exact ⟨⟨entry, hentry, hplaced⟩, halong⟩

variable (cx mode)

/-- The document behind an entry's turn: what its pieces add, and its value if it has got one. -/
theorem document_expandAt (index : Nat) (p : Progress σ) :
    ∃ grown : Document,
      grown.nodes = p.document.nodes ++
        ((cx.visitsAt mode index p).filterMap cx.assignedAt?).map addedNode ∧
      (∀ u ∈ cx.visitsAt mode index p,
        (cx.grown u.before.document u.placed.piece).nodes <+: grown.nodes) ∧
      ((cx.expandAt mode index p).2.document = grown ∨
        (cx.expandAt mode index p).1 = none ∧
          ∃ value, (cx.expandAt mode index p).2.document = grown.setValueAt index value) := by
  rcases cx.turn_cases mode index p with
    hentry | ⟨entry, hentry, hstop | ⟨hgoes, ⟨value, q, hvalue⟩ | ⟨failure, q, hvalue⟩⟩⟩
  · rw [visitsAt_of_none hentry, expandAt_of_none hentry]
    exact ⟨p.document, by simp, by simp, .inl rfl⟩
  · rw [visitsAt_of_stopped hstop, expandAt_of_stopped hentry hstop]
    exact ⟨p.document, by simp, by simp, .inl rfl⟩
  all_goals
    have hnodes := cx.nodes_expandPieces mode (pieces cx.options.switches entry.value) "" p
    have halong := cx.grown_prefix_expandPieces mode (pieces cx.options.switches entry.value) "" p
    rw [← expandValue, hvalue] at hnodes halong
    rw [visitsAt_of_goes hentry hgoes]
  · rw [expandAt_of_ok hentry hgoes hvalue]
    exact ⟨q.document, hnodes, halong, .inr ⟨rfl, value, rfl⟩⟩
  · rw [expandAt_of_error hentry hgoes hvalue]
    exact ⟨q.document, hnodes, halong, .inl rfl⟩

theorem since_expandAt (hn : n ≤ p.document.nodes.length) (hindex : index < n) :
    Document.Since n p.document (cx.expandAt mode index p).2.document := by
  obtain ⟨grown, hnodes, -, hafter⟩ := cx.document_expandAt mode index p
  have hgrown : Document.Since n p.document grown :=
    .of_isPrefix hn (hnodes ▸ List.prefix_append _ _)
  rcases hafter with hafter | ⟨-, value, hafter⟩
  · rwa [hafter]
  · rw [hafter]
    exact hgrown.trans (.setValueAt grown value hindex)

theorem le_length_grown {u : Visit σ} (hn : n ≤ p.document.nodes.length)
    (hu : u ∈ cx.visitsAt mode index p) :
    n ≤ (cx.grown u.before.document u.placed.piece).nodes.length :=
  Nat.le_trans hn ((mem_visitsAt hu).2.trans (cx.isPrefix_grown _ _)).length_le

theorem pairwise_visitsAt (hn : n ≤ p.document.nodes.length) :
    (cx.visitsAt mode index p).Pairwise fun u v =>
      Document.Since n (cx.grown u.before.document u.placed.piece) v.before.document := by
  have halong : (cx.visitsAt mode index p).Pairwise fun u v =>
      (cx.grown u.before.document u.placed.piece).nodes <+: v.before.document.nodes := by
    unfold visitsAt
    cases cx.turnAt? mode index p with
    | none => exact List.Pairwise.nil
    | some turn => simpa [visitsOf] using cx.pairwise_visits mode _ _
  refine halong.imp_of_mem ?_
  intro u v hu _ huv
  exact .of_isPrefix (cx.le_length_grown mode hn hu) huv

theorem since_grown_expandAt {u : Visit σ} (hn : n ≤ p.document.nodes.length) (hindex : index < n)
    (hu : u ∈ cx.visitsAt mode index p) :
    Document.Since n (cx.grown u.before.document u.placed.piece)
      (cx.expandAt mode index p).2.document := by
  obtain ⟨grown, -, halong, hafter⟩ := cx.document_expandAt mode index p
  have hgrown := Document.Since.of_isPrefix (cx.le_length_grown mode hn hu) (halong u hu)
  rcases hafter with hafter | ⟨-, value, hafter⟩
  · rwa [hafter]
  · rw [hafter]
    exact hgrown.trans (.setValueAt grown value hindex)

theorem drop_expandAt (hn : n ≤ p.document.nodes.length) (hindex : index < n) :
    (cx.expandAt mode index p).2.document.nodes.drop n =
      p.document.nodes.drop n ++
        ((cx.visitsAt mode index p).filterMap cx.assignedAt?).map addedNode := by
  obtain ⟨grown, hnodes, -, hafter⟩ := cx.document_expandAt mode index p
  rw [← List.drop_append_of_le_length hn, ← hnodes]
  rcases hafter with hafter | ⟨-, value, hafter⟩
  · rw [hafter]
  · rw [hafter, Document.setValueAt, List.drop_modify_of_lt _ _ _ _ hindex]

theorem getElem?_expandAt {j : Nat} (hj : j < p.document.nodes.length)
    (hkept : j ≠ index ∨ (cx.expandAt mode index p).1 ≠ none) :
    (cx.expandAt mode index p).2.document.nodes[j]? = p.document.nodes[j]? := by
  obtain ⟨grown, hnodes, -, hafter⟩ := cx.document_expandAt mode index p
  rw [← List.getElem?_append_left hj, ← hnodes]
  rcases hafter with hafter | ⟨hnone, value, hafter⟩
  · rw [hafter]
  · have hne : j ≠ index := hkept.resolve_right (not_not_intro hnone)
    rw [hafter, Document.setValueAt, List.getElem?_modify]
    cases grown.nodes[j]? with
    | none => rfl
    | some node => simp [hne.symm]

theorem since_expandAll (hn : n ≤ p.document.nodes.length) (hindices : ∀ index ∈ indices, index < n) :
    Document.Since n p.document (cx.expandAll mode indices p).2.document := by
  induction indices generalizing p with
  | nil => exact .refl _ _
  | cons index rest ih =>
    obtain ⟨hindex, hrest⟩ := List.forall_mem_cons.1 hindices
    have hfirst := cx.since_expandAt mode hn hindex
    exact hfirst.trans (ih (hfirst.le_length hn) hrest)

theorem drop_expandAll (hn : n ≤ p.document.nodes.length) (hindices : ∀ index ∈ indices, index < n) :
    (cx.expandAll mode indices p).2.document.nodes.drop n =
      p.document.nodes.drop n ++
        ((cx.visitsAll mode indices p).filterMap cx.assignedAt?).map addedNode := by
  induction indices generalizing p with
  | nil => simp [expandAll, visitsAll, turns]
  | cons index rest ih =>
    obtain ⟨hindex, hrest⟩ := List.forall_mem_cons.1 hindices
    have hlength := (cx.since_expandAt mode hn hindex).le_length hn
    rw [expandAll_cons, visitsAll_cons, ih hlength hrest,
      cx.drop_expandAt mode hn hindex,
      List.filterMap_append, List.map_append, List.append_assoc]

theorem getElem?_expandAll {j : Nat} (hj : j < n) (hn : n ≤ p.document.nodes.length)
    (hindices : ∀ index ∈ indices, index < n) (hout : j ∉ indices) :
    (cx.expandAll mode indices p).2.document.nodes[j]? = p.document.nodes[j]? := by
  induction indices generalizing p with
  | nil => rfl
  | cons index rest ih =>
    obtain ⟨hindex, hrest⟩ := List.forall_mem_cons.1 hindices
    rw [List.mem_cons, not_or] at hout
    have hlength := (cx.since_expandAt mode hn hindex).le_length hn
    rw [expandAll_cons, ih hlength hrest hout.2,
      cx.getElem?_expandAt mode (by omega) (.inl hout.1)]

theorem mem_failures {failure : EntryFailure} (hn : n ≤ p.document.nodes.length)
    (hindices : ∀ index ∈ indices, index < n) (hnodup : indices.Nodup)
    (h : failure ∈ (cx.expandAll mode indices p).1) :
    failure.index ∈ indices ∧
      (∃ entry, p.document.entryAt? failure.index = some entry ∧ failure.key = entry.name) ∧
      (cx.expandAll mode indices p).2.document.nodes[failure.index]? =
        p.document.nodes[failure.index]? := by
  induction indices generalizing p with
  | nil => simp [expandAll] at h
  | cons index rest ih =>
    obtain ⟨hindex, hrest⟩ := List.forall_mem_cons.1 hindices
    obtain ⟨hfresh, hnodup⟩ := List.nodup_cons.1 hnodup
    have hlength := (cx.since_expandAt mode hn hindex).le_length hn
    rw [expandAll_cons] at h ⊢
    rcases List.mem_append.1 h with h | h
    · have hfailed := Option.mem_toList.1 h
      obtain ⟨rfl, hentry⟩ := failure_of_expandAt hfailed
      refine ⟨List.mem_cons_self, hentry, ?_⟩
      rw [cx.getElem?_expandAll mode hindex hlength hrest hfresh,
        cx.getElem?_expandAt mode (Nat.lt_of_lt_of_le hindex hn)
          (.inr (Option.ne_none_iff_exists'.2 ⟨failure, hfailed⟩))]
    · obtain ⟨hmem, ⟨entry, hentry, hkey⟩, hnode⟩ := ih hlength hrest hnodup h
      have hkept := cx.getElem?_expandAt mode
        (Nat.lt_of_lt_of_le (hrest _ hmem) hn) (.inl (ne_of_mem_of_not_mem hmem hfresh))
      exact ⟨List.mem_cons_of_mem _ hmem, ⟨entry, Document.entryAt?_congr hkept ▸ hentry, hkey⟩,
        hnode.trans hkept⟩

theorem failures_sublist (indices : List Nat) (p : Progress σ) :
    ((cx.expandAll mode indices p).1.map (·.index)).Sublist indices := by
  induction indices generalizing p with
  | nil => exact List.Sublist.slnil
  | cons index rest ih =>
    rw [expandAll_cons, List.map_append]
    cases hfailed : (cx.expandAt mode index p).1 with
    | none => exact (ih _).cons _
    | some failure =>
      obtain ⟨rfl, -⟩ := failure_of_expandAt hfailed
      exact (ih _).cons_cons _

theorem since_visitsAll {v : Visit σ} (hn : n ≤ p.document.nodes.length)
    (hindices : ∀ index ∈ indices, index < n) (hv : v ∈ cx.visitsAll mode indices p) :
    Document.Since n p.document v.before.document := by
  induction indices generalizing p with
  | nil => simp [visitsAll, turns] at hv
  | cons index rest ih =>
    obtain ⟨hindex, hrest⟩ := List.forall_mem_cons.1 hindices
    have hfirst := cx.since_expandAt mode hn hindex
    rw [visitsAll_cons] at hv
    rcases List.mem_append.1 hv with hv | hv
    · exact .of_isPrefix hn (mem_visitsAt hv).2
    · exact hfirst.trans (ih (hfirst.le_length hn) hrest hv)

theorem pairwise_visitsAll (hn : n ≤ p.document.nodes.length)
    (hindices : ∀ index ∈ indices, index < n) :
    (cx.visitsAll mode indices p).Pairwise fun u v =>
      Document.Since n (cx.grown u.before.document u.placed.piece) v.before.document := by
  induction indices generalizing p with
  | nil => exact List.Pairwise.nil
  | cons index rest ih =>
    obtain ⟨hindex, hrest⟩ := List.forall_mem_cons.1 hindices
    have hlength := (cx.since_expandAt mode hn hindex).le_length hn
    rw [visitsAll_cons, List.pairwise_append]
    refine ⟨cx.pairwise_visitsAt mode hn, ih hlength hrest, ?_⟩
    · intro u hu v hv
      exact (cx.since_grown_expandAt mode hn hindex hu).trans
        (cx.since_visitsAll mode hlength hrest hv)

theorem get?_of_assignedAt? {u : Visit σ} {name value : String} {later : Document}
    (hn : n ≤ p.document.nodes.length) (hindices : ∀ index ∈ indices, index < n)
    (hu : u ∈ cx.visitsAll mode indices p) (h : cx.assignedAt? u = some (name, value))
    (hlater : Document.Since n (cx.grown u.before.document u.placed.piece) later) :
    later.get? name = some value := by
  obtain ⟨-, hunset⟩ := assigned?_eq_some h
  have hfront := Document.front_eq_none n (lookup_eq_none_iff.1 hunset).1
  have hlength := (cx.since_visitsAll mode hn hindices hu).le_length hn
  have hgrown := Document.Since.of_isPrefix hlength (cx.isPrefix_grown _ u.placed.piece)
  exact hlater.get?_eq (hgrown.front_eq_none_iff.2 hfront) (get?_grown h)

end Context
end SecretDotenv.Expansion
