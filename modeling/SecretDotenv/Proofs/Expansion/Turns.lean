import SecretDotenv.Proofs.Expansion.Frame

/-! A pass as the turns of its nodes. Where a pass stands before a node follows from the
nodes before it, and what becomes of a node is what its own turn makes of it. -/
namespace SecretDotenv.Expansion

open SecretDotenv.Secret SecretDotenv.Dotenv

def Summary.result (summary : Summary) (index : Nat) : Option Node × Option EntryFailure :=
  (summary.document.nodes[index]?, summary.failures.find? (·.index == index))

namespace Context

variable {σ : Type}

/-- Where a pass stands before the node at an index. -/
def reached (cx : Context σ) (mode : Mode) (document : Document) (world : σ) (index : Nat) :
    Progress σ :=
  (cx.expandAll mode (List.range index) { document, world }).2

def failuresBefore (cx : Context σ) (mode : Mode) (document : Document) (world : σ) (index : Nat) :
    List EntryFailure :=
  (cx.expandAll mode (List.range index) { document, world }).1

def askedBefore (cx : Context σ) (mode : Mode) (document : Document) (world : σ) (index : Nat) :
    List (Asked σ) :=
  (cx.visitsAll mode (List.range index) { document, world }).filterMap (cx.askedAt? mode)

def askedIn (cx : Context σ) (mode : Mode) (index : Nat) (p : Progress σ) : List (Asked σ) :=
  (cx.visitsAt mode index p).filterMap (cx.askedAt? mode)

theorem askedIn_of_none {cx : Context σ} {mode : Mode} {index : Nat} {p : Progress σ}
    (h : p.document.entryAt? index = none) : cx.askedIn mode index p = [] := by
  rw [askedIn, visitsAt_of_none h, List.filterMap_nil]

theorem askedIn_of_goes {cx : Context σ} {mode : Mode} {index : Nat} {p : Progress σ} {entry : Entry}
    (h : p.document.entryAt? index = some entry) (hgoes : cx.stopped mode p.world = false) :
    cx.askedIn mode index p = cx.valueAsked mode entry.value p := by
  rw [askedIn, visitsAt_of_goes h hgoes]
  rfl

variable (cx : Context σ) (mode : Mode)

theorem expandAll_append (front back : List Nat) (p : Progress σ) :
    cx.expandAll mode (front ++ back) p =
      ((cx.expandAll mode front p).1 ++ (cx.expandAll mode back (cx.expandAll mode front p).2).1,
        (cx.expandAll mode back (cx.expandAll mode front p).2).2) := by
  induction front generalizing p with
  | nil => rfl
  | cons index rest ih =>
    rw [List.cons_append, expandAll_cons, ih, expandAll_cons]
    simp only [List.append_assoc]

theorem turns_append (front back : List Nat) (p : Progress σ) :
    cx.turns mode (front ++ back) p =
      cx.turns mode front p ++ cx.turns mode back (cx.expandAll mode front p).2 := by
  induction front generalizing p with
  | nil => rfl
  | cons index rest ih =>
    rw [List.cons_append, turns, ih, turns, expandAll_cons, List.append_assoc]

variable (document : Document) (world : σ)

theorem expand_eq :
    cx.expand mode document world =
      ({ document := (cx.reached mode document world document.nodes.length).document
         failures := cx.failuresBefore mode document world document.nodes.length },
        (cx.reached mode document world document.nodes.length).world) :=
  rfl

theorem passAsked_eq :
    cx.passAsked mode document world = cx.askedBefore mode document world document.nodes.length :=
  rfl

@[simp] theorem reached_zero : cx.reached mode document world 0 = { document, world } := rfl

theorem reached_succ (index : Nat) :
    cx.reached mode document world (index + 1) =
      (cx.expandAt mode index (cx.reached mode document world index)).2 := by
  rw [reached, List.range_succ, expandAll_append, expandAll_cons]
  rfl

theorem failuresBefore_succ (index : Nat) :
    cx.failuresBefore mode document world (index + 1) =
      cx.failuresBefore mode document world index ++
        (cx.expandAt mode index (cx.reached mode document world index)).1.toList := by
  rw [failuresBefore, List.range_succ, expandAll_append, expandAll_cons]
  simp only [expandAll, List.append_nil]
  rfl

theorem turns_range_succ (index : Nat) :
    cx.turns mode (List.range (index + 1)) { document, world } =
      cx.turns mode (List.range index) { document, world } ++
        (cx.turnAt? mode index (cx.reached mode document world index)).toList := by
  rw [List.range_succ, turns_append]
  simp only [turns, List.append_nil]
  rfl

theorem askedBefore_succ (index : Nat) :
    cx.askedBefore mode document world (index + 1) =
      cx.askedBefore mode document world index ++
        cx.askedIn mode index (cx.reached mode document world index) := by
  rw [askedBefore, visitsAll, turns_range_succ, List.flatMap_append, List.filterMap_append]
  rfl

theorem askedBefore_prefix_of_le {index later : Nat} (h : index ≤ later) :
    cx.askedBefore mode document world index <+: cx.askedBefore mode document world later := by
  induction h with
  | refl => exact List.prefix_refl _
  | step _ ih =>
    refine ih.trans ?_
    rw [askedBefore_succ]
    exact List.prefix_append _ _

variable {document}

theorem askedIn_subset {index : Nat} (hindex : index < document.nodes.length) :
    cx.askedIn mode index (cx.reached mode document world index) ⊆
      cx.passAsked mode document world := by
  refine List.Subset.trans ?_ (cx.askedBefore_prefix_of_le mode document world hindex).subset
  rw [askedBefore_succ]
  exact List.subset_append_right _ _

theorem mem_passTurns {turn : Turn σ} :
    turn ∈ cx.passTurns mode document world ↔
      turn.index < document.nodes.length ∧
        cx.turnAt? mode turn.index (cx.reached mode document world turn.index) = some turn := by
  have hmem : ∀ n, turn ∈ cx.turns mode (List.range n) { document, world } ↔
      turn.index < n ∧
        cx.turnAt? mode turn.index (cx.reached mode document world turn.index) = some turn := by
    intro n
    induction n with
    | zero => simp [turns]
    | succ n ih =>
      rw [turns_range_succ, List.mem_append, ih, Option.mem_toList]
      constructor
      · rintro (⟨hindex, hturn⟩ | hturn)
        · exact ⟨Nat.lt_succ_of_lt hindex, hturn⟩
        · obtain ⟨rfl, -⟩ := turn_of_turnAt? hturn
          exact ⟨Nat.lt_succ_self _, hturn⟩
      · rintro ⟨hindex, hturn⟩
        rcases Nat.lt_succ_iff_lt_or_eq.1 hindex with hindex | rfl
        · exact .inl ⟨hindex, hturn⟩
        · exact .inr hturn
  exact hmem _

theorem le_length_reached {index : Nat} (hindex : index ≤ document.nodes.length) :
    document.nodes.length ≤ (cx.reached mode document world index).document.nodes.length := by
  have hbounds : ∀ i ∈ List.range index, i < document.nodes.length := fun i hi =>
    Nat.lt_of_lt_of_le (List.mem_range.1 hi) hindex
  have hsince := cx.since_expandAll mode (p := { document, world }) (Nat.le_refl _) hbounds
  exact hsince.le_length (Nat.le_refl _)

theorem getElem?_reached {index j : Nat} (hindex : index ≤ j) (hj : j < document.nodes.length) :
    (cx.reached mode document world index).document.nodes[j]? = document.nodes[j]? := by
  refine cx.getElem?_expandAll mode hj (Nat.le_refl _) ?_ ?_
  · intro i hi
    have := List.mem_range.1 hi
    omega
  · simpa using hindex

theorem entryAt?_reached {index : Nat} (hindex : index < document.nodes.length) :
    (cx.reached mode document world index).document.entryAt? index = document.entryAt? index :=
  Document.entryAt?_congr (cx.getElem?_reached mode world (Nat.le_refl index) hindex)

theorem find?_failuresBefore {index later : Nat} (h : later ≤ index) :
    (cx.failuresBefore mode document world later).find? (·.index == index) = none := by
  rw [List.find?_eq_none]
  intro failure hfailure hindex
  have hmem := (cx.failures_sublist mode _ _).subset (List.mem_map_of_mem hfailure)
  rw [beq_iff_eq.1 hindex, List.mem_range] at hmem
  omega

theorem kept_of_lt {index later : Nat} (h : index < later) (hlater : later ≤ document.nodes.length) :
    (cx.reached mode document world later).document.nodes[index]? =
        (cx.expandAt mode index (cx.reached mode document world index)).2.document.nodes[index]? ∧
      (cx.failuresBefore mode document world later).find? (·.index == index) =
        (cx.expandAt mode index (cx.reached mode document world index)).1 := by
  induction h with
  | refl =>
    rw [reached_succ, failuresBefore_succ, List.find?_append,
      cx.find?_failuresBefore mode world (Nat.le_refl index), Option.none_or]
    refine ⟨rfl, ?_⟩
    cases hfailed : (cx.expandAt mode index (cx.reached mode document world index)).1 with
    | none => rfl
    | some failure => simp [(failure_of_expandAt hfailed).1]
  | @step later hindex ih =>
    have hne : index ≠ later := Nat.ne_of_lt hindex
    have hbound : index < document.nodes.length :=
      Nat.lt_of_lt_of_le hindex (Nat.le_of_succ_le hlater)
    have hlength := cx.le_length_reached mode world (Nat.le_of_succ_le hlater)
    obtain ⟨hnode, hfailure⟩ := ih (Nat.le_of_succ_le hlater)
    rw [reached_succ, cx.getElem?_expandAt mode (Nat.lt_of_lt_of_le hbound hlength) (.inl hne), hnode,
      failuresBefore_succ, List.find?_append, hfailure]
    refine ⟨rfl, ?_⟩
    cases hfailed : (cx.expandAt mode later (cx.reached mode document world later)).1 with
    | none => simp
    | some failure => simp [(failure_of_expandAt hfailed).1, hne.symm]

/-- What becomes of an entry's node when its value comes to a result. -/
def settled (index : Nat) (entry : Entry) :
    Except Failure String → Option Node × Option EntryFailure
  | .ok value => (some (.entry { entry with value }), none)
  | .error failure => (some (.entry entry), some { index, key := entry.name, failure })

theorem result_expand {index : Nat} (hindex : index < document.nodes.length) :
    (cx.expand mode document world).1.result index =
      ((cx.expandAt mode index (cx.reached mode document world index)).2.document.nodes[index]?,
        (cx.expandAt mode index (cx.reached mode document world index)).1) := by
  obtain ⟨hnode, hfailure⟩ := cx.kept_of_lt mode world hindex (Nat.le_refl _)
  exact Prod.ext hnode hfailure

theorem settled_expandAt {index : Nat} {p : Progress σ} {entry : Entry}
    (hentry : p.document.entryAt? index = some entry) :
    ((cx.expandAt mode index p).2.document.nodes[index]?, (cx.expandAt mode index p).1) =
      settled index entry (cx.expandEntry mode entry.value p).1 := by
  have hnode := Document.getElem?_of_entryAt? hentry
  have hindex := Document.lt_length_of_entryAt? hentry
  rw [expandEntry_eq]
  rcases cx.turn_cases mode index p with
    hnone | ⟨e, he, hstop | ⟨hgoes, ⟨value, q, hvalue⟩ | ⟨failure, q, hvalue⟩⟩⟩
  · rw [hentry] at hnone
    contradiction
  all_goals obtain rfl := Option.some.inj (he.symm.trans hentry)
  · rw [expandAt_of_stopped he hstop, if_pos hstop, hnode]
    rfl
  · have hnodes := cx.nodes_expandPieces mode (pieces cx.options.switches e.value) "" p
    rw [← expandValue, hvalue] at hnodes
    rw [expandAt_of_ok he hgoes hvalue, hgoes, hvalue, Document.setValueAt, List.getElem?_modify, hnodes,
      List.getElem?_append_left hindex, hnode]
    simp [settled, Document.Node.withValue]
  · have hfailed : (cx.expandAt mode index p).1 ≠ none := by
      simp [expandAt_of_error he hgoes hvalue]
    rw [cx.getElem?_expandAt mode hindex (.inr hfailed), hnode, expandAt_of_error he hgoes hvalue,
      hgoes, hvalue]
    rfl

theorem result_expand_entry {index : Nat} {entry : Entry}
    (hentry : document.entryAt? index = some entry) :
    (cx.expand mode document world).1.result index =
      settled index entry
        (cx.expandEntry mode entry.value (cx.reached mode document world index)).1 := by
  have hindex := Document.lt_length_of_entryAt? hentry
  rw [cx.result_expand mode world hindex,
    cx.settled_expandAt mode ((cx.entryAt?_reached mode world hindex).trans hentry)]

end Context
end SecretDotenv.Expansion
