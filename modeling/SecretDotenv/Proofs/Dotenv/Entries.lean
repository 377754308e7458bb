import SecretDotenv.Proofs.Dotenv.WrittenForm

/-! Entries alone: what a look-up sees of a document, and what stays of it when an
entry is added, or when the document is written and read again. -/
namespace SecretDotenv.Dotenv

namespace Document

theorem get?_congr {d e : Document} (h : d.entries = e.entries) (name : String) :
    d.get? name = e.get? name := by
  unfold get?
  rw [h]

theorem get?_of_prefix {d e : Document} {name value : String} (h : d.entries <+: e.entries)
    (hd : d.get? name = some value) : e.get? name = some value := by
  obtain ⟨more, hmore⟩ := h
  obtain ⟨entry, hfind, hvalue⟩ := Option.map_eq_some_iff.1 hd
  unfold get?
  rw [← hmore, List.find?_append, hfind, Option.some_or, Option.map_some, hvalue]

theorem get?_of_entries_append {d e : Document} {name : String} (value : String)
    (h : e.entries = d.entries ++ [⟨name, value⟩]) (hd : d.get? name = none) :
    e.get? name = some value := by
  have hnone := Option.map_eq_none_iff.1 hd
  unfold get?
  rw [h, List.find?_append, hnone]
  simp

theorem nodes_set {d : Document} {name : String} (value : String) (h : d.get? name = none) :
    (d.set name value).nodes = d.nodes ++ [.entry { name, value }] := by
  obtain ⟨nodes⟩ := d
  unfold get? entries at h
  unfold set
  rw [Option.map_eq_none_iff] at h
  dsimp only at h ⊢
  induction nodes with
  | nil => rfl
  | cons node nodes ih =>
    cases node with
    | comment text =>
      rw [List.filterMap_cons_none rfl] at h
      rw [setNodes]
      · rw [ih h, List.cons_append]
      · simp
    | entry e =>
      have hentry : Node.entry? (.entry e) = some e := rfl
      rw [List.filterMap_cons_some hentry, List.find?_cons] at h
      split at h
      · contradiction
      · next hname =>
        have hother : e.name ≠ name := by simpa using hname
        rw [setNodes, if_neg hother, ih h, List.cons_append]

theorem entries_set {d : Document} {name : String} (value : String) (h : d.get? name = none) :
    (d.set name value).entries = d.entries ++ [⟨name, value⟩] := by
  rw [entries, nodes_set value h, List.filterMap_append]
  rfl

theorem get?_set_self (d : Document) (name value : String) :
    (d.set name value).get? name = some value := by
  obtain ⟨nodes⟩ := d
  unfold get? entries set
  dsimp only
  induction nodes with
  | nil => simp [setNodes, Node.entry?]
  | cons node nodes ih =>
    cases node with
    | comment text => exact ih
    | entry e =>
      rw [setNodes]
      split
      · next hname => simp [Node.entry?, hname]
      · next hother =>
        have hentry : Node.entry? (.entry e) = some e := rfl
        rw [List.filterMap_cons_some hentry, List.find?_cons_of_neg (by simpa using hother)]
        exact ih

theorem isReadable_set {d : Document} {name : String} (value : String)
    (hd : ∀ node ∈ d.nodes, node.IsReadable)
    (hname : (Node.entry { name, value }).IsReadable) :
    ∀ node ∈ (d.set name value).nodes, node.IsReadable := by
  obtain ⟨nodes⟩ := d
  unfold set
  dsimp only at hd ⊢
  induction nodes with
  | nil =>
    intro node hnode
    obtain rfl := List.mem_singleton.1 hnode
    exact hname
  | cons first nodes ih =>
    have hfirst := hd first List.mem_cons_self
    have hrest := ih fun node hnode => hd node (List.mem_cons_of_mem _ hnode)
    cases first with
    | comment text =>
      rw [setNodes]
      · intro node hnode
        rcases List.mem_cons.1 hnode with rfl | hnode
        · exact hfirst
        · exact hrest node hnode
      · simp
    | entry e =>
      rw [setNodes]
      split
      · intro node hnode
        rcases List.mem_cons.1 hnode with rfl | hnode
        · exact hfirst
        · exact hd node (List.mem_cons_of_mem _ hnode)
      · intro node hnode
        rcases List.mem_cons.1 hnode with rfl | hnode
        · exact hfirst
        · exact hrest node hnode

theorem entries_reread (nodes : List Node) :
    Document.entries { nodes := nodes.map Node.reread } = Document.entries { nodes } := by
  unfold entries
  dsimp only
  rw [List.filterMap_map]
  congr 1
  funext node
  cases node <;> rfl

theorem exists_parse_write {d : Document} (hd : ∀ node ∈ d.nodes, node.IsReadable) :
    ∃ read, Document.parse d.write = .ok read ∧ read.entries = d.entries :=
  ⟨_, parse_write_reread hd, entries_reread d.nodes⟩

end Document

end SecretDotenv.Dotenv
