import SecretDotenv.Proofs.Dotenv.Entries

/-! What of a document does not depend on values: kinds and names of nodes, and which
names are found. A document that gets other values in front and more nodes behind keeps
what was found behind. -/
namespace SecretDotenv.Dotenv

/-- What a node is without its value. -/
def Node.label (node : Node) : Node :=
  Document.Node.withValue "" node

@[simp] theorem Node.label_withValue (value : String) (node : Node) :
    (Document.Node.withValue value node).label = node.label := by
  cases node <;> rfl

def Node.isNamed (name : String) (node : Node) : Bool :=
  node.entry?.any (·.name == name)

namespace Document

theorem labels_modify (nodes : List Node) (index : Nat) (value : String) :
    (nodes.modify index (Node.withValue value)).map Node.label = nodes.map Node.label := by
  apply List.ext_getElem?
  intro j
  rw [List.getElem?_map, List.getElem?_map, List.getElem?_modify]
  cases nodes[j]? with
  | none => rfl
  | some node => by_cases hj : index = j <;> simp [hj]

theorem get?_append (front back : List Node) (name : String) :
    get? { nodes := front ++ back } name =
      (get? { nodes := front } name).or (get? { nodes := back } name) := by
  simp only [get?, entries, List.filterMap_append, List.find?_append]
  cases List.find? (·.name == name) (front.filterMap Node.entry?) <;> rfl

theorem get?_split (n : Nat) (d : Document) (name : String) :
    d.get? name =
      (get? { nodes := d.nodes.take n } name).or (get? { nodes := d.nodes.drop n } name) := by
  rw [← get?_append, List.take_append_drop]

theorem front_eq_none {d : Document} {name : String} (n : Nat) (h : d.get? name = none) :
    get? { nodes := d.nodes.take n } name = none := by
  rw [get?_split n, Option.or_eq_none_iff] at h
  exact h.1

theorem get?_labels (nodes : List Node) (name : String) :
    get? { nodes := nodes.map Node.label } name = (get? { nodes } name).map fun _ => "" := by
  induction nodes with
  | nil => rfl
  | cons node rest ih =>
    rw [List.map_cons, ← List.singleton_append, get?_append, ih, ← List.singleton_append (l := rest),
      get?_append]
    cases node with
    | comment text => rfl
    | entry e =>
      by_cases hname : e.name = name <;>
        simp [get?, entries, Node.label, Node.withValue, Node.entry?, hname]

theorem isSome_get?_congr {d e : Document} (h : d.nodes.map Node.label = e.nodes.map Node.label)
    (name : String) : (d.get? name).isSome = (e.get? name).isSome := by
  have hlabels := congrArg (fun nodes => (get? { nodes } name).isSome) h
  simpa [get?_labels] using hlabels

theorem get?_eq_none_iff {d : Document} {name : String} :
    d.get? name = none ↔ ∀ e ∈ d.entries, e.name ≠ name := by
  simp [get?]

theorem entryAt?_congr {d e : Document} {index : Nat} (h : d.nodes[index]? = e.nodes[index]?) :
    d.entryAt? index = e.entryAt? index := by
  rw [entryAt?, h, entryAt?]

theorem getElem?_of_entryAt? {d : Document} {index : Nat} {entry : Entry}
    (h : d.entryAt? index = some entry) : d.nodes[index]? = some (.entry entry) := by
  obtain ⟨node, hnode, hentry⟩ := Option.bind_eq_some_iff.1 h
  cases node with
  | comment text => contradiction
  | entry e => rw [hnode, Option.some.inj hentry]

theorem lt_length_of_entryAt? {d : Document} {index : Nat} {entry : Entry}
    (h : d.entryAt? index = some entry) : index < d.nodes.length :=
  (List.getElem?_eq_some_iff.1 (getElem?_of_entryAt? h)).1

theorem mem_entries_of_entryAt? {d : Document} {index : Nat} {entry : Entry}
    (h : d.entryAt? index = some entry) : entry ∈ d.entries :=
  List.mem_filterMap.2 ⟨.entry entry, List.mem_of_getElem? (getElem?_of_entryAt? h), rfl⟩

/-- `e` has the first `n` nodes of `d` up to values, and behind them at least what `d` has. -/
structure Since (n : Nat) (d e : Document) : Prop where
  labels : (e.nodes.take n).map Node.label = (d.nodes.take n).map Node.label
  behind : d.nodes.drop n <+: e.nodes.drop n

namespace Since

variable {n : Nat} {d e f : Document}

theorem refl (n : Nat) (d : Document) : Since n d d :=
  ⟨rfl, List.prefix_rfl⟩

theorem trans (h : Since n d e) (h' : Since n e f) : Since n d f :=
  ⟨h'.labels.trans h.labels, h.behind.trans h'.behind⟩

theorem le_length (h : Since n d e) (hn : n ≤ d.nodes.length) : n ≤ e.nodes.length := by
  have hlength := congrArg List.length h.labels
  simp only [List.length_map, List.length_take] at hlength
  omega

theorem of_isPrefix (hn : n ≤ d.nodes.length) (h : d.nodes <+: e.nodes) : Since n d e := by
  obtain ⟨more, hmore⟩ := h
  refine ⟨?_, ?_⟩
  · rw [← hmore, List.take_append_of_le_length hn]
  · rw [← hmore, List.drop_append_of_le_length hn]
    exact List.prefix_append _ _

theorem setValueAt (d : Document) {index : Nat} (value : String) (hindex : index < n) :
    Since n d (d.setValueAt index value) := by
  have hdrop : (d.setValueAt index value).nodes.drop n = d.nodes.drop n :=
    List.drop_modify_of_lt _ _ _ _ hindex
  refine ⟨?_, hdrop ▸ List.prefix_rfl⟩
  rw [Document.setValueAt, List.take_modify, labels_modify]

theorem front_eq_none_iff (h : Since n d e) {name : String} :
    get? { nodes := e.nodes.take n } name = none ↔ get? { nodes := d.nodes.take n } name = none := by
  have hsame := isSome_get?_congr (d := { nodes := e.nodes.take n })
    (e := { nodes := d.nodes.take n }) h.labels name
  rw [← Option.not_isSome_iff_eq_none, ← Option.not_isSome_iff_eq_none, hsame]

theorem get?_eq {name value : String} (h : Since n d e)
    (hfront : get? { nodes := d.nodes.take n } name = none) (hd : d.get? name = some value) :
    e.get? name = some value := by
  have hback : get? { nodes := d.nodes.drop n } name = some value := by
    rw [get?_split n, hfront, Option.none_or] at hd
    exact hd
  obtain ⟨more, hmore⟩ := h.behind
  rw [get?_split n, h.front_eq_none_iff.2 hfront, Option.none_or, ← hmore, get?_append, hback,
    Option.some_or]

end Since

def place? (d : Document) (name : String) : Option Nat :=
  d.nodes.findIdx? (Node.isNamed name)

def without (d : Document) (index : Nat) : Document :=
  { nodes := d.nodes.eraseIdx index }

theorem get?_eq_find? (d : Document) (name : String) :
    d.get? name = ((d.nodes.find? (Node.isNamed name)).bind Node.entry?).map (·.value) := by
  rw [get?, entries, List.find?_filterMap]
  rfl

theorem find?_eraseIdx {α : Type} {p : α → Bool} {l : List α} {i : Nat}
    (h : l.findIdx? p ≠ some i) : (l.eraseIdx i).find? p = l.find? p := by
  induction l generalizing i with
  | nil => rfl
  | cons x l ih =>
    rw [List.findIdx?_cons] at h
    cases i with
    | zero =>
      have hx : p x = false := by
        cases hx : p x with
        | false => rfl
        | true => simp [hx] at h
      rw [List.eraseIdx_cons_zero, List.find?_cons_of_neg (by simp [hx])]
    | succ i =>
      cases hx : p x with
      | true => simp [hx]
      | false =>
        have hrest : l.findIdx? p ≠ some i := by simpa [hx] using h
        simp [hx, ih hrest]

theorem get?_without {d : Document} {name : String} {index : Nat} (h : d.place? name ≠ some index) :
    (d.without index).get? name = d.get? name := by
  rw [get?_eq_find?, get?_eq_find?, without, find?_eraseIdx h]

theorem get?_of_place? {d : Document} {name : String} {index : Nat} {entry : Entry}
    (h : d.place? name = some index) (hentry : d.entryAt? index = some entry) :
    d.get? name = some entry.value := by
  obtain ⟨hindex, hnamed, hbefore⟩ := List.findIdx?_eq_some_iff_getElem.1 h
  have hfirst : d.nodes.find? (Node.isNamed name) = some d.nodes[index] := by
    rw [List.find?_eq_some_iff_getElem]
    exact ⟨hnamed, index, hindex, rfl, by simpa using hbefore⟩
  rw [entryAt?, List.getElem?_eq_getElem hindex] at hentry
  rw [get?_eq_find?, hfirst, hentry]
  rfl

theorem Since.place?_iff {n : Nat} {d e : Document} (h : Since n d e) {name : String} {index : Nat}
    (hindex : index < n) : e.place? name = some index ↔ d.place? name = some index := by
  have hnamed : Node.isNamed name ∘ Node.label = Node.isNamed name := by
    funext node
    cases node <;> rfl
  have hfront : ∀ f : Document, f.place? name = some index ↔
      ((f.nodes.take n).map Node.label).findIdx? (Node.isNamed name) = some index := by
    intro f
    rw [List.findIdx?_map, hnamed, List.findIdx?_take, Option.bind_eq_some_iff]
    constructor
    · exact fun hplace => ⟨index, hplace, by simp [Option.guard, hindex]⟩
    · rintro ⟨found, hplace, hkept⟩
      obtain ⟨-, rfl⟩ : found < n ∧ found = index := by simpa [Option.guard] using hkept
      exact hplace
  rw [hfront, hfront, h.labels]

end Document
end SecretDotenv.Dotenv
