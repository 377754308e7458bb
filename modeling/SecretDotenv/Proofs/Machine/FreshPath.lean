import Mathlib
import SecretDotenv.Proofs.Machine.DiskFrame
import SecretDotenv.Proofs.Text.Bytes

/-! A fresh path names nothing. The names that are tried are one more than there are
items, no two of them can stand for the same item, so one of them is free. -/
namespace SecretDotenv.Machine

open SecretDotenv.Text

namespace Path

theorem splitBytes_ne_nil (bytes : List UInt8) : splitBytes bytes ≠ [] := by
  fun_induction splitBytes bytes <;> simp

theorem splitBytes_append (a b : List UInt8) :
    splitBytes (a ++ slash :: b) = splitBytes a ++ splitBytes b := by
  induction a with
  | nil => simp [splitBytes]
  | cons x a ih =>
    by_cases hx : x = slash
    · subst hx
      simp [splitBytes, ih]
    · rw [List.cons_append, splitBytes, splitBytes, if_neg hx, if_neg hx, ih]
      cases ha : splitBytes a with
      | nil => exact absurd ha (splitBytes_ne_nil a)
      | cons first more => rfl

theorem splitBytes_of_not_mem {a : List UInt8} (h : slash ∉ a) : splitBytes a = [a] := by
  induction a with
  | nil => rfl
  | cons x a ih =>
    have hx : x ≠ slash := fun heq => h (heq ▸ List.mem_cons_self)
    have ha := ih fun hmem => h (List.mem_cons_of_mem _ hmem)
    rw [splitBytes, if_neg hx, ha]

theorem pieces_join (parent : Path) {name : String} (hslash : slash ∉ utf8 name.toList) :
    ∃ front, (parent.join name).pieces = front ++ [utf8 name.toList] := by
  have hhead : (utf8 name.toList).head? ≠ some slash := by
    intro hhead
    exact hslash (List.mem_of_mem_head? hhead)
  unfold join
  dsimp only
  split
  · next hempty =>
    exact ⟨[], by simp [pieces, splitBytes_of_not_mem hslash]⟩
  · split
    · next hlast =>
      obtain ⟨front, hfront⟩ := List.getLast?_eq_some_iff.1 hlast
      refine ⟨splitBytes front, ?_⟩
      rw [pieces, hfront, List.append_assoc, List.singleton_append, splitBytes_append,
        splitBytes_of_not_mem hslash]
    · refine ⟨splitBytes parent.bytes, ?_⟩
      rw [pieces, splitBytes_append, splitBytes_of_not_mem hslash]

end Path

namespace Disk

def IsName (name : String) : Prop :=
  Path.slash ∉ utf8 name.toList ∧ 2 < (utf8 name.toList).length

theorem IsName.isPart {name : String} (hname : IsName name) : IsPart (utf8 name.toList) := by
  obtain ⟨-, hlong⟩ := hname
  refine ⟨?_, ?_⟩
  · intro hshort
    rcases Bool.or_eq_true_iff.1 hshort with hempty | hdot
    · rw [List.isEmpty_iff.1 hempty] at hlong
      simp at hlong
    · rw [of_decide_eq_true hdot] at hlong
      simp at hlong
  · intro hdots
    rw [hdots] at hlong
    simp at hlong

theorem Leads.getLast? {d : Disk} {links : Nat} {here place : Place} {todo : List (List UInt8)}
    {name : List UInt8} (hname : IsPart name) (hlast : todo.getLast? = some name)
    (h : Leads d false links here todo place) : place.getLast? = some name := by
  induction h with
  | done => simp at hlast
  | @stay _ _ _ todo _ hpart _ ih =>
    cases todo with
    | nil =>
      obtain rfl := Option.some.inj hlast
      exact absurd hpart hname.1
    | cons next todo => exact ih hlast
  | @up _ _ todo _ _ ih =>
    cases todo with
    | nil => exact absurd (Option.some.inj hlast).symm hname.2
    | cons next todo => exact ih hlast
  | @enter _ _ _ todo _ _ _ hrest ih =>
    cases todo with
    | nil =>
      obtain rfl := Option.some.inj hlast
      cases hrest
      exact List.getLast?_concat
    | cons next todo => exact ih hlast
  | file | new | link =>
    rw [← hlast]
    exact List.getLast?_concat
  | @follow _ _ _ todo target _ _ _ hmore _ ih =>
    cases todo with
    | nil => exact absurd rfl hmore
    | cons next todo =>
      apply ih
      rw [List.getLast?_append, ← hlast, List.getLast?_cons_cons, List.getLast?_cons]
      rfl

theorem getLast?_of_locate {d : Disk} {directory parent : Path} {name : String} {place : Place}
    (hname : IsName name) (h : d.locate directory (parent.join name) false = .ok place) :
    place.getLast? = some (utf8 name.toList) := by
  obtain ⟨front, hpieces⟩ := Path.pieces_join parent hname.1
  obtain ⟨-, -, here, -, hplace⟩ := locate_eq_ok_iff.1 h
  apply hplace.getLast? hname.isPart
  rw [hpieces]
  exact List.getLast?_concat

/-- Something has the name, be it only a link that leads nowhere. -/
def IsTaken (d : Disk) (directory path : Path) : Prop :=
  d.isPresent directory path ∨ d.isLink directory path

theorem isPresent_iff {d : Disk} {directory path : Path} :
    d.isPresent directory path ↔ ∃ item, d.lookup directory path = .ok item := by
  unfold isPresent
  cases d.lookup directory path <;> simp

theorem isLink_iff {d : Disk} {directory path : Path} :
    d.isLink directory path ↔
      ∃ place target, d.locate directory path false = .ok place ∧
        d.item? place = some (.link target) := by
  unfold isLink
  cases d.locate directory path false with
  | error reason => simp
  | ok place =>
    cases hitem : d.item? place with
    | none => simp [hitem]
    | some item => cases item <;> simp [hitem]

theorem IsTaken.item {d : Disk} {directory path : Path} (h : d.IsTaken directory path) :
    ∃ place item, d.locate directory path false = .ok place ∧ d.item? place = some item := by
  rcases h with hpresent | hlink
  · obtain ⟨item, hlookup⟩ := isPresent_iff.1 hpresent
    obtain ⟨place, hlocate, hitem⟩ := lookup_eq_ok_iff.1 hlookup
    rcases locate_noFollow hlocate with hsame | ⟨q, target, hq, hlink⟩
    · exact ⟨place, item, hsame, hitem⟩
    · exact ⟨q, .link target, hq, hlink⟩
  · obtain ⟨place, target, hlocate, hitem⟩ := isLink_iff.1 hlink
    exact ⟨place, .link target, hlocate, hitem⟩

theorem mem_of_item? {d : Disk} {place : Place} {item : Item} (hplace : place ≠ [])
    (h : d.item? place = some item) : place ∈ d.items.map (·.1) := by
  rw [item?_eq_find? d hplace] at h
  obtain ⟨entry, hfind, -⟩ := Option.map_eq_some_iff.1 h
  have heq : entry.1 = place := by simpa using List.find?_some hfind
  exact List.mem_map.2 ⟨entry, List.mem_of_find?_eq_some hfind, heq⟩

theorem isName_append_toString {stem : String} (hstem : IsName stem) (n : Nat) :
    IsName (stem ++ toString n) := by
  obtain ⟨hslash, hlong⟩ := hstem
  refine ⟨?_, ?_⟩
  · rw [String.toList_append, utf8_append, List.mem_append]
    rintro (hmem | hmem)
    · exact hslash hmem
    · have hdigit : '/' ∈ (toString n).toList := mem_utf8_ofNat (c := '/') (by decide) |>.1 hmem
      rw [Nat.toString_eq_repr, Nat.toList_repr] at hdigit
      have hclass := Nat.isDigit_of_mem_toDigits (by decide) (by decide) hdigit
      simp at hclass
  · rw [String.toList_append, utf8_append, List.length_append]
    omega

/-- More names are tried than there are items, so one is free. -/
theorem exists_free (d : Disk) (directory parent : Path) {stem : String} (hstem : IsName stem) :
    ∃ n < d.items.length + 1, ¬d.IsTaken directory (parent.join (stem ++ toString n)) := by
  by_contra hall
  push Not at hall
  have hplace : ∀ n : Nat, ∃ place : Place, n < d.items.length + 1 →
      place.getLast? = some (utf8 (stem ++ toString n).toList) ∧ place ∈ d.items.map (·.1) := by
    intro n
    by_cases hn : n < d.items.length + 1
    · obtain ⟨place, item, hlocate, hitem⟩ := (hall n hn).item
      have hlast := getLast?_of_locate (isName_append_toString hstem n) hlocate
      have hroot : place ≠ [] := by
        rintro rfl
        simp at hlast
      exact ⟨place, fun _ => ⟨hlast, mem_of_item? hroot hitem⟩⟩
    · exact ⟨[], fun h => absurd h hn⟩
  choose place hplace using hplace
  have hinjective : Set.InjOn place (Finset.range (d.items.length + 1)) := by
    intro m hm n hn hsame
    have hlast := (hplace m (by simpa using hm)).1
    rw [hsame, (hplace n (by simpa using hn)).1] at hlast
    have htext := utf8_injective (Option.some.inj hlast)
    rw [String.toList_append, String.toList_append, List.append_cancel_left_eq] at htext
    exact (Nat.repr_injective (String.toList_inj.1 htext)).symm
  have hcard := Finset.card_le_card_of_injOn (t := (d.items.map (·.1)).toFinset) place
    (fun n hn => List.mem_toFinset.2 (hplace n (by simpa using hn)).2) hinjective
  have hlength := List.toFinset_card_le (d.items.map (·.1))
  rw [Finset.card_range] at hcard
  rw [List.length_map] at hlength
  omega

theorem not_isTaken_freshPath (d : Disk) (directory parent : Path) {stem : String}
    (hstem : IsName stem) : ¬d.IsTaken directory (d.freshPath directory parent stem) := by
  obtain ⟨n, hn, hfree⟩ := exists_free d directory parent hstem
  unfold freshPath
  dsimp only
  cases hfind : ((List.range (d.items.length + 1)).map fun n =>
      parent.join (stem ++ toString n)).find?
        fun p => !d.isPresent directory p && !d.isLink directory p with
  | none =>
    have hnone := List.find?_eq_none.1 hfind _
      (List.mem_map.2 ⟨n, List.mem_range.2 hn, rfl⟩)
    refine absurd ?_ hnone
    unfold IsTaken at hfree
    simpa using hfree
  | some path =>
    have hpath := List.find?_some hfind
    unfold IsTaken
    simpa using hpath

theorem locate_of_not_isTaken {d : Disk} {directory path : Path} {place : Place}
    (hfree : ¬d.IsTaken directory path) (h : d.locate directory path = .ok place) :
    d.locate directory path false = .ok place ∧ d.item? place = none := by
  constructor
  · rcases locate_noFollow h with hsame | ⟨q, target, hq, hlink⟩
    · exact hsame
    · exact absurd (Or.inr (isLink_iff.2 ⟨q, target, hq, hlink⟩)) hfree
  · cases hitem : d.item? place with
    | none => rfl
    | some item =>
      have hlookup := lookup_eq_ok_iff.2 ⟨place, h, hitem⟩
      exact absurd (Or.inl (isPresent_iff.2 ⟨item, hlookup⟩)) hfree

end Disk

end SecretDotenv.Machine
