import SecretDotenv.Proofs.Machine.FreshPath

/-! A copy beside a file, and back. While the copy lies there, nothing but the text of
the file changes; so the text can be put back, and taking the copy away afterwards
leaves the disk as it was or with the new text alone. -/
namespace SecretDotenv.Machine.Disk

theorem put_comm {d : Disk} {place new : Place} {item : Item} (first second : Item)
    (hnew : d.item? new = none) (hitem : d.item? place = some item) (hplace : place ≠ []) :
    (d.put new first).put place second = (d.put place second).put new first := by
  have hroot : new ≠ [] := by
    rintro rfl
    simp at hnew
  have hne := ne_of_item? hnew hitem
  rw [item?_eq_find? _ hroot] at hnew
  rw [item?_eq_find? _ hplace] at hitem
  obtain ⟨items⟩ := d
  simp only [put, mk.injEq, Option.map_eq_none_iff] at hnew hitem ⊢
  induction items with
  | nil => simp at hitem
  | cons entry rest ih =>
    obtain ⟨p, i⟩ := entry
    have hp : p ≠ new := by
      rintro rfl
      simp at hnew
    by_cases hhere : p = place
    · subst hhere
      simp [putItems, hp]
    · have hrest : rest.find? (·.1 == new) = none := by
        simpa [List.find?_cons, hp] using hnew
      have hmore : (rest.find? (·.1 == place)).map (·.2) = some item := by
        simpa [List.find?_cons, hhere] using hitem
      simp [putItems, hp, hhere, ih hmore hrest]

structure Backup (d : Disk) (directory path backup : Path) (place beside : Place)
    (old : String) : Prop where
  located : d.locate directory path = .ok place
  holds : d.item? place = some (.file old)
  leads : d.locate directory backup = .ok beside
  direct : d.locate directory backup false = .ok beside
  free : d.item? beside = none

variable {d e : Disk} {directory path backup parent : Path} {place beside : Place} {old : String}

theorem backup_of_copy {stem : String} (hstem : IsName stem)
    (h : d.copy directory path (d.freshPath directory parent stem) = .ok e) :
    ∃ place beside old,
      d.Backup directory path (d.freshPath directory parent stem) place beside old ∧
        e = d.put beside (.file old) := by
  obtain ⟨old, hlookup, hwrite⟩ := copy_eq_ok_iff.1 h
  obtain ⟨place, hlocate, hitem⟩ := lookup_eq_ok_iff.1 hlookup
  obtain ⟨beside, hbeside, -, hdisk⟩ := write_eq_ok hwrite
  obtain ⟨hdirect, hfree⟩ :=
    locate_of_not_isTaken (not_isTaken_freshPath d directory parent hstem) hbeside
  exact ⟨place, beside, old, ⟨hlocate, hitem, hbeside, hdirect, hfree⟩, hdisk⟩

namespace Backup

variable (hb : d.Backup directory path backup place beside old)
include hb

theorem place_ne_nil : place ≠ [] := by
  rintro rfl
  have hitem := hb.holds
  simp at hitem

theorem beside_ne_nil : beside ≠ [] := by
  rintro rfl
  have hfree := hb.free
  simp at hfree

theorem place_ne_beside : place ≠ beside :=
  ne_of_item? hb.free hb.holds

theorem put_old : (d.put beside (.file old)).put place (.file old) = d.put beside (.file old) := by
  apply put_self hb.place_ne_nil
  rw [item?_put_of_ne d _ hb.place_ne_beside, hb.holds]

theorem sameShape (text : String) :
    (d.put beside (.file old)).SameShape ((d.put beside (.file old)).put place (.file text)) := by
  have hitem : (d.put beside (.file old)).item? place = some (.file old) := by
    rw [item?_put_of_ne d _ hb.place_ne_beside, hb.holds]
  exact sameShape_put text hitem

theorem locate_path (text : String) :
    ((d.put beside (.file old)).put place (.file text)).locate directory path = .ok place := by
  exact locate_of_sameShape (hb.sameShape text) (locate_put_new old hb.free hb.located)

theorem item?_path (text : String) :
    ((d.put beside (.file old)).put place (.file text)).item? place = some (.file text) :=
  item?_put_self _ _ hb.place_ne_nil

theorem read_path (text : String) :
    ((d.put beside (.file old)).put place (.file text)).read directory path = .ok text := by
  rw [read_eq_ok_iff, lookup_eq_ok_iff]
  exact ⟨place, hb.locate_path text, hb.item?_path text⟩

theorem write_path (habsolute : path.isAbsolute) (text new : String) :
    ((d.put beside (.file old)).put place (.file text)).write directory path new =
      .ok ((d.put beside (.file old)).put place (.file new)) := by
  rw [write_of_file new habsolute (hb.locate_path text) (hb.item?_path text), put_put]

theorem write_first (habsolute : path.isAbsolute) (text : String) :
    (d.put beside (.file old)).write directory path text =
      .ok ((d.put beside (.file old)).put place (.file text)) := by
  have hwrite := hb.write_path habsolute old text
  rwa [hb.put_old] at hwrite

theorem restore (habsolute : path.isAbsolute) (text : String) :
    ((d.put beside (.file old)).put place (.file text)).copy directory backup path =
      .ok (d.put beside (.file old)) := by
  have hbackup : ((d.put beside (.file old)).put place (.file text)).locate directory backup =
      .ok beside := by
    exact locate_of_sameShape (hb.sameShape text) (locate_put_new old hb.free hb.leads)
  have hcopy : ((d.put beside (.file old)).put place (.file text)).item? beside =
      some (.file old) := by
    rw [item?_put_of_ne _ _ hb.place_ne_beside.symm, item?_put_self d _ hb.beside_ne_nil]
  rw [copy_eq_ok_iff]
  refine ⟨old, lookup_eq_ok_iff.2 ⟨beside, hbackup, hcopy⟩, ?_⟩
  rw [hb.write_path habsolute, hb.put_old]

theorem remove : (d.put beside (.file old)).remove directory backup = d := by
  unfold Disk.remove
  rw [locate_put_new old hb.free hb.direct]
  exact erase_put _ hb.free

theorem remove_written (text : String) :
    ((d.put beside (.file old)).put place (.file text)).remove directory backup =
      d.put place (.file text) := by
  have hdirect : ((d.put beside (.file old)).put place (.file text)).locate directory backup false =
      .ok beside := by
    exact locate_of_sameShape (hb.sameShape text) (locate_put_new old hb.free hb.direct)
  have hfree : (d.put place (.file text)).item? beside = none := by
    rw [item?_put_of_ne d _ hb.place_ne_beside.symm, hb.free]
  unfold Disk.remove
  rw [hdirect, put_comm _ _ hb.free hb.holds hb.place_ne_nil]
  exact erase_put _ hfree

end Backup

end SecretDotenv.Machine.Disk
