import SecretDotenv.Machine.Disk

/-! What a change of one file leaves alone. A new text in a file, and a new file
where nothing was, change no way that leads anywhere, so a path names the same
place before and after; and taking the new file away gives back the disk as it was. -/
namespace SecretDotenv.Machine.Disk

@[simp] theorem item?_nil (d : Disk) : d.item? [] = some .directory := rfl

theorem item?_eq_find? (d : Disk) {place : Place} (hplace : place ≠ []) :
    d.item? place = (d.items.find? (·.1 == place)).map (·.2) := by
  simp [item?, hplace]

theorem find?_putItems_self (place : Place) (item : Item) (items : List (Place × Item)) :
    (putItems place item items).find? (·.1 == place) = some (place, item) := by
  induction items with
  | nil => simp [putItems]
  | cons entry rest ih =>
    obtain ⟨p, i⟩ := entry
    by_cases hp : p = place
    · simp [putItems, hp]
    · simp [putItems, hp, ih]

theorem find?_putItems_of_ne {place q : Place} (item : Item) (items : List (Place × Item))
    (hq : q ≠ place) :
    (putItems place item items).find? (·.1 == q) = items.find? (·.1 == q) := by
  induction items with
  | nil => simp [putItems, hq.symm]
  | cons entry rest ih =>
    obtain ⟨p, i⟩ := entry
    by_cases hp : p = place
    · subst hp
      simp [putItems, hq.symm]
    · simp [putItems, hp, List.find?_cons, ih]

theorem item?_put_self (d : Disk) {place : Place} (item : Item) (hplace : place ≠ []) :
    (d.put place item).item? place = some item := by
  simp [item?_eq_find? _ hplace, put, find?_putItems_self]

theorem item?_put_of_ne (d : Disk) {place q : Place} (item : Item) (hq : q ≠ place) :
    (d.put place item).item? q = d.item? q := by
  by_cases hroot : q = []
  · simp [hroot]
  · simp [item?_eq_find? _ hroot, put, find?_putItems_of_ne item d.items hq]

theorem put_put (d : Disk) (place : Place) (first second : Item) :
    (d.put place first).put place second = d.put place second := by
  simp only [put, mk.injEq]
  induction d.items with
  | nil => simp [putItems]
  | cons entry rest ih =>
    obtain ⟨p, i⟩ := entry
    by_cases hp : p = place
    · simp [putItems, hp]
    · simp [putItems, hp, ih]

theorem put_self {d : Disk} {place : Place} {item : Item} (hplace : place ≠ [])
    (hitem : d.item? place = some item) : d.put place item = d := by
  rw [item?_eq_find? _ hplace] at hitem
  obtain ⟨items⟩ := d
  simp only [put, mk.injEq] at hitem ⊢
  induction items with
  | nil => simp at hitem
  | cons entry rest ih =>
    obtain ⟨p, i⟩ := entry
    by_cases hp : p = place
    · simp only [hp, List.find?_cons, beq_self_eq_true, Option.map_some, Option.some.injEq] at hitem
      simp [putItems, hp, hitem]
    · have hrest : (rest.find? (·.1 == place)).map (·.2) = some item := by
        simpa [List.find?_cons, hp] using hitem
      simp [putItems, hp, ih hrest]

theorem erase_put {d : Disk} {place : Place} (item : Item) (hplace : d.item? place = none) :
    (d.put place item).erase place = d := by
  have hroot : place ≠ [] := by
    rintro rfl
    simp at hplace
  rw [item?_eq_find? _ hroot] at hplace
  obtain ⟨items⟩ := d
  simp only [put, erase, mk.injEq, Option.map_eq_none_iff] at hplace ⊢
  induction items with
  | nil => simp [putItems]
  | cons entry rest ih =>
    obtain ⟨p, i⟩ := entry
    by_cases hp : p = place
    · simp [hp] at hplace
    · have hrest : rest.find? (·.1 == place) = none := by
        simpa [List.find?_cons, hp] using hplace
      simp [putItems, hp, ih hrest]

theorem ne_of_item? {d : Disk} {place q : Place} {item : Item} (hnone : d.item? place = none)
    (hsome : d.item? q = some item) : q ≠ place := by
  rintro rfl
  rw [hnone] at hsome
  contradiction

def IsPart (part : List UInt8) : Prop :=
  ¬(part.isEmpty || part = [Path.dot]) ∧ part ≠ [Path.dot, Path.dot]

/-- The ways that lead to a place, one case for each thing that a part of a path can name. -/
inductive Leads (d : Disk) (followLast : Bool) :
    (links : Nat) → (here : Place) → (todo : List (List UInt8)) → (place : Place) → Prop
  | done {links here} : Leads d followLast links here [] here
  | stay {links here part todo place} (hpart : part.isEmpty || part = [Path.dot])
      (hrest : Leads d followLast links here todo place) :
      Leads d followLast links here (part :: todo) place
  | up {links here todo place} (hrest : Leads d followLast links here.dropLast todo place) :
      Leads d followLast links here ([Path.dot, Path.dot] :: todo) place
  | enter {links here part todo place} (hpart : IsPart part)
      (hitem : d.item? (here ++ [part]) = some .directory)
      (hrest : Leads d followLast links (here ++ [part]) todo place) :
      Leads d followLast links here (part :: todo) place
  | file {links here part text} (hpart : IsPart part)
      (hitem : d.item? (here ++ [part]) = some (.file text)) :
      Leads d followLast links here [part] (here ++ [part])
  | new {links here part} (hpart : IsPart part) (hitem : d.item? (here ++ [part]) = none) :
      Leads d followLast links here [part] (here ++ [part])
  | link {links here part target} (hpart : IsPart part)
      (hitem : d.item? (here ++ [part]) = some (.link target)) (hlast : followLast = false) :
      Leads d followLast links here [part] (here ++ [part])
  | follow {links here part todo target place} (hpart : IsPart part)
      (hitem : d.item? (here ++ [part]) = some (.link target))
      (hmore : ¬(todo.isEmpty && !followLast))
      (hrest : Leads d followLast links (if target.isAbsolute then [] else here)
        (target.pieces ++ todo) place) :
      Leads d followLast (links + 1) here (part :: todo) place

theorem leads_of_walkBy {d : Disk} {followLast : Bool} {links : Nat}
    {follow : Place → List (List UInt8) → Except Error Place} {here place : Place}
    {todo : List (List UInt8)}
    (hfollow : ∀ {here todo}, follow here todo = .ok place →
      ∃ more, links = more + 1 ∧ Leads d followLast more here todo place)
    (h : d.walkBy followLast follow here todo = .ok place) :
    Leads d followLast links here todo place := by
  fun_induction walkBy d followLast follow here todo with
  | case1 =>
    rw [← Except.ok.inj h]
    exact .done
  | case2 _ _ _ hstay ih => exact .stay hstay (ih h)
  | case3 _ _ _ ih => exact .up (ih h)
  | case4 _ _ _ hstay hup _ hitem ih => exact .enter ⟨hstay, hup⟩ hitem (ih h)
  | case5 _ _ _ hstay hup _ _ hitem hend =>
    rw [List.isEmpty_iff.1 hend, ← Except.ok.inj h]
    exact .file ⟨hstay, hup⟩ hitem
  | case7 _ _ _ hstay hup _ hitem hend =>
    rw [List.isEmpty_iff.1 hend, ← Except.ok.inj h]
    exact .new ⟨hstay, hup⟩ hitem
  | case6 | case8 => contradiction
  | case9 _ _ _ hstay hup _ _ hitem hend =>
    obtain ⟨hend, hlast⟩ := Bool.and_eq_true_iff.1 hend
    rw [List.isEmpty_iff.1 hend, ← Except.ok.inj h]
    exact .link ⟨hstay, hup⟩ hitem (by simpa using hlast)
  | case10 _ _ _ hstay hup _ _ hitem hmore =>
    obtain ⟨more, rfl, hrest⟩ := hfollow h
    exact .follow ⟨hstay, hup⟩ hitem hmore hrest

theorem leads_of_walk {d : Disk} {followLast : Bool} {links : Nat} {here place : Place}
    {todo : List (List UInt8)} (h : d.walk followLast links here todo = .ok place) :
    Leads d followLast links here todo place := by
  induction links generalizing here todo with
  | zero =>
    refine leads_of_walkBy ?_ h
    intro _ _ hlink
    contradiction
  | succ more ih =>
    refine leads_of_walkBy ?_ h
    intro _ _ hlink
    exact ⟨more, rfl, ih hlink⟩

theorem walk_eq_walkBy (d : Disk) (followLast : Bool) (links : Nat) :
    ∃ follow, d.walk followLast links = d.walkBy followLast follow ∧
      ∀ more, links = more + 1 → follow = d.walk followLast more := by
  cases links with
  | zero =>
    refine ⟨_, rfl, ?_⟩
    intro more hmore
    contradiction
  | succ more =>
    refine ⟨_, rfl, ?_⟩
    rintro _ ⟨⟩
    rfl

theorem Leads.walk {d : Disk} {followLast : Bool} {links : Nat} {here place : Place}
    {todo : List (List UInt8)} (h : Leads d followLast links here todo place) :
    d.walk followLast links here todo = .ok place := by
  induction h with
  | @done links here =>
    obtain ⟨follow, hwalk, -⟩ := walk_eq_walkBy d followLast links
    rw [hwalk, walkBy]
  | @stay links here part todo place hpart _ ih =>
    obtain ⟨follow, hwalk, -⟩ := walk_eq_walkBy d followLast links
    rw [hwalk] at ih ⊢
    rw [walkBy, if_pos hpart, ih]
  | @up links here todo place _ ih =>
    obtain ⟨follow, hwalk, -⟩ := walk_eq_walkBy d followLast links
    rw [hwalk] at ih ⊢
    rw [walkBy, if_neg (by decide), if_pos rfl, ih]
  | @enter links here part todo place hpart hitem _ ih =>
    obtain ⟨follow, hwalk, -⟩ := walk_eq_walkBy d followLast links
    rw [hwalk] at ih ⊢
    rw [walkBy, if_neg hpart.1, if_neg hpart.2]
    simp only [hitem, ih]
  | @file links here part text hpart hitem =>
    obtain ⟨follow, hwalk, -⟩ := walk_eq_walkBy d followLast links
    rw [hwalk, walkBy, if_neg hpart.1, if_neg hpart.2]
    simp only [hitem, List.isEmpty_nil, if_true]
  | @new links here part hpart hitem =>
    obtain ⟨follow, hwalk, -⟩ := walk_eq_walkBy d followLast links
    rw [hwalk, walkBy, if_neg hpart.1, if_neg hpart.2]
    simp only [hitem, List.isEmpty_nil, if_true]
  | @link links here part target hpart hitem hlast =>
    obtain ⟨follow, hwalk, -⟩ := walk_eq_walkBy d followLast links
    rw [hwalk, walkBy, if_neg hpart.1, if_neg hpart.2]
    simp [hitem, hlast]
  | @follow links here part todo target place hpart hitem hmore _ ih =>
    obtain ⟨follow, hwalk, hfollow⟩ := walk_eq_walkBy d followLast (links + 1)
    rw [hwalk, walkBy, if_neg hpart.1, if_neg hpart.2]
    simp only [hitem, if_neg hmore]
    rw [hfollow links rfl, ih]

theorem walk_eq_ok_iff {d : Disk} {followLast : Bool} {links : Nat} {here place : Place}
    {todo : List (List UInt8)} :
    d.walk followLast links here todo = .ok place ↔ Leads d followLast links here todo place :=
  ⟨leads_of_walk, Leads.walk⟩

def Starts (d : Disk) (directory path : Path) (here : Place) : Prop :=
  path.isAbsolute ∧ here = [] ∨ ¬path.isAbsolute ∧ Leads d true 40 [] directory.pieces here

theorem locate_eq_ok_iff {d : Disk} {directory path : Path} {followLast : Bool} {place : Place} :
    d.locate directory path followLast = .ok place ↔
      ¬path.bytes.isEmpty ∧ ¬path.bytes.contains 0 ∧
        ∃ here, d.Starts directory path here ∧ Leads d followLast 40 here path.pieces place := by
  unfold locate Starts
  by_cases hempty : path.bytes.isEmpty
  · rw [if_pos hempty]
    exact ⟨fun h => absurd h (by simp), fun h => absurd hempty h.1⟩
  · rw [if_neg hempty]
    by_cases hzero : path.bytes.contains 0
    · rw [if_pos hzero]
      exact ⟨fun h => absurd h (by simp), fun h => absurd hzero h.2.1⟩
    · rw [if_neg hzero]
      by_cases habsolute : path.isAbsolute
      · rw [if_pos habsolute, walk_eq_ok_iff]
        constructor
        · intro h
          exact ⟨hempty, hzero, [], Or.inl ⟨habsolute, rfl⟩, h⟩
        · rintro ⟨-, -, here, ⟨-, rfl⟩ | ⟨hrelative, -⟩, h⟩
          · exact h
          · contradiction
      · rw [if_neg habsolute]
        constructor
        · intro h
          cases hhere : d.walk true 40 [] directory.pieces with
          | error reason =>
            rw [hhere] at h
            contradiction
          | ok here =>
            rw [hhere] at h
            exact ⟨hempty, hzero, here, Or.inr ⟨habsolute, leads_of_walk hhere⟩, leads_of_walk h⟩
        · rintro ⟨-, -, here, ⟨hroot, -⟩ | ⟨-, hhere⟩, hplace⟩
          · contradiction
          · rw [hhere.walk]
            exact hplace.walk

/-- A file put where nothing was blocks no way, and ends those that led there. -/
theorem Leads.put_new {d : Disk} {followLast : Bool} {links : Nat} {here place new : Place}
    {todo : List (List UInt8)} (text : String) (hnew : d.item? new = none)
    (h : Leads d followLast links here todo place) :
    Leads (d.put new (.file text)) followLast links here todo place := by
  have hkeep : ∀ {q : Place} {item : Item}, d.item? q = some item →
      (d.put new (.file text)).item? q = some item := by
    intro q item hq
    rw [item?_put_of_ne d _ (ne_of_item? hnew hq), hq]
  have hroot : new ≠ [] := by
    rintro rfl
    simp at hnew
  induction h with
  | done => exact .done
  | stay hpart _ ih => exact .stay hpart ih
  | up _ ih => exact .up ih
  | enter hpart hitem _ ih => exact .enter hpart (hkeep hitem) ih
  | file hpart hitem => exact .file hpart (hkeep hitem)
  | @new _ here part hpart hitem =>
    by_cases hlast : here ++ [part] = new
    · subst hlast
      exact .file hpart (item?_put_self d _ hroot)
    · refine .new hpart ?_
      rw [item?_put_of_ne d _ hlast, hitem]
  | link hpart hitem hlast => exact .link hpart (hkeep hitem) hlast
  | follow hpart hitem hmore _ ih => exact .follow hpart (hkeep hitem) hmore ih

theorem locate_put_new {d : Disk} {directory path : Path} {followLast : Bool} {place new : Place}
    (text : String) (hnew : d.item? new = none)
    (h : d.locate directory path followLast = .ok place) :
    (d.put new (.file text)).locate directory path followLast = .ok place := by
  rw [locate_eq_ok_iff] at h ⊢
  obtain ⟨hempty, hzero, here, hhere, hplace⟩ := h
  refine ⟨hempty, hzero, here, ?_, hplace.put_new text hnew⟩
  rcases hhere with hroot | ⟨hrelative, hhere⟩
  · exact Or.inl hroot
  · exact Or.inr ⟨hrelative, hhere.put_new text hnew⟩

def Item.shape : Item → Item
  | .file _ => .file ""
  | item => item

/-- Two disks differ at most in the texts of files. -/
def SameShape (d e : Disk) : Prop :=
  ∀ place, (d.item? place).map Item.shape = (e.item? place).map Item.shape

theorem SameShape.refl (d : Disk) : d.SameShape d := fun _ => rfl

theorem SameShape.symm {d e : Disk} (h : d.SameShape e) : e.SameShape d :=
  fun place => (h place).symm

theorem SameShape.trans {d e f : Disk} (hde : d.SameShape e) (hef : e.SameShape f) :
    d.SameShape f :=
  fun place => (hde place).trans (hef place)

theorem sameShape_put {d : Disk} {place : Place} {old : String} (new : String)
    (hold : d.item? place = some (.file old)) : d.SameShape (d.put place (.file new)) := by
  intro q
  by_cases hq : q = place
  · have hroot : place ≠ [] := by
      rintro rfl
      simp at hold
    subst hq
    simp [hold, item?_put_self d _ hroot, Item.shape]
  · rw [item?_put_of_ne d _ hq]

theorem SameShape.none {d e : Disk} (h : d.SameShape e) {place : Place}
    (hd : d.item? place = none) : e.item? place = none := by
  have hsame := h place
  rw [hd] at hsame
  simpa using hsame.symm

theorem SameShape.directory {d e : Disk} (h : d.SameShape e) {place : Place}
    (hd : d.item? place = some .directory) : e.item? place = some .directory := by
  have hsame := h place
  rw [hd] at hsame
  cases he : e.item? place with
  | none => simp [he] at hsame
  | some item => cases item <;> simp_all [Item.shape]

theorem SameShape.file {d e : Disk} (h : d.SameShape e) {place : Place} {text : String}
    (hd : d.item? place = some (.file text)) : ∃ new, e.item? place = some (.file new) := by
  have hsame := h place
  rw [hd] at hsame
  cases he : e.item? place with
  | none => simp [he] at hsame
  | some item => cases item <;> simp_all [Item.shape]

theorem SameShape.link {d e : Disk} (h : d.SameShape e) {place : Place} {target : Path}
    (hd : d.item? place = some (.link target)) : e.item? place = some (.link target) := by
  have hsame := h place
  rw [hd] at hsame
  cases he : e.item? place with
  | none => simp [he] at hsame
  | some item => cases item <;> simp_all [Item.shape]

theorem Leads.congr {d e : Disk} (hshape : d.SameShape e) {followLast : Bool} {links : Nat}
    {here place : Place} {todo : List (List UInt8)}
    (h : Leads d followLast links here todo place) : Leads e followLast links here todo place := by
  induction h with
  | done => exact .done
  | stay hpart _ ih => exact .stay hpart ih
  | up _ ih => exact .up ih
  | enter hpart hitem _ ih => exact .enter hpart (hshape.directory hitem) ih
  | file hpart hitem =>
    obtain ⟨text, hfile⟩ := hshape.file hitem
    exact .file hpart hfile
  | new hpart hitem => exact .new hpart (hshape.none hitem)
  | link hpart hitem hlast => exact .link hpart (hshape.link hitem) hlast
  | follow hpart hitem hmore _ ih => exact .follow hpart (hshape.link hitem) hmore ih

theorem locate_of_sameShape {d e : Disk} (hshape : d.SameShape e) {directory path : Path}
    {followLast : Bool} {place : Place} (h : d.locate directory path followLast = .ok place) :
    e.locate directory path followLast = .ok place := by
  rw [locate_eq_ok_iff] at h ⊢
  obtain ⟨hempty, hzero, here, hhere, hplace⟩ := h
  refine ⟨hempty, hzero, here, ?_, hplace.congr hshape⟩
  rcases hhere with hroot | ⟨hrelative, hhere⟩
  · exact Or.inl hroot
  · exact Or.inr ⟨hrelative, hhere.congr hshape⟩

def IsOpen (d : Disk) (place : Place) : Prop :=
  ∀ n, d.item? (place.take n) = some .directory

theorem isOpen_nil (d : Disk) : d.IsOpen [] := by
  intro n
  simp

theorem IsOpen.dropLast {d : Disk} {place : Place} (h : d.IsOpen place) :
    d.IsOpen place.dropLast := by
  intro n
  rw [List.dropLast_eq_take, List.take_take]
  exact h _

theorem IsOpen.concat {d : Disk} {place : Place} {part : List UInt8} (h : d.IsOpen place)
    (hpart : d.item? (place ++ [part]) = some .directory) : d.IsOpen (place ++ [part]) := by
  intro n
  by_cases hn : n ≤ place.length
  · rw [List.take_append_of_le_length hn]
    exact h n
  · rw [List.take_of_length_le (by simp; omega)]
    exact hpart

theorem Leads.isOpen {d : Disk} {followLast : Bool} {links : Nat} {here place : Place}
    {todo : List (List UInt8)} (h : Leads d followLast links here todo place)
    (hhere : d.IsOpen here) : d.IsOpen place.dropLast := by
  induction h with
  | done => exact hhere.dropLast
  | stay _ _ ih => exact ih hhere
  | up _ ih => exact ih hhere.dropLast
  | enter _ hitem _ ih => exact ih (hhere.concat hitem)
  | file | new | link => simpa using hhere
  | @follow _ _ _ _ target _ _ _ _ _ ih =>
    apply ih
    split
    · exact isOpen_nil d
    · exact hhere

theorem isOpen_of_locate {d : Disk} {directory path : Path} {followLast : Bool} {place : Place}
    (habsolute : path.isAbsolute) (h : d.locate directory path followLast = .ok place) :
    d.IsOpen place.dropLast := by
  obtain ⟨-, -, here, ⟨-, rfl⟩ | ⟨hrelative, -⟩, hplace⟩ := locate_eq_ok_iff.1 h
  · exact hplace.isOpen (isOpen_nil d)
  · contradiction

/-- A way that does not follow a link at its end leads to the same place, or to that link. -/
theorem Leads.noFollow {d : Disk} {links : Nat} {here place : Place} {todo : List (List UInt8)}
    (h : Leads d true links here todo place) :
    Leads d false links here todo place ∨
      ∃ q target, Leads d false links here todo q ∧ d.item? q = some (.link target) := by
  induction h with
  | done => exact Or.inl .done
  | stay hpart _ ih =>
    rcases ih with ih | ⟨q, target, ih, hlink⟩
    · exact Or.inl (.stay hpart ih)
    · exact Or.inr ⟨q, target, .stay hpart ih, hlink⟩
  | up _ ih =>
    rcases ih with ih | ⟨q, target, ih, hlink⟩
    · exact Or.inl (.up ih)
    · exact Or.inr ⟨q, target, .up ih, hlink⟩
  | enter hpart hitem _ ih =>
    rcases ih with ih | ⟨q, target, ih, hlink⟩
    · exact Or.inl (.enter hpart hitem ih)
    · exact Or.inr ⟨q, target, .enter hpart hitem ih, hlink⟩
  | file hpart hitem => exact Or.inl (.file hpart hitem)
  | new hpart hitem => exact Or.inl (.new hpart hitem)
  | link _ _ hlast => contradiction
  | @follow _ here part todo target _ hpart hitem _ _ ih =>
    by_cases hend : todo.isEmpty
    · rw [List.isEmpty_iff.1 hend]
      exact Or.inr ⟨here ++ [part], target, .link hpart hitem rfl, hitem⟩
    · have hmore : ¬(todo.isEmpty && !false) := by simpa using hend
      rcases ih with ih | ⟨q, goal, ih, hlink⟩
      · exact Or.inl (.follow hpart hitem hmore ih)
      · exact Or.inr ⟨q, goal, .follow hpart hitem hmore ih, hlink⟩

theorem locate_noFollow {d : Disk} {directory path : Path} {place : Place}
    (h : d.locate directory path = .ok place) :
    d.locate directory path false = .ok place ∨
      ∃ q target, d.locate directory path false = .ok q ∧ d.item? q = some (.link target) := by
  simp only [locate_eq_ok_iff] at h ⊢
  obtain ⟨hempty, hzero, here, hhere, hplace⟩ := h
  rcases hplace.noFollow with hsame | ⟨q, target, hq, hlink⟩
  · exact Or.inl ⟨hempty, hzero, here, hhere, hsame⟩
  · exact Or.inr ⟨q, target, ⟨hempty, hzero, here, hhere, hq⟩, hlink⟩

theorem lookup_eq_ok_iff {d : Disk} {directory path : Path} {item : Item} :
    d.lookup directory path = .ok item ↔
      ∃ place, d.locate directory path = .ok place ∧ d.item? place = some item := by
  unfold lookup
  cases hlocate : d.locate directory path with
  | error reason => simp [bind, Except.bind]
  | ok place =>
    simp only [bind, Except.bind, Except.ok.injEq, exists_eq_left']
    cases hitem : d.item? place <;> simp

theorem write_eq_ok {d e : Disk} {directory path : Path} {text : String}
    (h : d.write directory path text = .ok e) :
    ∃ place, d.locate directory path = .ok place ∧ place ≠ [] ∧ e = d.put place (.file text) := by
  unfold write at h
  cases hlocate : d.locate directory path with
  | error reason => simp [hlocate, bind, Except.bind] at h
  | ok place =>
    simp only [hlocate, bind, Except.bind] at h
    refine ⟨place, rfl, ?_, ?_⟩
    · rintro rfl
      simp at h
    · split at h
      · contradiction
      · split at h
        · exact (Except.ok.inj h).symm
        · contradiction
        · contradiction

theorem write_of_file {d : Disk} {directory path : Path} {place : Place} {old : String}
    (text : String) (habsolute : path.isAbsolute) (hlocate : d.locate directory path = .ok place)
    (hfile : d.item? place = some (.file old)) :
    d.write directory path text = .ok (d.put place (.file text)) := by
  have hopen := isOpen_of_locate habsolute hlocate place.length
  rw [List.take_of_length_le (by simp)] at hopen
  simp [write, hlocate, hfile, hopen, bind, Except.bind]

theorem copy_eq_ok_iff {d e : Disk} {directory source target : Path} :
    d.copy directory source target = .ok e ↔
      ∃ text, d.lookup directory source = .ok (.file text) ∧ d.write directory target text = .ok e := by
  unfold copy
  cases hlookup : d.lookup directory source with
  | error reason => simp [bind, Except.bind]
  | ok item => cases item <;> simp [bind, Except.bind]

theorem read_eq_ok_iff {d : Disk} {directory path : Path} {text : String} :
    d.read directory path = .ok text ↔ d.lookup directory path = .ok (.file text) := by
  unfold read
  cases hlookup : d.lookup directory path with
  | error reason => simp [bind, Except.bind]
  | ok item => cases item <;> simp [bind, Except.bind]

/-- A new text in a file is read by every path that leads there, and by no other. -/
theorem read_put_file {d : Disk} {directory path : Path} {place : Place} {old text : String}
    (new : String) (hold : d.item? place = some (.file old))
    (h : d.read directory path = .ok text) :
    (d.locate directory path = .ok place ∧ text = old ∧
        (d.put place (.file new)).read directory path = .ok new) ∨
      d.locate directory path ≠ .ok place ∧
        (d.put place (.file new)).read directory path = .ok text := by
  have hroot : place ≠ [] := by
    rintro rfl
    simp at hold
  obtain ⟨q, hlocate, hitem⟩ := lookup_eq_ok_iff.1 (read_eq_ok_iff.1 h)
  have hagain := locate_of_sameShape (sameShape_put new hold) hlocate
  by_cases hq : q = place
  · subst hq
    rw [hold] at hitem
    obtain rfl := Item.file.inj (Option.some.inj hitem)
    refine Or.inl ⟨hlocate, rfl, ?_⟩
    rw [read_eq_ok_iff, lookup_eq_ok_iff]
    exact ⟨q, hagain, item?_put_self d _ hroot⟩
  · refine Or.inr ⟨?_, ?_⟩
    · rw [hlocate]
      intro heq
      exact hq (Except.ok.inj heq)
    · rw [read_eq_ok_iff, lookup_eq_ok_iff]
      exact ⟨q, hagain, (item?_put_of_ne d _ hq).trans hitem⟩

end SecretDotenv.Machine.Disk
