import SecretDotenv.Proofs.Expansion.Frame
import SecretDotenv.Proofs.Expansion.Verbatim

/-! Escaped dollars. A text whose dollars are all escaped stands for itself. Between two texts
an escaped dollar is a dollar, unless the first ends in a name: then the backslash ends the name,
and what begins with the dollar is read as if nothing were in front of it. -/
namespace SecretDotenv.Expansion

open SecretDotenv.Text SecretDotenv.Secret SecretDotenv.Dotenv

def Piece.lookedUp? : Piece → Option String
  | .reference name _ => some name
  | _ => none

namespace Context

variable {σ : Type}

def lookedUp (cx : Context σ) (mode : Mode) (raw : String) (p : Progress σ) : List String :=
  (cx.visits mode (pieces cx.options.switches raw) p).filterMap (·.placed.piece.lookedUp?)

def valueDefaults (cx : Context σ) (mode : Mode) (raw : String) (p : Progress σ) :
    List (String × String) :=
  (cx.visits mode (pieces cx.options.switches raw) p).filterMap cx.assignedAt?

end Context

def escapeDollars (text : String) : String :=
  String.ofList (text.toList.flatMap fun c => if c = '$' then ['\\', '$'] else [c])

theorem escaped_ne_dollar (text more : List Char) :
    (text.flatMap fun c => if c = '$' then ['\\', '$'] else [c]) ≠ '$' :: more := by
  cases text with
  | nil => exact nofun
  | cons c text =>
    rw [List.flatMap_cons]
    split
    · exact nofun
    · next hc =>
      intro hmore
      exact hc (List.cons.inj hmore).1

theorem spelled_escaped {switches : Switches} (k : Nat) {text : List Char}
    (h : switches.percents = true → '%' ∉ text) :
    Spelled (piecesFrom switches k (text.flatMap fun c => if c = '$' then ['\\', '$'] else [c]))
      text := by
  induction text generalizing k with
  | nil =>
    rw [List.flatMap_nil, piecesFrom_nil]
    exact .nil
  | cons c text ih =>
    have htext : switches.percents = true → '%' ∉ text := fun hon hmem =>
      h hon (List.mem_cons_of_mem _ hmem)
    rw [List.flatMap_cons]
    by_cases hc : c = '$'
    · subst hc
      rw [if_pos rfl, List.cons_append, piecesFrom_cons]
      exact .cons rfl (ih _ htext)
    · rw [if_neg hc, List.singleton_append, piecesFrom_cons, Piece.read_character]
      · exact .cons rfl (ih _ htext)
      · exact fun hdollar => absurd hdollar hc
      · exact fun _ more => escaped_ne_dollar text more
      · rintro rfl
        rw [← Bool.not_eq_true]
        exact fun hon => h hon List.mem_cons_self

namespace Context

variable {σ : Type} {cx : Context σ} {mode : Mode}

theorem filterMap_visits_spelled {β : Type} (f : Visit σ → Option β)
    (htext : ∀ k text p, f { placed := { position := k, piece := .text text }, before := p } = none)
    {placed : List Placed} {text : List Char} (h : Spelled placed text) (p : Progress σ) :
    (cx.visits mode placed p).filterMap f = [] := by
  apply List.filterMap_eq_nil_iff.2
  intro visit hvisit
  have hpiece : visit.placed.piece ∈ placed.map (·.piece) :=
    List.mem_map_of_mem (mem_visits hvisit).1
  rw [show placed.map (·.piece) = _ from h] at hpiece
  obtain ⟨c, -, hc⟩ := List.mem_map.1 hpiece
  obtain ⟨⟨k, piece⟩, q⟩ := visit
  obtain rfl : piece = .text c.toString := hc.symm
  exact htext k _ q

/-- Any text is kept from expansion by a backslash in front of each of its dollars, if percent
signs are text: it comes out as it was, and nothing is looked up or asked for it. -/
theorem expandValue_escapeDollars (cx : Context σ) (mode : Mode) (text : String)
    (h : cx.options.windowsVariables = true → '%' ∉ text.toList) (p : Progress σ) :
    cx.expandValue mode (escapeDollars text) p = (.ok text, p) ∧
      cx.lookedUp mode (escapeDollars text) p = [] ∧
      cx.valueAsked mode (escapeDollars text) p = [] := by
  have hspelled : Spelled (pieces cx.options.switches (escapeDollars text)) text.toList := by
    rw [pieces, escapeDollars, String.toList_ofList]
    exact spelled_escaped 0 h
  refine ⟨?_, ?_, ?_⟩
  · rw [expandValue, expandPieces_spelled hspelled, String.ofList_toList]
    simp
  · exact filterMap_visits_spelled (·.placed.piece.lookedUp?) (fun _ _ _ => rfl) hspelled p
  · exact filterMap_visits_spelled (cx.askedAt? mode) (cx.askedAt?_text mode) hspelled p

theorem expandValue_escapeDollars_onTable :
    let cx := fun percents => onTable { windowsVariables := percents }
      { name := "table", scheme := "mem", secrets := [("key", "x")] }
    let p : Progress Session := { document := {}, world := {} }
    let signs := "\\$(secret mem://v/key -C)$\x7bN:=%A%\x7d\\\\$"
    let plain := "\\$(secret mem://v/key -C)$\x7bN:=A\x7d\\\\$"
    (cx false).expandValue .blocking (escapeDollars signs) p = (.ok signs, p) ∧
      (cx true).expandValue .blocking (escapeDollars plain) p = (.ok plain, p) := by
  intro cx p signs plain
  exact ⟨((cx false).expandValue_escapeDollars .blocking _ (by decide) p).1,
    ((cx true).expandValue_escapeDollars .blocking _ (by decide) p).1⟩

end Context

namespace Piece

def name? : Piece → Option String
  | .reference name _ => some name
  | .argument digits => some digits
  | _ => none

variable {switches : Switches} {c : Char} {rest : List Char} {name : String}

theorem length_name_ofBraces {body : List Char} (h : (ofBraces body).name? = some name) :
    name.length ≤ body.length := by
  rcases ofBraces_cases body with ⟨cause, hfault⟩ | ⟨found, otherwise, hreference, hfound⟩
  · rw [hfault] at h
    contradiction
  · rw [hreference] at h
    obtain rfl := Option.some.inj h
    rw [String.length_ofList]
    exact hfound.length_le

theorem length_name_ofPercent (h : (ofPercent rest).1.name? = some name) :
    name.length + (ofPercent rest).2.length < rest.length := by
  revert h
  unfold ofPercent
  split
  · exact nofun
  · split
    · next hcut =>
      rintro ⟨⟩
      dsimp only
      rw [eq_append_of_cut hcut, String.length_ofList, List.length_append, List.length_cons]
      omega
    · exact nofun

theorem dropMark_append_mark (s more : List Char) :
    dropMark (s ++ '\\' :: more) = if s.isEmpty then more else dropMark s ++ '\\' :: more := by
  cases s with
  | nil => rfl
  | cons d s =>
    by_cases hd : d = '\\'
    · subst hd
      rfl
    · simp [dropMark, hd]

theorem dropMark_run {p : Char → Bool} (hp : p '\\' = false) (rest more : List Char) :
    dropMark ((rest ++ '\\' :: more).dropWhile p) =
      if (rest.takeWhile p).length = rest.length then more
      else dropMark (rest.dropWhile p) ++ '\\' :: more := by
  have hwhole : (rest.dropWhile p).isEmpty ↔ (rest.takeWhile p).length = rest.length := by
    have hlength := congrArg List.length (List.takeWhile_append_dropWhile (p := p) (l := rest))
    rw [List.length_append] at hlength
    rw [List.isEmpty_iff_length_eq_zero]
    omega
  rw [dropWhile_append_stop hp, dropMark_append_mark]
  simp only [hwhole]

def fills (piece : Piece) (rest : List Char) : Bool :=
  piece.name?.any (·.length = rest.length)

theorem fills_eq_false {piece : Piece}
    (h : ∀ name, piece.name? = some name → name.length < rest.length) :
    piece.fills rest = false := by
  cases hname : piece.name? with
  | none => simp [fills, hname]
  | some name =>
    have := h name hname
    simp [fills, hname]
    omega

theorem fills_ofCapture (script : List Char) : (ofCapture script).fills rest = false := by
  unfold ofCapture
  split_ifs <;> rfl

theorem fills_read_of_ne (hc : c ≠ '$') : (read switches c rest).1.fills rest = false := by
  unfold read
  split
  · rfl
  · split
    · apply fills_eq_false
      intro name hname
      have := length_name_ofPercent hname
      omega
    · rfl
  · contradiction
  · contradiction
  · rfl

theorem read_mark_append_backslash (rest more : List Char) :
    read switches '\\' (rest ++ '\\' :: more) =
      ((read switches '\\' rest).1, (read switches '\\' rest).2 ++ '\\' :: more) := by
  cases rest with
  | nil => rfl
  | cons n rest =>
    by_cases hn : n = '$'
    · subst hn
      rfl
    · simp [read, hn]

theorem read_dollar_append_backslash (more : List Char) (h : ¬ (read switches '$' rest).1.IsOpen) :
    read switches '$' (rest ++ '\\' :: more) =
      ((read switches '$' rest).1,
        if (read switches '$' rest).1.fills rest then more
        else (read switches '$' rest).2 ++ '\\' :: more) := by
  have hname : isNamePart '\\' = false := by decide
  have hdigit : Char.isDigit '\\' = false := by decide
  have hstart : isNameStart '\\' = false := by decide
  cases rest with
  | nil => simp [read, fills, name?, hstart, hdigit]
  | cons n rest =>
    by_cases hbrace : n = '\x7b'
    · subst hbrace
      cases hcut : cut '\x7d' rest with
      | none => simp [read, hcut, IsOpen] at h
      | some parts =>
        have hshort : (ofBraces parts.1).fills ('\x7b' :: rest) = false := by
          apply fills_eq_false
          intro name hname
          have := length_name_ofBraces hname
          rw [eq_append_of_cut hcut]
          simp only [List.length_cons, List.length_append]
          omega
        simp [read, hcut, cut_append _ hcut, hshort]
    · simp only [read, List.cons_append] at h ⊢
      split
      · next hcapture =>
        cases hcut : cut ')' rest with
        | none => simp [hcapture, hcut, IsOpen] at h
        | some parts => simp [cut_append _ hcut, fills_ofCapture]
      · split
        · simp [takeWhile_append_stop hname, dropMark_run hname, fills, name?, Nat.add_comm 1]
        · split
          · simp [takeWhile_append_stop hdigit, dropMark_run hdigit, fills, name?, Nat.add_comm 1]
          · simp [fills, name?]

theorem read_append_backslash (more : List Char) (h : ¬ (read switches c rest).1.IsOpen) :
    read switches c (rest ++ '\\' :: more) =
      ((read switches c rest).1,
        if (read switches c rest).1.fills rest then more
        else (read switches c rest).2 ++ '\\' :: more) := by
  by_cases hdollar : c = '$'
  · subst hdollar
    exact read_dollar_append_backslash more h
  rw [fills_read_of_ne hdollar, if_neg Bool.false_ne_true]
  by_cases hmark : c = '\\'
  · subst hmark
    exact read_mark_append_backslash rest more
  by_cases hpercent : c = '%'
  · subst hpercent
    by_cases hon : switches.percents = true
    · simp only [read, hon, if_true] at h ⊢
      exact ofPercent_append _ h
    · simp [read, hon]
  · simp [read, hmark, hdollar]

theorem length_run (p : Char → Bool) (n : Char) (rest : List Char) :
    (String.ofList (n :: rest.takeWhile p)).length + (dropMark (rest.dropWhile p)).length ≤
      (n :: rest).length := by
  have hlength := congrArg List.length (List.takeWhile_append_dropWhile (p := p) (l := rest))
  have hdrop := length_dropMark (rest.dropWhile p)
  rw [List.length_append] at hlength
  rw [String.length_ofList, List.length_cons, List.length_cons]
  omega

theorem length_name_read (h : (read switches c rest).1.name? = some name) :
    name.length + (read switches c rest).2.length ≤ rest.length := by
  revert h
  unfold read
  split
  · exact nofun
  · split
    · exact fun h => Nat.le_of_lt (length_name_ofPercent h)
    · exact nofun
  · split
    · next hcut =>
      intro h
      have := length_name_ofBraces h
      rw [eq_append_of_cut hcut]
      simp only [List.length_cons, List.length_append]
      omega
    · exact nofun
  · split
    · split
      · unfold ofCapture
        split_ifs <;> exact nofun
      · exact nofun
    · split
      · rintro ⟨⟩
        exact length_run isNamePart _ _
      · split
        · rintro ⟨⟩
          exact length_run Char.isDigit _ _
        · exact nofun
  · exact nofun

theorem read_of_fills (h : (read switches c rest).1.fills rest = true) :
    (read switches c rest).2 = [] := by
  cases hname : (read switches c rest).1.name? with
  | none => simp [fills, hname] at h
  | some name =>
    have hlength := length_name_read hname
    have hfills : name.length = rest.length := by simpa [fills, hname] using h
    apply List.eq_nil_of_length_eq_zero
    omega

end Piece

/-- The piece ends in front of `stop`, in a name that nothing is written around. -/
def Placed.endsInName (stop : Nat) (x : Placed) : Bool :=
  x.piece.name?.any (x.position + 1 + ·.length = stop)

/-- The last piece of the text is a dollar and a name, or a number, and no backslash. -/
def endsInName (switches : Switches) (raw : String) : Bool :=
  (pieces switches raw).getLast?.any (Placed.endsInName raw.length)

theorem any_getLast?_cons {α : Type} {p : α → Bool} {x : α} (h : p x = false) (l : List α) :
    (x :: l).getLast?.any p = l.getLast?.any p := by
  cases l with
  | nil => simp [h]
  | cons y l => rw [List.getLast?_cons_cons]

/-- A backslash behind a text is read for itself, unless it ends a name; or the text is left open
and takes it. -/
theorem piecesFrom_append_backslash (switches : Switches) (k : Nat) (a more : List Char) :
    (∃ x ∈ piecesFrom switches k a, x.piece.IsOpen) ∨
      piecesFrom switches k (a ++ '\\' :: more) =
        piecesFrom switches k a ++
          if (piecesFrom switches k a).getLast?.any (Placed.endsInName (k + a.length)) then
            piecesFrom switches (k + a.length + 1) more
          else piecesFrom switches (k + a.length) ('\\' :: more) := by
  fun_induction piecesFrom switches k a with
  | case1 k =>
    right
    simp
  | case2 k c rest found ih =>
    by_cases hopen : found.1.IsOpen
    · left
      exact ⟨_, List.mem_cons_self, hopen⟩
    have hread : Piece.read switches c (rest ++ '\\' :: more) =
        (found.1, if found.1.fills rest then more else found.2 ++ '\\' :: more) :=
      Piece.read_append_backslash more hopen
    have hlength : found.2.length ≤ rest.length := (Piece.read_suffix switches c rest).length_le
    have hends : Placed.endsInName (k + (c :: rest).length) { position := k, piece := found.1 } =
        found.1.fills rest := by
      have hsame : ∀ n, k + 1 + n = k + (rest.length + 1) ↔ n = rest.length := by omega
      simp [Placed.endsInName, Piece.fills, hsame]
    rw [List.cons_append, piecesFrom_cons, hread]
    -- A name that goes to the end is the last piece; any other piece leaves the end to the rest.
    cases hfills : found.1.fills rest with
    | true =>
      right
      have hnil : found.2 = [] := Piece.read_of_fills hfills
      have hnext : k + 1 + ((rest ++ '\\' :: more).length - more.length) =
          k + (c :: rest).length + 1 := by
        simp only [List.length_append, List.length_cons]
        omega
      rw [if_pos rfl, hnext, hnil, piecesFrom_nil, List.getLast?_singleton, Option.any_some, hends,
        hfills, if_pos rfl, List.singleton_append]
    | false =>
      have hnext : k + 1 + ((rest ++ '\\' :: more).length - (found.2 ++ '\\' :: more).length) =
          k + 1 + (rest.length - found.2.length) := by
        simp only [List.length_append, List.length_cons]
        omega
      have hend : k + 1 + (rest.length - found.2.length) + found.2.length =
          k + (c :: rest).length := by
        rw [List.length_cons]
        omega
      rcases ih with ⟨x, hx, hxopen⟩ | hwhole
      · left
        exact ⟨x, List.mem_cons_of_mem _ hx, hxopen⟩
      · right
        rw [hend] at hwhole
        rw [if_neg Bool.false_ne_true, hnext, hwhole, any_getLast?_cons (hends.trans hfills),
          List.cons_append]

section Dollar

variable {switches : Switches} {a : String} (b : String)

theorem pieces_append_dollar (hclosed : ∀ x ∈ pieces switches a, ¬ x.piece.IsOpen) :
    pieces switches (a ++ "\\$" ++ b) =
      pieces switches a ++
        if endsInName switches a then piecesFrom switches (a.length + 1) ('$' :: b.toList)
        else piecesFrom switches a.length ('\\' :: '$' :: b.toList) := by
  have htext : (a ++ "\\$" ++ b).toList = a.toList ++ '\\' :: '$' :: b.toList := by simp
  rcases piecesFrom_append_backslash switches 0 a.toList ('$' :: b.toList) with
    ⟨x, hx, hopen⟩ | hwhole
  · exact absurd hopen (hclosed x hx)
  · rw [← htext, Nat.zero_add, String.length_toList] at hwhole
    exact hwhole

theorem pieces_escaped (hclosed : ∀ x ∈ pieces switches a, ¬ x.piece.IsOpen)
    (h : endsInName switches a = false ∨ switches.begins b.toList = false) :
    ∃ k, pieces switches (a ++ "\\$" ++ b) =
      pieces switches a ++ { position := k, piece := .text "$" } ::
        (pieces switches b).map (Placed.shift (a.length + 2)) := by
  rw [pieces_append_dollar b hclosed, ← piecesFrom_toList]
  cases hends : endsInName switches a with
  | false =>
    have hread : Piece.read switches '\\' ('$' :: b.toList) = (.text "$", b.toList) := rfl
    refine ⟨a.length, ?_⟩
    rw [if_neg Bool.false_ne_true, piecesFrom_cons, hread, List.length_cons, Nat.add_sub_cancel_left]
  | true =>
    have hread := Piece.read_dollar (h.resolve_left (by simp [hends]))
    refine ⟨a.length + 1, ?_⟩
    rw [if_pos rfl, piecesFrom_cons, hread, Nat.sub_self, Nat.add_zero]

theorem pieces_ended (hclosed : ∀ x ∈ pieces switches a, ¬ x.piece.IsOpen)
    (h : endsInName switches a = true) :
    pieces switches (a ++ "\\$" ++ b) =
      pieces switches a ++ (pieces switches ("$" ++ b)).map (Placed.shift (a.length + 1)) := by
  have htext : ("$" ++ b).toList = '$' :: b.toList := by simp
  rw [pieces_append_dollar b hclosed, if_pos h, ← piecesFrom_toList, htext]

end Dollar

namespace Context

variable {σ : Type}

/-- Behind a text that can be expanded an escaped dollar is a dollar, and the text behind it is
expanded as if it stood alone; nothing else is looked up, asked or assigned. The exception is a
text that ends in a name, with a construct behind it that the dollar begins: there the backslash
ends the name, and the construct is expanded. -/
theorem expandValue_escaped (cx : Context σ) (mode : Mode) (a b : String) {x : String}
    {p q : Progress σ} (h : cx.expandValue mode a p = (.ok x, q)) :
    (endsInName cx.options.switches a = false ∨ cx.options.switches.begins b.toList = false →
      (∀ y r, cx.expandValue mode b q = (.ok y, r) →
        cx.expandValue mode (a ++ "\\$" ++ b) p = (.ok (x ++ "$" ++ y), r)) ∧
      cx.lookedUp mode (a ++ "\\$" ++ b) p = cx.lookedUp mode a p ++ cx.lookedUp mode b q ∧
      cx.valueAsked mode (a ++ "\\$" ++ b) p = cx.valueAsked mode a p ++ cx.valueAsked mode b q ∧
      cx.valueDefaults mode (a ++ "\\$" ++ b) p =
        cx.valueDefaults mode a p ++ cx.valueDefaults mode b q) ∧
    (endsInName cx.options.switches a = true →
      cx.expandValue mode (a ++ "\\$" ++ b) p =
        (((cx.expandValue mode ("$" ++ b) q).1.mapError (Failure.shift (a.length + 1))).map (x ++ ·),
          (cx.expandValue mode ("$" ++ b) q).2)) := by
  have hclosed := not_isOpen_of_ok h
  refine ⟨?_, ?_⟩
  · intro hseparate
    obtain ⟨k, hpieces⟩ := pieces_escaped b hclosed hseparate
    refine ⟨?_, ?_, ?_, ?_⟩
    · intro y r hb
      rw [expandValue_between hpieces h, hb]
      rfl
    · exact filterMap_visits_between (·.placed.piece.lookedUp?) (fun _ _ => rfl) (fun _ _ _ => rfl)
        hpieces h
    · exact filterMap_visits_between (cx.askedAt? mode) (fun _ _ => rfl) (cx.askedAt?_text mode)
        hpieces h
    · exact filterMap_visits_between cx.assignedAt? (fun _ _ => rfl) (fun _ _ _ => rfl) hpieces h
  · intro hends
    unfold expandValue at h
    rw [expandValue, pieces_ended b hclosed hends, expandPieces_append, h]
    dsimp only
    rw [expandPieces_done, expandPieces_shift]
    rfl

/-- A secret and a name in braces, a name with a backslash of its own, and a bare name with a
number behind it that is no argument; in the last value a bare name with another behind it. -/
theorem expandValue_escaped_onTable :
    let cx := onTable {} { name := "table", scheme := "mem", secrets := [("key", "x")] }
    let p : Progress Session := { document := .ofPairs [("A", "1"), ("B", "2")], world := {} }
    (cx.expandValue .blocking ("$(secret mem://v/key -C)$\x7bA\x7d" ++ "\\$" ++ "B$B") p).1 =
        .ok "x1$B2" ∧
      (cx.expandValue .blocking ("$A\\" ++ "\\$" ++ "B") p).1 = .ok "1$B" ∧
      (cx.expandValue .blocking ("$A" ++ "\\$" ++ "5") p).1 = .ok "1$5" ∧
      (cx.expandValue .blocking ("$A" ++ "\\$" ++ "B") p).1 = .ok "12" := by
  intro cx p
  have hsecret : (cx.expandValue .blocking "$(secret mem://v/key -C)$\x7bA\x7d" p).1 = .ok "x1" := by
    decide +kernel
  have hended : (cx.expandValue .blocking "$A\\" p).1 = .ok "1" := by decide +kernel
  have hbare : (cx.expandValue .blocking "$A" p).1 = .ok "1" := by decide +kernel
  have hdollar := fun a b x (h : (cx.expandValue .blocking a p).1 = .ok x) =>
    cx.expandValue_escaped .blocking a b (Prod.ext h (Eq.refl (cx.expandValue .blocking a p).2))
  refine ⟨?_, ?_, ?_, ?_⟩
  · have hseparate := (hdollar _ "B$B" _ hsecret).1 (by decide +kernel)
    exact congrArg Prod.fst (hseparate.1 "B2" _ (Prod.ext (by decide +kernel) rfl))
  · have hseparate := (hdollar _ "B" _ hended).1 (by decide +kernel)
    exact congrArg Prod.fst (hseparate.1 "B" _ (Prod.ext (by decide +kernel) rfl))
  · have hseparate := (hdollar _ "5" _ hbare).1 (by decide +kernel)
    exact congrArg Prod.fst (hseparate.1 "5" _ (Prod.ext (by decide +kernel) rfl))
  · rw [(hdollar _ "B" _ hbare).2 (by decide +kernel)]
    decide +kernel

/-- Behind a name the backslash ends the name, and the dollar begins another. -/
theorem escape_ends_name :
    let cx := onTable {} { name := "table", scheme := "mem", secrets := [] }
    let p : Progress Session := { document := .ofPairs [("A", "1"), ("B", "2")], world := {} }
    (cx.expandValue .blocking "$A" p).1 = .ok "1" ∧
      (cx.expandValue .blocking "B" (cx.expandValue .blocking "$A" p).2).1 = .ok "B" ∧
      (cx.expandValue .blocking ("$A" ++ "\\$" ++ "B") p).1 = .ok "12" ∧
      (cx.expandValue .blocking ("$A" ++ "\\$" ++ "B") p).1 ≠ .ok ("1" ++ "$" ++ "B") := by
  decide +kernel

end Context
end SecretDotenv.Expansion
