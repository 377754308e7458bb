import SecretDotenv.Proofs.Expansion.Joined

/-! Values that are left as they are. A value without a construct consists of its characters.
A capture that is read but whose command is not enabled is given back whole; where captures are
not read, its marks are text and what stands between them is expanded. -/
namespace SecretDotenv.Expansion

open SecretDotenv.Text SecretDotenv.Machine SecretDotenv.Secret SecretDotenv.Dotenv

def Switches.begins (switches : Switches) : List Char → Bool
  | [] => false
  | n :: _ =>
    n = '\x7b' || (n = '(' && switches.captures) || Piece.isNameStart n ||
      (n.isDigit && switches.arguments)

/-- Some piece of the text is more than a character, an escaped dollar included. -/
def Switches.holdsConstruct (switches : Switches) : List Char → Bool
  | [] => false
  | '\\' :: '$' :: _ => true
  | c :: rest =>
    (c = '$' && switches.begins rest) || (c = '%' && switches.percents) ||
      switches.holdsConstruct rest

namespace Piece

variable {switches : Switches} {c : Char} {rest : List Char}

theorem read_dollar (h : switches.begins rest = false) :
    read switches '$' rest = (.text "$", rest) := by
  cases rest with
  | nil => rfl
  | cons n rest =>
    simp only [Switches.begins, Bool.or_eq_false_iff, decide_eq_false_iff_not] at h
    obtain ⟨⟨⟨hbrace, hcapture⟩, hname⟩, hdigit⟩ := h
    simp [read, hcapture, hname, hdigit]

theorem read_character (hdollar : c = '$' → switches.begins rest = false)
    (hescape : c = '\\' → ∀ more, rest ≠ '$' :: more)
    (hpercent : c = '%' → switches.percents = false) :
    read switches c rest = (.text c.toString, rest) := by
  by_cases hc : c = '$'
  · subst hc
    exact read_dollar (hdollar rfl)
  · unfold read
    split
    · exact absurd rfl (hescape rfl _)
    · rw [hpercent rfl]
      rfl
    · exact absurd rfl hc
    · exact absurd rfl hc
    · rfl

theorem read_plain (h : switches.holdsConstruct (c :: rest) = false) :
    read switches c rest = (.text c.toString, rest) ∧ switches.holdsConstruct rest = false := by
  unfold Switches.holdsConstruct at h
  split at h
  · contradiction
  · contradiction
  · next hescape heq =>
    obtain ⟨rfl, rfl⟩ := List.cons.inj heq
    simp only [Bool.or_eq_false_iff, Bool.and_eq_false_imp, decide_eq_true_eq] at h
    obtain ⟨⟨hdollar, hpercent⟩, hrest⟩ := h
    exact ⟨read_character hdollar (fun hmark more hmore => hescape _ hmark hmore) hpercent, hrest⟩

theorem ofBraces_cases (body : List Char) :
    (∃ cause, ofBraces body = .fault cause) ∨
      ∃ name otherwise, ofBraces body = .reference (String.ofList name) otherwise ∧ name <+: body := by
  unfold ofBraces
  cases hcut : cut ':' body with
  | none =>
    dsimp only
    split_ifs
    · exact Or.inl ⟨_, rfl⟩
    · exact Or.inr ⟨body, _, rfl, List.prefix_rfl⟩
    · exact Or.inl ⟨_, rfl⟩
  | some parts =>
    dsimp only
    split_ifs
    · exact Or.inl ⟨_, rfl⟩
    · exact Or.inl ⟨_, rfl⟩
    · exact Or.inr ⟨parts.1, _, rfl, _, (eq_append_of_cut hcut).symm⟩
    · exact Or.inl ⟨_, rfl⟩

theorem read_begins (hcaptures : switches.captures = false) (h : switches.begins rest = true) :
    (∃ cause, (read switches '$' rest).1 = .fault cause) ∨
      (∃ digits, (read switches '$' rest).1 = .argument digits) ∨
        ∃ name otherwise, (read switches '$' rest).1 = .reference name otherwise := by
  cases rest with
  | nil => contradiction
  | cons n rest =>
    by_cases hbrace : n = '\x7b'
    · subst hbrace
      simp only [read]
      split
      · rcases ofBraces_cases _ with hfault | ⟨name, otherwise, hreference, -⟩
        · exact Or.inl hfault
        · exact Or.inr (Or.inr ⟨_, _, hreference⟩)
      · exact Or.inl ⟨_, rfl⟩
    · simp only [Switches.begins, hbrace, hcaptures, decide_false, Bool.false_or, Bool.and_false,
        Bool.or_eq_true] at h
      simp only [read, hcaptures, Bool.and_false, Bool.false_eq_true, if_false]
      by_cases hname : isNameStart n = true
      · rw [if_pos hname]
        exact Or.inr (Or.inr ⟨_, _, rfl⟩)
      · rw [if_neg hname, if_pos (h.resolve_left hname)]
        exact Or.inr (Or.inl ⟨_, rfl⟩)

end Piece

theorem append_ofList_cons (done : String) (c : Char) (text : List Char) :
    done ++ c.toString ++ String.ofList text = done ++ String.ofList (c :: text) := by
  apply String.toList_injective
  simp

def Spelled (placed : List Placed) (text : List Char) : Prop :=
  placed.map (·.piece) = text.map fun c => .text c.toString

theorem Spelled.nil : Spelled [] [] := rfl

theorem Spelled.cons {x : Placed} {placed : List Placed} {c : Char} {text : List Char}
    (hx : x.piece = .text c.toString) (h : Spelled placed text) :
    Spelled (x :: placed) (c :: text) := by
  rw [Spelled, List.map_cons, List.map_cons, hx, h]

theorem spelled_of_plain {switches : Switches} (k : Nat) {raw : List Char}
    (h : switches.holdsConstruct raw = false) : Spelled (piecesFrom switches k raw) raw := by
  induction raw generalizing k with
  | nil =>
    rw [piecesFrom_nil]
    exact .nil
  | cons c rest ih =>
    obtain ⟨hread, hrest⟩ := Piece.read_plain h
    rw [piecesFrom_cons, hread]
    exact .cons rfl (ih _ hrest)

namespace Context

variable {σ : Type} {cx : Context σ} {mode : Mode}

theorem expandPieces_spelled {placed : List Placed} {text : List Char} (h : Spelled placed text)
    (done : String) (p : Progress σ) :
    cx.expandPieces mode done placed p = (.ok (done ++ String.ofList text), p) := by
  induction text generalizing placed done with
  | nil =>
    obtain rfl := List.map_eq_nil_iff.1 h
    simp [expandPieces]
  | cons c text ih =>
    obtain ⟨x, rest, rfl, hx, hrest⟩ := List.map_eq_cons_iff.1 h
    have hpiece : cx.expandPiece mode x.piece p = (.ok c.toString, p) := by
      rw [hx]
      rfl
    rw [expandPieces_cons_ok hpiece, ih hrest, append_ofList_cons]

theorem expandPiece_fault (cx : Context σ) (mode : Mode) (cause : Failure.Cause) (p : Progress σ) :
    cx.expandPiece mode (.fault cause) p = (.error cause, p) :=
  rfl

theorem expandPiece_noArgument (hargs : cx.options.args = []) (digits : String) (p : Progress σ) :
    cx.expandPiece mode (.argument digits) p = (.error (.badIndex digits), p) := by
  rw [expandPiece_of_quiet (by simp [question?, asks]), quietValue, hargs]
  cases nat64? digits <;> rfl

theorem expandPieces_ne {x : Placed} {rest : List Placed} {c d : Char} {p q : Progress σ}
    (hx : cx.expandPiece mode x.piece p = (.ok d.toString, q)) (hd : d ≠ c) (done : String)
    (raw : List Char) :
    (cx.expandPieces mode done (x :: rest) p).1 ≠ .ok (done ++ String.ofList (c :: raw)) := by
  rw [expandPieces_cons_ok hx, expandPieces_done]
  cases (cx.expandPieces mode "" rest q).1 with
  | error failure => exact nofun
  | ok more =>
    intro hsame
    have hchars := congrArg String.toList (Except.ok.inj hsame)
    simp [hd] at hchars

/-- Where only the bindings are defined, the pieces of the text do not come to the text. -/
def Changes (σ : Type) (switches : Switches) (raw : List Char) (bindings : List (String × String)) :
    Prop :=
  ∀ cx : Context σ, cx.options.bindings = bindings → cx.options.args = [] →
    ∀ mode k done world,
      (cx.expandPieces mode done (piecesFrom switches k raw) { document := {}, world }).1 ≠
        .ok (done ++ String.ofList raw)

variable {switches : Switches} {raw : List Char}

theorem exists_changes_of_begins (hcaptures : switches.captures = false)
    (h : switches.begins raw = true) : ∃ bindings, Changes σ switches ('$' :: raw) bindings := by
  rcases Piece.read_begins hcaptures h with
    ⟨cause, hread⟩ | ⟨digits, hread⟩ | ⟨name, otherwise, hread⟩
  · refine ⟨[], ?_⟩
    intro cx _ _ mode k done world
    rw [piecesFrom_cons, hread, expandPieces_cons_error (cx.expandPiece_fault mode cause _)]
    exact nofun
  · refine ⟨[], ?_⟩
    intro cx _ hargs mode k done world
    rw [piecesFrom_cons, hread, expandPieces_cons_error (expandPiece_noArgument hargs digits _)]
    exact nofun
  · refine ⟨[(name, "x")], ?_⟩
    intro cx hbindings _ mode k done world
    have hfound : cx.lookup {} name = some "x" := by
      simp [lookup, hbindings, Document.get?, Document.entries]
    rw [piecesFrom_cons, hread]
    exact expandPieces_ne (d := 'x') (expandPiece_found otherwise hfound) (by decide) done _

theorem exists_changes (hcaptures : switches.captures = false) (hpercents : switches.percents = false)
    (h : switches.holdsConstruct raw = true) : ∃ bindings, Changes σ switches raw bindings := by
  fun_induction Switches.holdsConstruct switches raw with
  | case1 => contradiction
  | case2 rest =>
    refine ⟨[], ?_⟩
    intro cx _ _ mode k done world
    rw [piecesFrom_cons]
    exact expandPieces_ne (d := '$') rfl (by decide) done _
  | case3 c rest hescape ih =>
    by_cases hbegins : c = '$' ∧ switches.begins rest = true
    · obtain ⟨rfl, hbegins⟩ := hbegins
      exact exists_changes_of_begins hcaptures hbegins
    · have hread : Piece.read switches c rest = (.text c.toString, rest) := by
        apply Piece.read_character
        · exact fun hc => Bool.not_eq_true _ ▸ not_and.1 hbegins hc
        · exact fun hmark more hmore => hescape more hmark hmore
        · exact fun _ => hpercents
      have hrest : switches.holdsConstruct rest = true := by
        simpa [hpercents, hbegins] using h
      obtain ⟨bindings, hchanges⟩ := ih hrest
      refine ⟨bindings, ?_⟩
      intro cx hbindings hargs mode k done world
      have hx : cx.expandPiece mode (.text c.toString) { document := {}, world } =
          (.ok c.toString, { document := {}, world }) := rfl
      rw [piecesFrom_cons, hread, expandPieces_cons_ok hx, ← append_ofList_cons]
      exact hchanges cx hbindings hargs mode _ _ world

def written (script : String) : String :=
  "$(" ++ script ++ ")"

theorem toList_written (script : String) :
    (written script).toList = '$' :: '(' :: (script.toList ++ [')']) := by
  simp [written]

theorem plan_disabled {script : String} (hcommands : cx.options.commands = false)
    (hkeyword : cx.isSecret (Arguments.split script) = false) :
    cx.plan script = .ok (.literal (written script)) := by
  simp [plan, request, hkeyword, hcommands, planOf, Except.map, written]

theorem expandValue_written_read (cx : Context σ) (mode : Mode) {script : String}
    (hcommands : cx.options.commands = false) (hsecrets : cx.options.secrets = true)
    (hblank : isBlankText script = false) (hclosed : ')' ∉ script.toList)
    (hkeyword : cx.isSecret (Arguments.split script) = false) (p : Progress σ) :
    cx.expandValue mode (written script) p = (.ok (written script), p) := by
  have hcaptures : cx.options.switches.captures = true := by simp [Options.switches, hsecrets]
  have hcut : cut ')' (script.toList ++ [')']) = some (script.toList, []) := by
    rw [cut_append_of_not_mem hclosed]
    simp [cut]
  have hread : Piece.read cx.options.switches '$' ('(' :: (script.toList ++ [')'])) =
      (.capture script, []) := by
    have hscript : script.toList.all isBlank = false := hblank
    simp [Piece.read, hcaptures, hcut, Piece.ofCapture, hscript]
  have hpiece : cx.expandPiece mode (.capture script) p = (.ok (written script), p) := by
    refine (cx.resolve_eq mode script p).trans ?_
    rw [plan_disabled hcommands hkeyword]
  rw [expandValue, pieces, toList_written, piecesFrom_cons, hread, piecesFrom_nil,
    expandPieces_cons_ok hpiece]
  simp [expandPieces]

theorem begins_mark {switches : Switches} (hcaptures : switches.captures = false)
    (rest : List Char) : switches.begins ('(' :: rest) = false := by
  have hname : Piece.isNameStart '(' = false := by decide
  have hdigit : Char.isDigit '(' = false := by decide
  simp [Switches.begins, hcaptures, hname, hdigit]

theorem expandValue_written_unread (script : String) (hcaptures : cx.options.switches.captures = false)
    (p : Progress σ) :
    cx.expandValue mode (written script) p =
      (((cx.expandValue mode (script ++ ")") p).1.mapError (Failure.shift 2)).map ("$(" ++ ·),
        (cx.expandValue mode (script ++ ")") p).2) := by
  have hdollar : Piece.read cx.options.switches '$' ('(' :: (script.toList ++ [')'])) =
      (.text "$", '(' :: (script.toList ++ [')'])) :=
    Piece.read_dollar (begins_mark hcaptures _)
  have hmark : Piece.read cx.options.switches '(' (script.toList ++ [')']) =
      (.text "(", script.toList ++ [')']) :=
    Piece.read_character nofun nofun nofun
  have hpieces : pieces cx.options.switches (written script) =
      { position := 0, piece := .text "$" } :: { position := 1, piece := .text "(" } ::
        (pieces cx.options.switches (script ++ ")")).map (Placed.shift 2) := by
    have hrest : (script ++ ")").toList = script.toList ++ [')'] := by simp
    rw [pieces, toList_written, piecesFrom_cons, hdollar, piecesFrom_cons, hmark,
      ← piecesFrom_toList, hrest]
    simp
  have htext : ∀ text, cx.expandPiece mode (.text text) p = (.ok text, p) := fun _ => rfl
  rw [expandValue, hpieces, expandPieces_cons_ok (htext "$"), expandPieces_cons_ok (htext "("),
    expandPieces_done, expandPieces_shift]
  rfl

theorem holdsConstruct_closed (switches : Switches) (raw : List Char) :
    switches.holdsConstruct (raw ++ [')']) = switches.holdsConstruct raw := by
  have hname : Piece.isNameStart ')' = false := by decide
  have hdigit : Char.isDigit ')' = false := by decide
  have hnone : switches.begins [')'] = false := by simp [Switches.begins, hname, hdigit]
  fun_induction Switches.holdsConstruct switches raw with
  | case1 => simp [Switches.holdsConstruct]
  | case2 rest => rfl
  | case3 c rest hescape ih =>
    have hbegins : switches.begins (rest ++ [')']) = switches.begins rest := by
      cases rest with
      | nil => exact hnone
      | cons n rest => rfl
    rw [List.cons_append, Switches.holdsConstruct, hbegins, ih]
    intro more hmark hmore
    cases rest with
    | nil => simp at hmore
    | cons n rest =>
      obtain ⟨rfl, -⟩ := List.cons.inj hmore
      exact hescape rest hmark rfl

theorem holdsConstruct_written {switches : Switches} (hcaptures : switches.captures = false)
    (script : String) :
    switches.holdsConstruct (written script).toList = switches.holdsConstruct script.toList := by
  have hbegins : switches.begins ('(' :: (script.toList ++ [')'])) = false := begins_mark hcaptures _
  rw [toList_written, ← holdsConstruct_closed switches script.toList]
  simp [Switches.holdsConstruct, hbegins]

theorem expandValue_plain (cx : Context σ) (mode : Mode) {raw : String}
    (h : cx.options.switches.holdsConstruct raw.toList = false) (p : Progress σ) :
    cx.expandValue mode raw p = (.ok raw, p) := by
  rw [expandValue, pieces, expandPieces_spelled (spelled_of_plain 0 h), String.ofList_toList]
  simp

/-- The same run where other variables and arguments are defined. -/
def defining (cx : Context σ) (bindings : List (String × String)) (args : List String)
    (environment : Environment) : Context σ :=
  { cx with options := { cx.options with bindings, args }, environment }

/-- A capture whose command is not enabled is left alone, whatever is defined, if captures are
read for the sake of secrets; if they are not, exactly if it holds no construct, for then what is
between its marks is expanded. -/
theorem capture_left_alone_iff (cx : Context σ) (mode : Mode) (world : σ) (script : String)
    (hcommands : cx.options.commands = false) (hpercents : cx.options.windowsVariables = false)
    (hblank : isBlankText script = false) (hclosed : ')' ∉ script.toList)
    (hkeyword : cx.isSecret (Arguments.split script) = false) :
    ((∀ bindings args environment document,
        (cx.defining bindings args environment).expandValue mode ("$(" ++ script ++ ")")
            { document, world } =
          (.ok ("$(" ++ script ++ ")"), { document, world })) ↔
      cx.options.secrets = true ∨ cx.options.switches.holdsConstruct script.toList = false) ∧
    (cx.options.secrets = false → ∀ p,
      cx.expandValue mode ("$(" ++ script ++ ")") p =
        (((cx.expandValue mode (script ++ ")") p).1.mapError (Failure.shift 2)).map ("$(" ++ ·),
          (cx.expandValue mode (script ++ ")") p).2)) := by
  cases hsecrets : cx.options.secrets with
  | true =>
    refine ⟨iff_of_true ?_ (Or.inl rfl), nofun⟩
    intro bindings args environment document
    exact (cx.defining bindings args environment).expandValue_written_read mode hcommands hsecrets
      hblank hclosed hkeyword _
  | false =>
    have hcaptures : cx.options.switches.captures = false := by
      simp [Options.switches, hcommands, hsecrets]
    refine ⟨⟨?_, ?_⟩, fun _ p => expandValue_written_unread script hcaptures p⟩
    · -- What a construct changes shows where little is defined.
      intro halone
      right
      rw [← holdsConstruct_written hcaptures, ← Bool.not_eq_true]
      intro hholds
      obtain ⟨bindings, hchanges⟩ := exists_changes (σ := σ) hcaptures hpercents hholds
      have hsame := congrArg Prod.fst (halone bindings [] [] {})
      refine hchanges _ rfl rfl mode 0 "" world (hsame.trans ?_)
      rw [String.ofList_toList]
      simp [written]
    · intro hplain bindings args environment document
      rw [← holdsConstruct_written hcaptures] at hplain
      exact (cx.defining bindings args environment).expandValue_plain mode
        (hplain.resolve_left nofun) _

/-- With secrets on, a command with references is left alone; with secrets off it is not, but
one without them is. -/
theorem capture_left_alone_iff_echo :
    let cx := fun secrets => onSession { secrets } [] (fun _ _ => none) []
    let LeftAlone := fun secrets script => ∀ bindings args environment document,
      ((cx secrets).defining bindings args environment).expandValue .blocking ("$(" ++ script ++ ")")
          { document, world := {} } =
        (.ok ("$(" ++ script ++ ")"), { document, world := {} })
    LeftAlone true "echo '$X' \\$\x7bN:=v\x7d" ∧ ¬ LeftAlone false "echo '$X' \\$\x7bN:=v\x7d" ∧
      LeftAlone false "echo '\\' 5$ $ %X%" := by
  intro cx LeftAlone
  have hreferences := fun secrets =>
    (capture_left_alone_iff (cx secrets) .blocking {} "echo '$X' \\$\x7bN:=v\x7d" rfl rfl
      (by decide) (by decide) (by cases secrets <;> decide +kernel)).1
  refine ⟨(hreferences true).2 (Or.inl rfl), mt (hreferences false).1 (by decide +kernel), ?_⟩
  exact (capture_left_alone_iff (cx false) .blocking {} "echo '\\' 5$ $ %X%" rfl rfl (by decide)
    (by decide) (by decide +kernel)).1.2 (Or.inr (by decide +kernel))

theorem unread_capture_expanded :
    let cx := onSession { bindings := [("X", "1")] } [] (fun _ _ => none) []
    (cx.options.commands = false ∧ cx.options.windowsVariables = false ∧
        isBlankText "echo $X" = false ∧ ')' ∉ "echo $X".toList ∧
        cx.isSecret (Arguments.split "echo $X") = false) ∧
      (cx.expandValue .blocking "$(echo $X)" { document := {}, world := {} }).1 = .ok "$(echo 1)" := by
  decide +kernel

end Context
end SecretDotenv.Expansion
