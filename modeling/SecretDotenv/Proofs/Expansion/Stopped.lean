import SecretDotenv.Proofs.Expansion.Joined
import SecretDotenv.Proofs.Expansion.Turns
import SecretDotenv.Proofs.Machine.CommandRun

/-! Runs that can be told to stop, beside runs that cannot. Both are at the same place as
long as the first is not stopped; then it asks nothing more, and what does not ask comes
to the same in both. -/
namespace SecretDotenv.Expansion

open SecretDotenv.Machine SecretDotenv.Secret SecretDotenv.Dotenv

/-- Vaults and commands take no notice of the way in which they are called: a vault as
long as the run goes on, a command as long as it keeps its limit. -/
structure Context.Uniform {σ : Type} (cx : Context σ) : Prop where
  vaults : ∀ vault ∈ cx.vaults, ∀ args world, cx.aborted world = false →
    (vault.expandAsync args).outcome world = (vault.expand args).outcome world
  commands : ∀ c limit world,
    (∀ program ms, (cx.run c (some limit) world).1 ≠ .error (.timeout program ms)) →
      cx.run c (some limit) world = cx.run c none world

def Asked.TimedOut {σ : Type} (a : Asked σ) : Prop :=
  ∃ program limit, a.answer = .error (.command (.timeout program limit))

namespace Context

variable {σ : Type} {cx : Context σ}

theorem answer_cooperative (h : cx.Uniform) {question : Question} {world : σ}
    (hgoes : cx.aborted world = false)
    (hlimit : ∀ program limit, (cx.answer .cooperative question world).1 ≠
      .error (.command (.timeout program limit))) :
    cx.answer .cooperative question world = cx.answer .blocking question world := by
  cases question with
  | vault index args =>
    cases hvault : cx.vaults[index]? with
    | none => simp only [answer, hvault]
    | some vault =>
      have hsame := h.vaults vault (List.mem_of_getElem? hvault) args world hgoes
      cases hsynchronous : vault.synchronous <;> simp [answer, hvault, hsynchronous, hsame]
  | command c =>
    cases hms : cx.options.limit with
    | none => simp [answer, hms]
    | some ms =>
      have hsame : cx.run c (some ms) world = cx.run c none world := by
        refine h.commands c ms world ?_
        intro program limit htimeout
        refine hlimit program limit ?_
        simp [answer, hms, htimeout, commandValue]
      simp [answer, hms, hsame]

theorem expandPiece_of_stopped {piece : Piece} {p : Progress σ}
    (hstop : cx.aborted p.world = true) (hasks : cx.asks piece ≠ none) :
    cx.expandPiece .cooperative piece p = (.error .cancelled, p) := by
  obtain ⟨question, hquestion⟩ := Option.ne_none_iff_exists'.1 hasks
  obtain ⟨script, rfl, hplan⟩ := asks_eq_some hquestion
  refine (cx.resolve_eq .cooperative script p).trans ?_
  simp [hplan, hstop]

theorem askedAt?_of_stopped {visit : Visit σ} (hstop : cx.aborted visit.before.world = true) :
    cx.askedAt? .cooperative visit = none := by
  simp [askedAt?, question?, hstop]

theorem goes_or_stopped (cx : Context σ) (piece : Piece) (p : Progress σ) :
    (cx.aborted p.world = false ∨ cx.asks piece = none) ∨
      cx.aborted p.world = true ∧ cx.asks piece ≠ none := by
  cases cx.aborted p.world <;> cases cx.asks piece <;> simp

theorem expandPiece_cooperative (h : cx.Uniform) {x : Placed} {p : Progress σ}
    (hgoes : cx.aborted p.world = false ∨ cx.asks x.piece = none)
    (hlimit : ∀ a ∈ cx.askedAt? .cooperative { placed := x, before := p }, ¬ a.TimedOut) :
    cx.expandPiece .cooperative x.piece p = cx.expandPiece .blocking x.piece p ∧
      cx.askedAt? .cooperative { placed := x, before := p } =
        cx.askedAt? .blocking { placed := x, before := p } := by
  have hsame : cx.question? .cooperative p.world x.piece = cx.question? .blocking p.world x.piece := by
    rcases hgoes with hgoes | hquiet
    · simp [question?, hgoes]
    · simp [question?, hquiet]
  cases hquestion : cx.question? .cooperative p.world x.piece with
  | none =>
    rw [expandPiece_of_quiet hquestion, expandPiece_of_quiet (hsame ▸ hquestion)]
    simp [askedAt?, hquestion, ← hsame]
  | some question =>
    have hanswer : cx.answer .cooperative question p.world = cx.answer .blocking question p.world := by
      refine answer_cooperative h (question?_eq_some.1 hquestion).1 ?_
      intro program limit htimeout
      simp only [askedAt?, hquestion, Option.map_some] at hlimit
      exact hlimit _ rfl ⟨program, limit, htimeout⟩
    rw [expandPiece_of_question hquestion, expandPiece_of_question (hsame ▸ hquestion)]
    simp [askedAt?, hquestion, ← hsame, hanswer]

/-- A value is given up at the first piece that asks of a run that was told to stop. Up
to there, both runs come to the same pieces. -/
structure GivenUp (cx : Context σ) (placed : List Placed) (p : Progress σ) (next : Visit σ) :
    Prop where
  visits : ∃ front, cx.visits .cooperative placed p = front ++ [next] ∧
    ∀ v ∈ front, cx.aborted v.before.world = false ∨ cx.asks v.placed.piece = none
  along : cx.visits .cooperative placed p <+: cx.visits .blocking placed p
  asks : cx.asks next.placed.piece ≠ none
  stopped : cx.aborted next.before.world = true

theorem GivenUp.cons {x : Placed} {rest : List Placed} {p q : Progress σ} {next : Visit σ}
    {value : String} (h : cx.GivenUp rest q next)
    (hgoes : cx.aborted p.world = false ∨ cx.asks x.piece = none)
    (hx : cx.expandPiece .cooperative x.piece p = (.ok value, q))
    (hx' : cx.expandPiece .blocking x.piece p = (.ok value, q)) :
    cx.GivenUp (x :: rest) p next := by
  obtain ⟨front, hvisits, hfront⟩ := h.visits
  refine ⟨⟨{ placed := x, before := p } :: front, ?_, ?_⟩, ?_, h.asks, h.stopped⟩
  · rw [visits_cons_ok hx, hvisits, List.cons_append]
  · exact List.forall_mem_cons.2 ⟨hgoes, hfront⟩
  · rw [visits_cons_ok hx, visits_cons_ok hx']
    exact (List.prefix_cons_inj _).2 h.along

/-- The pieces come to the same in both runs, or the run that can be stopped fails at the
piece at which it is given up. -/
theorem expandPieces_cooperative (h : cx.Uniform) (placed : List Placed) (done : String)
    (p : Progress σ) (hlimit : ∀ a ∈ cx.asked .cooperative placed p, ¬ a.TimedOut) :
    (cx.expandPieces .cooperative done placed p = cx.expandPieces .blocking done placed p ∧
        cx.asked .cooperative placed p = cx.asked .blocking placed p) ∨
      ∃ next, cx.GivenUp placed p next ∧
        cx.asked .cooperative placed p <+: cx.asked .blocking placed p ∧
        cx.expandPieces .cooperative done placed p =
          (.error { cause := .cancelled, position := next.placed.position }, next.before) := by
  induction placed, p using pieces_induction cx .cooperative generalizing done with
  | nil p => exact .inl ⟨rfl, rfl⟩
  | error x rest p cause q hx =>
    rw [asked_cons_error hx] at hlimit
    -- The piece fails by itself, and so in both runs, or it was kept from asking.
    rcases cx.goes_or_stopped x.piece p with hgoes | ⟨hstop, hasks⟩
    · left
      obtain ⟨hsame, hasked⟩ := expandPiece_cooperative h hgoes (by simpa using hlimit)
      have hx' := hsame.symm.trans hx
      rw [expandPieces_cons_error hx, expandPieces_cons_error hx', asked_cons_error hx,
        asked_cons_error hx', hasked]
      exact ⟨rfl, rfl⟩
    · right
      have hcancelled := expandPiece_of_stopped hstop hasks
      have hquiet : cx.askedAt? .cooperative { placed := x, before := p } = none :=
        askedAt?_of_stopped hstop
      refine ⟨{ placed := x, before := p }, ⟨⟨[], visits_cons_error hx, by simp⟩, ?_, hasks, hstop⟩,
        ?_, expandPieces_cons_error hcancelled done⟩
      · rw [visits_cons_error hx]
        exact (List.prefix_cons_inj _).2 List.nil_prefix
      · rw [asked_cons_error hx, hquiet]
        exact List.nil_prefix
  | ok x rest p value q hx ih =>
    rw [asked_cons_ok hx] at hlimit
    -- A piece that is kept from asking has no value.
    have hgoes := (cx.goes_or_stopped x.piece p).resolve_right fun ⟨hstop, hasks⟩ => by
      rw [expandPiece_of_stopped hstop hasks] at hx
      cases hx
    obtain ⟨hsame, hasked⟩ := expandPiece_cooperative h hgoes fun a ha =>
      hlimit a (List.mem_append_left _ (Option.mem_toList.2 ha))
    have hx' := hsame.symm.trans hx
    rw [expandPieces_cons_ok hx, expandPieces_cons_ok hx', asked_cons_ok hx, asked_cons_ok hx', hasked]
    rcases ih (done ++ value) (fun a ha => hlimit a (List.mem_append_right _ ha)) with
      ⟨hrest, hrestAsked⟩ | ⟨next, hgiven, halong, hrest⟩
    · exact .inl ⟨hrest, by rw [hrestAsked]⟩
    · exact .inr ⟨next, hgiven.cons hgoes hx hx', (List.prefix_append_right_inj _).2 halong, hrest⟩

theorem expandAt_stopped (index : Nat) {p : Progress σ} (hstop : cx.aborted p.world = true) :
    cx.expandAt .cooperative index p =
      ((p.document.entryAt? index).map fun entry =>
        { index, key := entry.name, failure := { cause := .cancelled, position := 0 } }, p) := by
  cases hentry : p.document.entryAt? index with
  | none => exact expandAt_of_none hentry
  | some entry => exact expandAt_of_stopped hentry hstop

theorem askedIn_stopped (index : Nat) {p : Progress σ} (hstop : cx.aborted p.world = true) :
    cx.askedIn .cooperative index p = [] := by
  rw [askedIn, visitsAt_of_stopped (by simpa using hstop), List.filterMap_nil]

theorem expandAt_cooperative (h : cx.Uniform) {index : Nat} {p : Progress σ}
    (hgoes : cx.aborted p.world = false)
    (hlimit : ∀ a ∈ cx.askedIn .cooperative index p, ¬ a.TimedOut) :
    (cx.expandAt .cooperative index p = cx.expandAt .blocking index p ∧
        cx.askedIn .cooperative index p = cx.askedIn .blocking index p) ∨
      ∃ entry next, p.document.entryAt? index = some entry ∧
        cx.GivenUp (pieces cx.options.switches entry.value) p next ∧
        cx.askedIn .cooperative index p <+: cx.askedIn .blocking index p ∧
        cx.expandAt .cooperative index p =
          (some { index, key := entry.name,
                  failure := { cause := .cancelled, position := next.placed.position } },
            next.before) := by
  cases hentry : p.document.entryAt? index with
  | none =>
    left
    simp [expandAt_of_none hentry, askedIn_of_none hentry]
  | some entry =>
    have hgoes' : cx.stopped .cooperative p.world = false := hgoes
    rw [askedIn_of_goes hentry hgoes'] at hlimit
    rw [askedIn_of_goes hentry hgoes', askedIn_of_goes hentry (stopped_blocking cx _)]
    rcases expandPieces_cooperative h _ "" p hlimit with
      ⟨hsame, hasked⟩ | ⟨next, hgiven, halong, hfails⟩
    · refine .inl ⟨?_, hasked⟩
      simp [expandAt, hentry, expandEntry_eq, hgoes, expandValue, hsame]
    · exact .inr ⟨entry, next, rfl, hgiven, halong, expandAt_of_error hentry hgoes' hfails⟩

variable {document : Document} {world : σ} {index : Nat}

theorem reached_of_stopped {later : Nat}
    (hstop : cx.aborted (cx.reached .cooperative document world index).world = true)
    (hlater : index ≤ later) :
    cx.reached .cooperative document world later = cx.reached .cooperative document world index := by
  induction hlater with
  | refl => rfl
  | step _ ih => rw [reached_succ, ih, expandAt_stopped _ hstop]

theorem goes_of_le {later : Nat}
    (hgoes : cx.aborted (cx.reached .cooperative document world later).world = false)
    (hlater : index ≤ later) :
    cx.aborted (cx.reached .cooperative document world index).world = false := by
  cases hstop : cx.aborted (cx.reached .cooperative document world index).world with
  | false => rfl
  | true =>
    rw [reached_of_stopped hstop hlater, hstop] at hgoes
    contradiction

theorem askedBefore_of_stopped {later : Nat}
    (hstop : cx.aborted (cx.reached .cooperative document world index).world = true)
    (hlater : index ≤ later) :
    cx.askedBefore .cooperative document world later =
      cx.askedBefore .cooperative document world index := by
  induction hlater with
  | refl => rfl
  | @step later hlater ih =>
    have hnothing : cx.askedIn .cooperative later (cx.reached .cooperative document world later) =
        [] := by
      refine askedIn_stopped later ?_
      rw [reached_of_stopped hstop hlater, hstop]
    rw [askedBefore_succ, hnothing, ih, List.append_nil]

section

variable (h : cx.Uniform)
  (hlimit : ∀ a ∈ cx.passAsked .cooperative document world, ¬ a.TimedOut)

include h hlimit

theorem turn_cooperative (hindex : index < document.nodes.length)
    (hgoes : cx.aborted (cx.reached .cooperative document world (index + 1)).world = false) :
    cx.expandAt .cooperative index (cx.reached .cooperative document world index) =
        cx.expandAt .blocking index (cx.reached .cooperative document world index) ∧
      cx.askedIn .cooperative index (cx.reached .cooperative document world index) =
        cx.askedIn .blocking index (cx.reached .cooperative document world index) := by
  rcases expandAt_cooperative h (goes_of_le hgoes (Nat.le_succ _))
      (fun a ha => hlimit a (cx.askedIn_subset _ _ hindex ha)) with
    hsame | ⟨entry, next, -, hgiven, -, hfails⟩
  · exact hsame
  · rw [reached_succ, hfails, hgiven.stopped] at hgoes
    contradiction

theorem before_cooperative (hindex : index ≤ document.nodes.length)
    (hgoes : cx.aborted (cx.reached .cooperative document world index).world = false) :
    cx.reached .cooperative document world index = cx.reached .blocking document world index ∧
      cx.failuresBefore .cooperative document world index =
        cx.failuresBefore .blocking document world index ∧
      cx.askedBefore .cooperative document world index =
        cx.askedBefore .blocking document world index := by
  induction index with
  | zero => exact ⟨rfl, rfl, rfl⟩
  | succ index ih =>
    obtain ⟨hreached, hfailures, hasked⟩ :=
      ih (Nat.le_of_succ_le hindex) (goes_of_le hgoes (Nat.le_succ _))
    obtain ⟨hturn, hturnAsked⟩ := turn_cooperative h hlimit hindex hgoes
    rw [hreached] at hturn hturnAsked
    simp only [reached_succ, failuresBefore_succ, askedBefore_succ, hturn, hturnAsked, hfailures,
      hasked, hreached, and_self]

theorem result_cooperative (hindex : index < document.nodes.length)
    (hgoes : cx.aborted (cx.reached .cooperative document world (index + 1)).world = false) :
    (cx.expand .cooperative document world).1.result index =
      (cx.expand .blocking document world).1.result index := by
  obtain ⟨hreached, -⟩ := before_cooperative h hlimit (Nat.le_of_lt hindex)
    (goes_of_le hgoes (Nat.le_succ _))
  rw [result_expand _ _ _ hindex, result_expand _ _ _ hindex,
    (turn_cooperative h hlimit hindex hgoes).1, hreached]

theorem expand_of_goes
    (hgoes : cx.aborted (cx.expand .cooperative document world).2 = false) :
    cx.expand .cooperative document world = cx.expand .blocking document world ∧
      cx.passAsked .cooperative document world = cx.passAsked .blocking document world := by
  obtain ⟨hreached, hfailures, hasked⟩ := before_cooperative h hlimit (Nat.le_refl _) hgoes
  rw [expand_eq, expand_eq, hreached, hfailures]
  exact ⟨rfl, hasked⟩

end

/-- A node that has no turn any more. -/
def leftAlone (document : Document) (index : Nat) : Option Node × Option EntryFailure :=
  (document.nodes[index]?, (document.entryAt? index).map fun entry =>
    { index, key := entry.name, failure := { cause := .cancelled, position := 0 } })

theorem result_of_stopped (hindex : index < document.nodes.length)
    (hstop : cx.aborted (cx.reached .cooperative document world index).world = true) :
    (cx.expand .cooperative document world).1.result index = leftAlone document index := by
  have hnode := cx.getElem?_reached .cooperative world (Nat.le_refl index) hindex
  rw [result_expand _ _ _ hindex, expandAt_stopped index hstop, hnode,
    cx.entryAt?_reached .cooperative world hindex, leftAlone]

theorem passAsked_of_stopped (hindex : index < document.nodes.length)
    (hstop : cx.aborted (cx.reached .cooperative document world (index + 1)).world = true) :
    cx.passAsked .cooperative document world =
      cx.askedBefore .cooperative document world index ++
        cx.askedIn .cooperative index (cx.reached .cooperative document world index) := by
  rw [passAsked_eq, askedBefore_of_stopped hstop hindex, askedBefore_succ]

theorem exists_stop {n : Nat} (hgoes : cx.aborted world = false)
    (hstop : cx.aborted (cx.reached .cooperative document world n).world = true) :
    ∃ index < n, cx.aborted (cx.reached .cooperative document world index).world = false ∧
      cx.aborted (cx.reached .cooperative document world (index + 1)).world = true := by
  induction n with
  | zero => simp [hgoes] at hstop
  | succ n ih =>
    cases hlast : cx.aborted (cx.reached .cooperative document world n).world with
    | false => exact ⟨n, Nat.lt_succ_self n, hlast, hstop⟩
    | true =>
      obtain ⟨index, hindex, hturn⟩ := ih hlast
      exact ⟨index, Nat.lt_succ_of_lt hindex, hturn⟩

theorem before_of_mem_passAsked {a : Asked σ} (ha : a ∈ cx.passAsked .cooperative document world) :
    cx.aborted a.before = false := by
  obtain ⟨visit, -, hvisit⟩ := List.mem_filterMap.1 ha
  obtain ⟨question, hquestion, rfl⟩ := Option.map_eq_some_iff.1 hvisit
  exact (question?_eq_some.1 hquestion).1

theorem Linked.after_getLast {s t : σ} {front : List (Asked σ)} {a : Asked σ}
    (h : Linked s (front ++ [a]) t) : a.after = t := by
  induction front generalizing s with
  | nil => exact h.2
  | cons b rest ih => exact ih h.2

theorem exists_last
    (hgoes : cx.aborted (cx.reached .cooperative document world index).world = false)
    (hstop : cx.aborted (cx.reached .cooperative document world (index + 1)).world = true) :
    ∃ earlier a, cx.askedIn .cooperative index (cx.reached .cooperative document world index) =
      earlier ++ [a] ∧ cx.aborted a.after = true := by
  have hlinked := cx.linked_expandAt .cooperative index (cx.reached .cooperative document world index)
  rw [← reached_succ, ← askedIn] at hlinked
  rcases List.eq_nil_or_concat (cx.askedIn .cooperative index
    (cx.reached .cooperative document world index)) with hnil | ⟨earlier, a, hasked⟩
  · rw [hnil] at hlinked
    rw [← show (cx.reached .cooperative document world index).world = _ from hlinked, hgoes] at hstop
    contradiction
  · rw [List.concat_eq_append] at hasked
    rw [hasked] at hlinked
    exact ⟨earlier, a, hasked, Linked.after_getLast hlinked ▸ hstop⟩

/-- How a pass comes out that is told to stop in a certain turn. -/
structure StoppedIn (cx : Context σ) (document : Document) (world : σ) (turn : Turn σ) : Prop where
  taken : turn ∈ cx.passTurns .blocking document world
  goes : cx.aborted turn.before.world = false
  /-- It is the last question of the pass during which the run is told to stop. -/
  last : ∃ earlier a, cx.passAsked .cooperative document world = earlier ++ [a] ∧
    a ∈ cx.valueAsked .cooperative turn.raw turn.before ∧ cx.aborted a.after = true
  front : ∀ index < turn.index, (cx.expand .cooperative document world).1.result index =
    (cx.expand .blocking document world).1.result index
  behind : ∀ index, turn.index < index → index < document.nodes.length →
    (cx.expand .cooperative document world).1.result index = leftAlone document index
  within : (cx.expand .cooperative document world).1.result turn.index =
      (cx.expand .blocking document world).1.result turn.index ∨
    ∃ entry next, document.entryAt? turn.index = some entry ∧
      cx.GivenUp (pieces cx.options.switches turn.raw) turn.before next ∧
      (cx.expand .cooperative document world).1.result turn.index =
        (document.nodes[turn.index]?,
          some { index := turn.index, key := entry.name,
                 failure := { cause := .cancelled, position := next.placed.position } })

section

variable (h : cx.Uniform)
  (hlimit : ∀ a ∈ cx.passAsked .cooperative document world, ¬ a.TimedOut)

include h hlimit

theorem asked_prefix_of_stopped (hindex : index < document.nodes.length)
    (hgoes : cx.aborted (cx.reached .cooperative document world index).world = false)
    (hstop : cx.aborted (cx.reached .cooperative document world (index + 1)).world = true) :
    cx.passAsked .cooperative document world <+: cx.passAsked .blocking document world := by
  have hturn : cx.askedIn .cooperative index (cx.reached .cooperative document world index) <+:
      cx.askedIn .blocking index (cx.reached .cooperative document world index) := by
    rcases expandAt_cooperative h hgoes (fun a ha => hlimit a (cx.askedIn_subset _ _ hindex ha)) with
      ⟨-, hsame⟩ | ⟨entry, next, -, -, halong, -⟩
    · exact hsame ▸ List.prefix_rfl
    · exact halong
  obtain ⟨hreached, -, hasked⟩ := before_cooperative h hlimit (Nat.le_of_lt hindex) hgoes
  refine List.IsPrefix.trans ?_ (cx.askedBefore_prefix_of_le .blocking document world hindex)
  rw [passAsked_of_stopped hindex hstop, askedBefore_succ, ← hreached, hasked]
  exact (List.prefix_append_right_inj _).2 hturn

theorem exists_stoppedIn (hindex : index < document.nodes.length)
    (hgoes : cx.aborted (cx.reached .cooperative document world index).world = false)
    (hstop : cx.aborted (cx.reached .cooperative document world (index + 1)).world = true) :
    ∃ turn, cx.StoppedIn document world turn := by
  obtain ⟨hsame, -⟩ := before_cooperative h hlimit (Nat.le_of_lt hindex) hgoes
  have hnode := cx.getElem?_reached .cooperative world (Nat.le_refl index) hindex
  obtain ⟨earlier, a, hasked, hlast⟩ := exists_last hgoes hstop
  -- A comment asks nothing, so the node is an entry.
  obtain ⟨entry, hentry⟩ : ∃ entry, document.entryAt? index = some entry := by
    rw [← Option.ne_none_iff_exists', ← cx.entryAt?_reached .cooperative world hindex]
    intro hnone
    simp [askedIn_of_none hnone] at hasked
  have hentry' := (cx.entryAt?_reached .cooperative world hindex).trans hentry
  refine ⟨{ index, raw := entry.value, before := cx.reached .cooperative document world index },
    ?taken, hgoes, ?last, ?front, ?behind, ?within⟩
  case taken =>
    refine (cx.mem_passTurns .blocking world).2 ⟨hindex, ?_⟩
    rw [← hsame]
    exact turnAt?_of_goes hentry' rfl
  case last =>
    have hpass := passAsked_of_stopped hindex hstop
    rw [hasked, ← List.append_assoc] at hpass
    refine ⟨_, a, hpass, ?_, hlast⟩
    rw [← askedIn_of_goes hentry' (by simpa using hgoes), hasked]
    exact List.mem_append_right _ List.mem_cons_self
  case front =>
    intro i hi
    exact result_cooperative h hlimit (Nat.lt_trans hi hindex)
      (goes_of_le hgoes (Nat.succ_le_of_lt hi))
  case behind =>
    intro i hi hlength
    refine result_of_stopped hlength ?_
    rw [reached_of_stopped hstop (Nat.succ_le_of_lt hi), hstop]
  case within =>
    dsimp only
    rcases expandAt_cooperative h hgoes (fun a ha => hlimit a (cx.askedIn_subset _ _ hindex ha)) with
      ⟨hturn, -⟩ | ⟨entry', next, hfound, hgiven, -, hturn⟩
    · left
      rw [result_expand _ _ _ hindex, result_expand _ _ _ hindex, hturn, hsame]
    · right
      obtain rfl := Option.some.inj (hentry'.symm.trans hfound)
      refine ⟨entry, next, hentry, hgiven, ?_⟩
      have hfailed : (cx.expandAt .cooperative index
          (cx.reached .cooperative document world index)).1 ≠ none := by simp [hturn]
      have hlength := cx.le_length_reached .cooperative world (Nat.le_of_lt hindex)
      rw [result_expand _ _ _ hindex,
        cx.getElem?_expandAt .cooperative (Nat.lt_of_lt_of_le hindex hlength) (.inr hfailed), hnode,
        hturn]

end

theorem uniform_onSession (options : Options) {vaults : List (Vault Session)} (programs : Programs)
    (environment : Environment)
    (h : ∀ vault ∈ vaults, ∀ args (s : Session), s.machine.aborted = false →
      (vault.expandAsync args).outcome s = (vault.expand args).outcome s) :
    (onSession options vaults programs environment).Uniform := by
  refine ⟨h, ?_⟩
  intro c limit s hkept
  have hrun : s.machine.run programs c (some limit) = s.machine.run programs c none :=
    Machine.run_of_kept hkept
  simp only [onSession, hrun]

theorem uniform_onTable (options : Options) (table : Table) : (onTable options table).Uniform := by
  refine uniform_onSession _ _ _ ?_
  intro vault hvault args s hgoes
  obtain rfl := List.mem_singleton.1 hvault
  have hrun : (table.expandAsync args).outcome { log := s.log, aborted := s.machine.aborted } =
      (table.expand args).outcome { log := s.log, aborted := s.machine.aborted } := by
    rw [hgoes]
    rfl
  change (Session.onTables (table.expandAsync args)) s = (Session.onTables (table.expand args)) s
  simp only [Session.onTables, Effect.within]
  unfold Effect.outcome at hrun
  rw [hrun]

/-- If vaults and commands take no notice of how they are called, a run that is not told to
stop is the run that cannot be stopped. One that is told to stop asks nothing from then on:
either no entry has a turn, or the run is told to stop in a turn. -/
theorem expand_cooperative (cx : Context σ) (document : Document) (world : σ) (h : cx.Uniform)
    (hlimit : ∀ a ∈ cx.passAsked .cooperative document world, ¬ a.TimedOut) :
    (cx.aborted (cx.expand .cooperative document world).2 = false →
      cx.expand .cooperative document world = cx.expand .blocking document world ∧
        cx.passAsked .cooperative document world = cx.passAsked .blocking document world) ∧
    (cx.aborted (cx.expand .cooperative document world).2 = true →
      (∀ a ∈ cx.passAsked .cooperative document world, cx.aborted a.before = false) ∧
        cx.passAsked .cooperative document world <+: cx.passAsked .blocking document world ∧
        (cx.aborted world = true ∧ cx.passAsked .cooperative document world = [] ∧
            (cx.expand .cooperative document world).1.document = document ∧
            (∀ index < document.nodes.length,
              (cx.expand .cooperative document world).1.result index = leftAlone document index) ∨
          cx.aborted world = false ∧ ∃ turn, cx.StoppedIn document world turn)) := by
  refine ⟨expand_of_goes h hlimit, ?_⟩
  intro hend
  refine ⟨fun a ha => before_of_mem_passAsked ha, ?_⟩
  cases hfirst : cx.aborted world with
  | true =>
    have hstop : cx.aborted (cx.reached .cooperative document world 0).world = true := hfirst
    have hreached : ∀ index, cx.reached .cooperative document world index = { document, world } :=
      fun index => reached_of_stopped hstop (Nat.zero_le index)
    have hnothing : cx.passAsked .cooperative document world = [] :=
      askedBefore_of_stopped hstop (Nat.zero_le _)
    refine ⟨hnothing ▸ List.nil_prefix, .inl ⟨rfl, hnothing, ?_, ?_⟩⟩
    · rw [expand_eq, hreached]
    · intro index hindex
      exact result_of_stopped hindex (by rw [hreached, hfirst])
  | false =>
    rw [expand_eq] at hend
    obtain ⟨index, hindex, hgoes, hstop⟩ := exists_stop hfirst hend
    exact ⟨asked_prefix_of_stopped h hlimit hindex hgoes hstop,
      .inr ⟨rfl, exists_stoppedIn h hlimit hindex hgoes hstop⟩⟩

theorem not_timedOut_of_isOk {asked : List (Asked σ)}
    (h : asked.all (fun a => a.answer.isOk) = true) : ∀ a ∈ asked, ¬ a.TimedOut := by
  intro a ha ⟨program, limit, htimeout⟩
  have hok := List.all_eq_true.1 h a ha
  rw [htimeout] at hok
  contradiction

/-- The run is told to stop when the second entry asks for its first secret, unless nothing
comes of that. -/
theorem expand_cooperative_onTable :
    let cx := fun abortOn => onTable {}
      { name := "table", scheme := "mem", secrets := [("key", "x"), ("last", "y")], abortOn }
    let document := Document.ofPairs [("A", "$(secret mem://v/key -C)"),
      ("B", "$(secret mem://v/last -C)$(secret mem://v/key -C)"), ("C", "c")]
    (∃ turn, (cx (some "last")).StoppedIn document {} turn) ∧
      (cx none).expand .cooperative document {} = (cx none).expand .blocking document {} := by
  intro cx document
  have huniform : ∀ abortOn, (cx abortOn).Uniform := fun _ => uniform_onTable _ _
  have hstop : ∀ a ∈ (cx (some "last")).passAsked .cooperative document {}, ¬ a.TimedOut :=
    not_timedOut_of_isOk (by decide +kernel)
  have hgo : ∀ a ∈ (cx none).passAsked .cooperative document {}, ¬ a.TimedOut :=
    not_timedOut_of_isOk (by decide +kernel)
  have hstopped : (cx (some "last")).aborted
      ((cx (some "last")).expand .cooperative document {}).2 = true := by decide +kernel
  have hgoes : (cx none).aborted ((cx none).expand .cooperative document {}).2 = false := by
    decide +kernel
  have hfresh : (cx (some "last")).aborted {} = false := by decide +kernel
  refine ⟨?_, ?_⟩
  · have hrun := (expand_cooperative (cx (some "last")) document {} (huniform _) hstop).2 hstopped
    rw [hfresh] at hrun
    obtain ⟨-, -, ⟨hfirst, -⟩ | ⟨-, hturn⟩⟩ := hrun
    · exact absurd hfirst Bool.false_ne_true
    · exact hturn
  · exact ((expand_cooperative (cx none) document {} (huniform _) hgo).1 hgoes).1

end Context
end SecretDotenv.Expansion
