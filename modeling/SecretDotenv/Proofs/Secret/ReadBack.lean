import Mathlib.Logic.Function.Basic
import SecretDotenv.Proofs.Machine.CommandRun
import SecretDotenv.Proofs.Secret.CloudCalls
import SecretDotenv.Proofs.Secret.Generation
import SecretDotenv.Proofs.Text.Trimmed

/-! Secrets that a cloud vault made, read back. What a vault holds it keeps: a request stores
nothing but a secret that was missing. What was made is returned as it was stored, and what is
read is returned without the white space around it. -/
namespace SecretDotenv.Secret

open SecretDotenv.Text SecretDotenv.Machine

namespace Generator

def memberOf (b : Char) (cls : List Char) : Char :=
  if b ∈ cls then b else cls.headD b

theorem memberOf_mem (b : Char) {cls : List Char} (h : cls ≠ []) : memberOf b cls ∈ cls := by
  unfold memberOf
  split
  · assumption
  · cases cls with
    | nil => exact absurd rfl h
    | cons c cls => exact List.mem_cons_self

def filled (g : Generator) (b : Char) (size : Nat) : List Char :=
  g.required.map (memberOf b) ++ List.replicate (size - g.required.length) b

section Filled

variable {g : Generator} {b : Char} {size : Nat}

theorem length_filled (h : g.required.length ≤ size) : (g.filled b size).length = size := by
  simp [filled]
  omega

theorem mem_filled (hclass : g.required = [] ∨ ∃ cls ∈ g.required, b ∈ cls) (hsize : size ≠ 0) :
    b ∈ g.filled b size := by
  rcases hclass with hnone | ⟨cls, hcls, hbcls⟩
  · simp [filled, hnone, hsize]
  · exact List.mem_append_left _ (List.mem_map.2 ⟨cls, hcls, if_pos hbcls⟩)

variable (hg : g.IsSound)
include hg

theorem filled_subset (hb : b ∈ g.pool) : ∀ c ∈ g.filled b size, c ∈ g.pool := by
  intro c hc
  rcases List.mem_append.1 hc with hc | hc
  · obtain ⟨cls, hcls, rfl⟩ := List.mem_map.1 hc
    exact hg.subset cls hcls _ (memberOf_mem b (hg.ne_nil _ hcls))
  · rwa [(List.mem_replicate.1 hc).2]

theorem satisfies_of_perm {value : List Char} (h : (g.filled b size).Perm value) :
    g.satisfies value := by
  refine List.all_eq_true.2 fun cls hcls => List.any_eq_true.2 ⟨memberOf b cls, ?_, ?_⟩
  · exact h.mem_iff.1 (List.mem_append_left _ (List.mem_map_of_mem hcls))
  · exact decide_eq_true (memberOf_mem b (hg.ne_nil _ hcls))

theorem exists_acceptable_cons (hb : b ∈ g.pool)
    (hclass : g.required = [] ∨ ∃ cls ∈ g.required, b ∈ cls) (hsize : size ≠ 0) :
    ∃ rest, (b :: rest).length = size ∧ (∀ c ∈ b :: rest, c ∈ g.pool) ∧
      g.isAcceptable (b :: rest) := by
  by_cases hroom : g.required.length ≤ size
  · have hperm := List.perm_cons_erase (mem_filled hclass hsize)
    refine ⟨(g.filled b size).erase b, ?_, fun c hc => ?_, ?_⟩
    · rw [← hperm.length_eq, length_filled hroom]
    · exact filled_subset hg hb c (hperm.mem_iff.2 hc)
    · rw [isAcceptable, satisfies_of_perm hg hperm, Bool.or_true]
  -- a secret shorter than the list of classes need not show them
  · obtain ⟨more, rfl⟩ := Nat.exists_eq_succ_of_ne_zero hsize
    refine ⟨List.replicate more b, by simp, fun c hc => ?_, ?_⟩
    · rcases List.mem_cons.1 hc with rfl | hc
      · exact hb
      · rwa [(List.mem_replicate.1 hc).2]
    · have hshort : g.required.length > (b :: List.replicate more b).length := by
        simp
        omega
      rw [isAcceptable, decide_eq_true hshort, Bool.true_or]

end Filled

theorem exists_generate_eq {g : Generator} {value : List Char} (hne : value ≠ [])
    (hpool : ∀ c ∈ value, c ∈ g.pool) (haccepted : g.isAcceptable value) :
    ∃ draws, (g.generate value.length draws).1 = value := by
  obtain ⟨numbers, hnumbers⟩ := exists_candidate hpool
  have hlength : numbers.length = value.length := by rw [← hnumbers, length_candidate]
  refine ⟨{ value := fun i => numbers.getD i 0 }, ?_⟩
  have htaken : (Draws.take value.length { value := fun i => numbers.getD i 0 }).1 = numbers := by
    refine List.ext_getElem (by simp [Draws.take, hlength]) fun i hi hi' => ?_
    simp [Draws.take, hi']
  have hsome : (g.pool.isEmpty || value.length = 0) = false := by
    obtain ⟨c, hc⟩ := List.exists_mem_of_ne_nil _ hne
    simp [hne, List.ne_nil_of_mem (hpool c hc)]
  rw [generate, hsome, if_neg Bool.false_ne_true]
  rw [show 1000000 = 999999 + 1 from rfl, draw_succ, htaken, hnumbers, if_pos haccepted]

end Generator

namespace Policy

theorem isSound_generator (p : Policy) : p.generator.IsSound :=
  p.generator_eq ▸ Generator.isSound_ofRegistrations _

theorem effectiveSize_ne_zero (p : Policy) : p.effectiveSize ≠ 0 := by
  unfold effectiveSize
  split
  · decide
  · assumption

theorem mem_class {p : Policy} {b : Char} (hb : b ∈ p.generator.pool) :
    p.generator.required = [] ∨ ∃ cls ∈ p.generator.required, b ∈ cls := by
  cases hpool : p.pool? with
  | some chars =>
    left
    simp [generator_eq, Generator.required_ofRegistrations, registrations, hpool,
      Generator.Registration.class?]
  | none =>
    cases hopen : p.isOpen with
    | true =>
      left
      rw [generator_eq, Generator.required_ofRegistrations, registrations, hpool]
      dsimp only
      split
      · rfl
      · simp [Generator.Registration.class?]
    | false =>
      rw [required_generator hpool hopen]
      rw [mem_pool_generator, hpool] at hb
      dsimp only at hb
      split at hb
      · exact Or.inl ‹_›
      · exact Or.inr hb

theorem generate_eq (p : Policy) (draws : Draws) :
    (p.generate draws).1 = String.ofList (p.generator.generate p.effectiveSize draws).1 := rfl

/-- What a policy generates is the same without the white space around it, whatever is drawn,
exactly if there is no white space to draw. -/
theorem trim_generate_iff (p : Policy) :
    (∀ draws, trim (p.generate draws).1 = (p.generate draws).1) ↔
      ∀ c ∈ p.generator.pool, isBlank c = false := by
  refine ⟨fun hsame b hb => ?_, fun hnone draws => ?_⟩
  · by_contra hblank
    rw [Bool.not_eq_false] at hblank
    obtain ⟨rest, hlength, hpool, haccepted⟩ := Generator.exists_acceptable_cons p.isSound_generator hb
      (mem_class hb) p.effectiveSize_ne_zero
    obtain ⟨draws, hdraws⟩ :=
      Generator.exists_generate_eq (List.cons_ne_nil b rest) hpool haccepted
    have htrimmed := hsame draws
    rw [generate_eq, ← hlength, hdraws, trim_ofList, String.ofList_inj] at htrimmed
    exact trimChars_ne_of_blank rest hblank htrimmed
  · have hsecret := Generator.isSecret_generate p.isSound_generator p.pool_generator_ne_nil
      p.effectiveSize draws
    rw [generate_eq, trim_ofList,
      trimChars_of_not_blank fun c hc => hnone c (hsecret.pool c hc)]

end Policy

def SecretLocation.key (l : SecretLocation) : String × String := (l.vault, l.name)

namespace KeyVault

open Effect (outcome outcome_bind_ok outcome_bind_cases outcome_checkAborted_ok checked_cases)

def answered (m : Machine) (c : Command) (r : Reply) : Machine :=
  { m.record c true with disk := r.disk, aborted := m.aborted || r.aborts }

/-- The command line is one to a store: what is stored is shown as it is, with a line feed
behind it, until it is stored anew, and what is not there is not found. -/
structure Stores (v : KeyVault) (programs : Programs)
    (held : Machine → String × String → Option String) : Prop where
  shown : ∀ {m l value}, held m l.key = some value →
    ∃ r, programs m (v.showCommand l) = some r ∧ r.output.success ∧
      r.output.stdout = value ++ "\n"
  missing : ∀ {m l r}, held m l.key = none → programs m (v.showCommand l) = some r →
    r.output.success = false ∧ isNotFound r.output
  stored : ∀ {m l value expiresAt r}, programs m (v.setCommand l value expiresAt) = some r →
    r.output.success →
      held (answered m (v.setCommand l value expiresAt) r) =
        Function.update (held m) l.key (some value)
  refused : ∀ {m l value expiresAt r}, programs m (v.setCommand l value expiresAt) = some r →
    r.output.success = false → held (answered m (v.setCommand l value expiresAt) r) = held m
  asked : ∀ {m l r}, programs m (v.showCommand l) = some r →
    held (answered m (v.showCommand l) r) = held m
  loggedIn : ∀ {m e env r}, programs m (v.loginCommand e env) = some r →
    held (answered m (v.loginCommand e env) r) = held m
  unstarted : ∀ {m c}, held (m.record c false) = held m
  drawn : ∀ (m : Machine) (draws : Draws), held { m with draws } = held m

/-- What no command but one that stores a secret changes. -/
structure Rests (held : Machine → String × String → Option String) (m n : Machine) : Prop where
  held : held n = held m
  directory : n.directory = m.directory
  draws : n.draws = m.draws

variable {v : KeyVault} {programs : Programs} {held : Machine → String × String → Option String}
  {mode : Mode} {e : Expression} {l : SecretLocation} {m n o : Machine} {args : List String}

namespace Rests

theorem refl : Rests held m m := ⟨rfl, rfl, rfl⟩

theorem record (h : Rests held m n) (hstores : v.Stores programs held) (c : Command) :
    Rests held m (n.record c false) :=
  ⟨hstores.unstarted.trans h.held, h.directory, h.draws⟩

theorem answered {c : Command} {r : Reply} (h : Rests held m n)
    (hheld : held (answered n c r) = held n) : Rests held m (answered n c r) :=
  ⟨hheld.trans h.held, h.directory, h.draws⟩

end Rests

theorem runCommand_cases {c : Command} {result : Except VaultError Output}
    (hrun : outcome (runCommand programs c) m = (result, n)) :
    (∃ fault, result = .error fault) ∧ n = m.record c false ∨
      ∃ r, programs m c = some r ∧ n = answered m c r ∧ result = .ok r.output := by
  unfold runCommand at hrun
  rw [outcome_bind_ok _ (Effect.outcome_get m)] at hrun
  dsimp only at hrun
  rcases hcommand : m.run programs c none with ⟨finished, after⟩
  rw [hcommand] at hrun
  rcases run_cases hcommand with ⟨reason, rfl, rfl⟩ | ⟨r, hreply, rfl, hfinished⟩
  · obtain ⟨rfl, rfl⟩ := Prod.mk.inj hrun
    exact Or.inl ⟨⟨_, rfl⟩, rfl⟩
  · obtain rfl | ⟨ms, hlimit, -⟩ := hfinished
    · obtain ⟨rfl, rfl⟩ := Prod.mk.inj hrun
      exact Or.inr ⟨r, hreply, rfl, rfl⟩
    · contradiction

theorem command_bind_cases {α : Type} {c : Command} {f : Output → Effect Machine α}
    {result : Except VaultError α} (hrun : outcome (runCommand programs c >>= f) m = (result, n)) :
    (∃ fault, result = .error fault) ∧ n = m.record c false ∨
      ∃ r, programs m c = some r ∧ outcome (f r.output) (answered m c r) = (result, n) := by
  rcases outcome_bind_cases hrun with ⟨fault, hcommand, rfl⟩ | ⟨output, u, hcommand, hrest⟩
  · obtain ⟨-, rfl⟩ | ⟨r, -, -, hresult⟩ := runCommand_cases hcommand
    · exact Or.inl ⟨⟨fault, rfl⟩, rfl⟩
    · contradiction
  · obtain ⟨⟨fault, hresult⟩, -⟩ | ⟨r, hreply, rfl, hresult⟩ := runCommand_cases hcommand
    · contradiction
    · obtain rfl := Except.ok.inj hresult
      exact Or.inr ⟨r, hreply, hrest⟩

theorem runInSession_cases {c : Command} {loggedIn : Bool}
    {result : Except VaultError (Output × Bool)} (hstores : v.Stores programs held)
    (hrefused : ∀ {u r}, programs u c = some r → r.output.success = false →
      held (answered u c r) = held u)
    (hrun : outcome (v.runInSession programs mode e loggedIn c) m = (result, n)) :
    (∃ fault, result = .error fault) ∧ Rests held m n ∨
      ∃ u r after, Rests held m u ∧ programs u c = some r ∧ n = answered u c r ∧
        result = .ok (r.output, after) := by
  unfold runInSession at hrun
  rcases checked_cases hrun with ⟨hfault, rfl⟩ | ⟨-, hcommand⟩
  · exact Or.inl ⟨hfault, .refl⟩
  obtain ⟨hfault, rfl⟩ | ⟨r, hreply, hrun⟩ := command_bind_cases hcommand
  · exact Or.inl ⟨hfault, Rests.refl.record hstores c⟩
  dsimp only at hrun
  split at hrun
  · obtain ⟨rfl, rfl⟩ := Prod.mk.inj hrun
    exact Or.inr ⟨m, r, loggedIn, .refl, hreply, rfl, rfl⟩
  -- the command was refused for want of a session
  next hclosed =>
  have hfailed : r.output.success = false := by
    simp only [Bool.or_eq_true, not_or, Bool.not_eq_true] at hclosed
    exact hclosed.1.1.1
  have hbefore : Rests held m (answered m c r) := Rests.refl.answered (hrefused hreply hfailed)
  rcases checked_cases hrun with ⟨hfault, rfl⟩ | ⟨-, hcommand⟩
  · exact Or.inl ⟨hfault, hbefore⟩
  rw [outcome_bind_ok _ (Effect.outcome_get _)] at hcommand
  obtain ⟨hfault, rfl⟩ | ⟨login, hlogin, hrun⟩ := command_bind_cases hcommand
  · exact Or.inl ⟨hfault, hbefore.record hstores _⟩
  have hafter := hbefore.answered (hstores.loggedIn hlogin)
  split at hrun
  · obtain ⟨rfl, rfl⟩ := Prod.mk.inj hrun
    exact Or.inl ⟨⟨_, rfl⟩, hafter⟩
  rcases checked_cases hrun with ⟨hfault, rfl⟩ | ⟨-, hcommand⟩
  · exact Or.inl ⟨hfault, hafter⟩
  obtain ⟨hfault, rfl⟩ | ⟨again, hagain, hrun⟩ := command_bind_cases hcommand
  · exact Or.inl ⟨hfault, hafter.record hstores _⟩
  obtain ⟨rfl, rfl⟩ := Prod.mk.inj hrun
  exact Or.inr ⟨_, again, true, hafter, hagain, rfl, rfl⟩

theorem session_bind_cases {α : Type} {c : Command} {loggedIn : Bool}
    {f : Output × Bool → Effect Machine α} {result : Except VaultError α}
    (hstores : v.Stores programs held)
    (hrefused : ∀ {u r}, programs u c = some r → r.output.success = false →
      held (answered u c r) = held u)
    (hrun : outcome (v.runInSession programs mode e loggedIn c >>= f) m = (result, n)) :
    (∃ fault, result = .error fault) ∧ Rests held m n ∨
      ∃ u r after, Rests held m u ∧ programs u c = some r ∧
        outcome (f (r.output, after)) (answered u c r) = (result, n) := by
  rcases outcome_bind_cases hrun with ⟨fault, hsession, rfl⟩ | ⟨output, u, hsession, hrest⟩
  · obtain ⟨-, hrests⟩ | ⟨w, r, after, -, -, -, hresult⟩ :=
      runInSession_cases hstores hrefused hsession
    · exact Or.inl ⟨⟨fault, rfl⟩, hrests⟩
    · contradiction
  · obtain ⟨⟨fault, hresult⟩, -⟩ | ⟨w, r, after, hw, hreply, rfl, hresult⟩ :=
      runInSession_cases hstores hrefused hsession
    · contradiction
    · obtain rfl := Except.ok.inj hresult
      exact Or.inr ⟨w, r, after, hw, hreply, hrest⟩

/-- How a request ends: without a value, with a secret that is held, or with one that was missing
and is held from now on. -/
inductive Ends (v : KeyVault) (held : Machine → String × String → Option String) (m : Machine)
    (args : List String) : Except VaultError String → Machine → Prop
  | failed {n : Machine} (fault : VaultError) (hheld : held n = held m) :
    Ends v held m args (.error fault) n
  | read {n : Machine} {e : Expression} {l : SecretLocation} {value : String}
    (he : Expression.parse v.keyword (v.directory.getD m.directory) v.defaultUri args = .ok e)
    (hl : SecretLocation.ofExpression e = .ok l) (hvalue : held m l.key = some value)
    (hheld : held n = held m) : Ends v held m args (.ok (trim value)) n
  | made {n : Machine} {e : Expression} {l : SecretLocation}
    (he : Expression.parse v.keyword (v.directory.getD m.directory) v.defaultUri args = .ok e)
    (hl : SecretLocation.ofExpression e = .ok l) (hnew : held m l.key = none)
    (hheld : held n =
      Function.update (held m) l.key (some (e.policy.generate m.draws).1)) :
    Ends v held m args (.ok (e.policy.generate m.draws).1) n

theorem trim_line (value : String) : trim (value ++ "\n") = trim value := by
  have hfeed : ∀ c ∈ "\n".toList, isBlank c := by
    intro c hc
    obtain rfl := List.mem_singleton.1 hc
    rfl
  rw [trim, String.toList_append, trimChars_append _ hfeed, trim]

theorem store_cases {value : String} {loggedIn : Bool} {result : Except VaultError String}
    (hstores : v.Stores programs held)
    (hrun : outcome (do
      let (stored, _) ← v.runInSession programs mode e loggedIn (v.setCommand l value e.expiresAt)
      if !stored.success then throw (.unstorable l.name l.vault stored.stderr)
      return value) m = (result, n)) :
    n.directory = m.directory ∧
      ((∃ fault, result = .error fault) ∧ held n = held m ∨
        result = .ok value ∧ held n = Function.update (held m) l.key (some value)) := by
  obtain ⟨hfault, hrests⟩ | ⟨w, r, after, hw, hreply, hlast⟩ :=
    session_bind_cases hstores hstores.refused hrun
  · exact ⟨hrests.directory, Or.inl ⟨hfault, hrests.held⟩⟩
  dsimp only at hlast
  cases hsuccess : r.output.success with
  | true =>
    rw [hsuccess] at hlast
    obtain ⟨rfl, rfl⟩ := Prod.mk.inj hlast
    exact ⟨hw.directory, Or.inr ⟨rfl, hw.held ▸ hstores.stored hreply hsuccess⟩⟩
  | false =>
    rw [hsuccess] at hlast
    obtain ⟨rfl, rfl⟩ := Prod.mk.inj hlast
    exact ⟨hw.directory, Or.inl ⟨⟨_, rfl⟩, (hstores.refused hreply hsuccess).trans hw.held⟩⟩

theorem expand_ends {result : Except VaultError String} (hstores : v.Stores programs held)
    (hrun : outcome (v.expand programs mode args) m = (result, n)) :
    n.directory = m.directory ∧ v.Ends held m args result n := by
  unfold expand at hrun
  rw [outcome_bind_ok _ (Effect.outcome_get m)] at hrun
  dsimp only at hrun
  cases he : Expression.parse v.keyword (v.directory.getD m.directory) v.defaultUri args with
  | error fault =>
    rw [he] at hrun
    obtain ⟨rfl, rfl⟩ := Prod.mk.inj hrun
    exact ⟨rfl, .failed _ rfl⟩
  | ok e =>
    rw [he, outcome_bind_ok _ (Effect.outcome_pure e m)] at hrun
    cases hl : SecretLocation.ofExpression e with
    | error fault =>
      rw [hl] at hrun
      obtain ⟨rfl, rfl⟩ := Prod.mk.inj hrun
      exact ⟨rfl, .failed fault rfl⟩
    | ok l =>
      rw [hl, outcome_bind_ok _ (Effect.outcome_lift (.ok l) m)] at hrun
      have hasked : ∀ {u r}, programs u (v.showCommand l) = some r → r.output.success = false →
          held (answered u (v.showCommand l) r) = held u := fun hreply _ => hstores.asked hreply
      obtain ⟨⟨fault, rfl⟩, hrests⟩ | ⟨w, r, after, hw, hreply, hrest⟩ :=
        session_bind_cases hstores hasked hrun
      · exact ⟨hrests.directory, .failed fault hrests.held⟩
      have hu := hw.answered (hstores.asked hreply)
      dsimp only at hrest
      cases hvalue : held m l.key with
      | some value =>
        obtain ⟨r', hreply', hsuccess, hstdout⟩ := hstores.shown (hw.held ▸ hvalue)
        obtain rfl := Option.some.inj (hreply.symm.trans hreply')
        rw [if_pos hsuccess] at hrest
        obtain ⟨rfl, rfl⟩ := Prod.mk.inj hrest
        rw [hstdout, trim_line]
        exact ⟨hu.directory, .read he hl hvalue hu.held⟩
      | none =>
        obtain ⟨hfailure, -⟩ := hstores.missing (hw.held ▸ hvalue) hreply
        rw [hfailure, if_neg Bool.false_ne_true] at hrest
        split at hrest
        · obtain ⟨rfl, rfl⟩ := Prod.mk.inj hrest
          exact ⟨hu.directory, .failed _ hu.held⟩
        rw [outcome_bind_ok _ (Effect.outcome_get _)] at hrest
        rw [outcome_bind_ok _ (Effect.outcome_modify _ _), hu.draws] at hrest
        have hbefore := (hstores.drawn (answered w (v.showCommand l) r)
          (e.policy.generate m.draws).2).trans hu.held
        obtain ⟨hdirectory, ⟨⟨fault, rfl⟩, hheld⟩ | ⟨rfl, hheld⟩⟩ := store_cases hstores hrest
        · exact ⟨hdirectory.trans hu.directory, .failed fault (hheld.trans hbefore)⟩
        · rw [hbefore] at hheld
          exact ⟨hdirectory.trans hu.directory, .made he hl hvalue hheld⟩

theorem answer_ends {result : Except VaultError String} (hstores : v.Stores programs held)
    (hrun : outcome (v.answer programs mode args) m = (result, n)) :
    n.directory = m.directory ∧ v.Ends held m args result n := by
  cases mode with
  | blocking => exact expand_ends hstores hrun
  | cooperative =>
    rcases checked_cases hrun with ⟨⟨fault, rfl⟩, rfl⟩ | ⟨-, hrest⟩
    · exact ⟨rfl, .failed fault rfl⟩
    · exact expand_ends hstores hrest

theorem Ends.keeps {result : Except VaultError String} {key : String × String} {value : String}
    (h : v.Ends held m args result n) (hvalue : held m key = some value) :
    held n key = some value := by
  cases h with
  | failed _ hheld | read _ _ _ hheld => rw [hheld, hvalue]
  | @made n e l _ _ hnew hheld =>
    have hother : key ≠ l.key := by
      rintro rfl
      rw [hnew] at hvalue
      contradiction
    rw [hheld, Function.update_of_ne hother, hvalue]

/-- A machine some requests later. Whatever else may happen between them neither stores a secret
nor leaves the directory. -/
inductive Later (v : KeyVault) (programs : Programs)
    (held : Machine → String × String → Option String) (m : Machine) : Machine → Prop
  | refl : Later v programs held m m
  | request {n : Machine} (mode : Mode) (args : List String) (h : Later v programs held m n) :
    Later v programs held m (outcome (v.answer programs mode args) n).2
  | meanwhile {n o : Machine} (h : Later v programs held m n)
    (hdirectory : o.directory = n.directory) (hheld : held o = held n) :
    Later v programs held m o

theorem Later.keeps {key : String × String} {value : String} (h : v.Later programs held m n)
    (hstores : v.Stores programs held) (hvalue : held m key = some value) :
    n.directory = m.directory ∧ held n key = some value := by
  induction h with
  | refl => exact ⟨rfl, hvalue⟩
  | request mode args _ ih =>
    obtain ⟨hdirectory, hends⟩ :=
      answer_ends hstores (rfl : outcome (v.answer programs mode args) _ = _)
    exact ⟨hdirectory.trans ih.1, hends.keeps ih.2⟩
  | meanwhile _ hdirectory hheld ih => exact ⟨hdirectory.trans ih.1, by rw [hheld, ih.2]⟩

theorem answer_of_held {value : String} (hstores : v.Stores programs held)
    (he : Expression.parse v.keyword (v.directory.getD m.directory) v.defaultUri args = .ok e)
    (hl : SecretLocation.ofExpression e = .ok l) (hvalue : held m l.key = some value)
    (hgoesOn : ¬(mode = .cooperative ∧ m.aborted))
    (hstarts : m.obstacle? (v.showCommand l) = none) :
    (outcome (v.answer programs mode args) m).1 = .ok (trim value) := by
  obtain ⟨r, hreply, hsuccess, hstdout⟩ := hstores.shown hvalue
  have hrun : m.run programs (v.showCommand l) none =
      (.ok r.output, answered m (v.showCommand l) r) := by
    rw [Machine.run, hstarts, hreply]
    rfl
  have hcommand : outcome (runCommand programs (v.showCommand l)) m =
      (.ok r.output, answered m (v.showCommand l) r) := by
    rw [runCommand, outcome_bind_ok _ (Effect.outcome_get m), hrun]
    rfl
  have hshow : outcome (v.runInSession programs mode e false (v.showCommand l)) m =
      (.ok (r.output, false), answered m (v.showCommand l) r) := by
    rw [runInSession, outcome_bind_ok _ (outcome_checkAborted_ok hgoesOn),
      outcome_bind_ok _ hcommand, hsuccess]
    rfl
  have hexpand : (outcome (v.expand programs mode args) m).1 = .ok (trim value) := by
    rw [expand, outcome_bind_ok _ (Effect.outcome_get m)]
    dsimp only
    rw [he, outcome_bind_ok _ (Effect.outcome_pure e m), hl,
      outcome_bind_ok _ (Effect.outcome_lift (.ok l) m), outcome_bind_ok _ hshow]
    dsimp only
    rw [if_pos hsuccess, hstdout, trim_line]
    rfl
  cases mode with
  | blocking => exact hexpand
  | cooperative => rw [answer, expandAsync, outcome_bind_ok _ (outcome_checkAborted_ok hgoesOn), hexpand]

/-- A secret that a request makes is, for every later request of it, read without the white space
around it, and otherwise as it was returned; it is the same, whatever was drawn, exactly if its
policy admits no white space. -/
theorem made_reads_trimmed {value : String} (hstores : v.Stores programs held)
    (he : Expression.parse v.keyword (v.directory.getD m.directory) v.defaultUri args = .ok e)
    (hl : SecretLocation.ofExpression e = .ok l) (hnew : held m l.key = none)
    (hmade : outcome (v.answer programs mode args) m = (.ok value, n)) :
    (∀ o, v.Later programs held n o → ∀ mode', ¬(mode' = .cooperative ∧ o.aborted) →
        o.obstacle? (v.showCommand l) = none →
          (outcome (v.answer programs mode' args) o).1 = .ok (trim value)) ∧
      value = (e.policy.generate m.draws).1 ∧
      ((∀ draws, trim (e.policy.generate draws).1 = (e.policy.generate draws).1) ↔
        ∀ c ∈ e.policy.generator.pool, isBlank c = false) := by
  obtain ⟨hdirectory, hends⟩ := answer_ends hstores hmade
  have hheld : value = (e.policy.generate m.draws).1 ∧ held n l.key = some value := by
    cases hends with
    | read he' hl' hvalue =>
      obtain rfl := Except.ok.inj (he.symm.trans he')
      obtain rfl := Except.ok.inj (hl.symm.trans hl')
      rw [hnew] at hvalue
      contradiction
    | made he' hl' _ hheld =>
      obtain rfl := Except.ok.inj (he.symm.trans he')
      obtain rfl := Except.ok.inj (hl.symm.trans hl')
      exact ⟨rfl, by rw [hheld, Function.update_self]⟩
  refine ⟨fun o hlater mode' hgoesOn hstarts => ?_, hheld.1, e.policy.trim_generate_iff⟩
  obtain ⟨hstays, hvalue⟩ := hlater.keeps hstores hheld.2
  rw [← hdirectory, ← hstays] at he
  exact answer_of_held hstores he hl hvalue hgoesOn hstarts

def storedBy? (key : String × String) (c : Command) : Option String :=
  match c.args with
  | "keyvault" :: "secret" :: "set" :: "--vault-name" :: vault :: "--name" :: name :: value :: _ =>
    if key = (vault, name) then some (String.ofList (value.toList.drop "--value=".length)) else none
  | _ => none

def shelved (m : Machine) (key : String × String) : Option String :=
  m.calls.reverse.findSome? fun call => if call.started then storedBy? key call.command else none

def absent : Output := { code := some 3, stderr := "SecretNotFound" }

def shelf : Programs := fun m c =>
  match c.args with
  | "keyvault" :: "secret" :: "show" :: "--vault-name" :: vault :: "--name" :: name :: _ =>
    match shelved m (vault, name) with
    | some value => some { output := { stdout := value ++ "\n" }, disk := m.disk }
    | none => some { output := absent, disk := m.disk }
  | _ => some { output := {}, disk := m.disk }

theorem shelved_record (m : Machine) (c : Command) (started : Bool) (key : String × String) :
    shelved (m.record c started) key =
      ((if started then storedBy? key c else none).orElse fun _ => shelved m key) := by
  unfold shelved Machine.record
  rw [List.reverse_append, List.reverse_singleton, List.singleton_append, List.findSome?_cons]
  cases (if started then storedBy? key c else none) <;> simp

theorem storedBy?_setCommand (v : KeyVault) (l : SecretLocation) (value : String)
    (expiresAt : Option Calendar.Instant) (key : String × String) :
    storedBy? key (v.setCommand l value expiresAt) = if key = l.key then some value else none := by
  have hdrop : ("--value=" ++ value).toList.drop "--value=".length = value.toList := by
    rw [String.toList_append]
    exact List.drop_left' rfl
  simp only [storedBy?, setCommand, command, SecretLocation.key, List.cons_append, hdrop,
    String.ofList_toList]
  rfl

theorem shelved_answered {c : Command} (h : ∀ key, storedBy? key c = none) (m : Machine)
    (r : Reply) : shelved (answered m c r) = shelved m := by
  funext key
  refine (shelved_record m c true key).trans ?_
  simp [h]

theorem shelf_showCommand (v : KeyVault) (m : Machine) (l : SecretLocation) :
    shelf m (v.showCommand l) =
      match shelved m l.key with
      | some value => some { output := { stdout := value ++ "\n" }, disk := m.disk }
      | none => some { output := absent, disk := m.disk } := rfl

theorem stores_shelf (v : KeyVault) : v.Stores shelf shelved where
  shown hvalue := ⟨_, by rw [shelf_showCommand, hvalue], rfl, rfl⟩
  missing := by
    intro m l r hnone hreply
    rw [shelf_showCommand, hnone] at hreply
    obtain rfl := Option.some.inj hreply
    have habsent : isNotFound absent := by decide +kernel
    exact ⟨rfl, habsent⟩
  stored := by
    intro m l value expiresAt r _ _
    funext key
    refine (shelved_record m _ true key).trans ?_
    rw [if_pos rfl, storedBy?_setCommand]
    by_cases hkey : key = l.key
    · simp [hkey]
    · simp [hkey]
  refused := by
    intro m l value expiresAt r hreply hfailure
    obtain rfl := Option.some.inj hreply
    contradiction
  asked _ := shelved_answered (fun key => by simp [storedBy?, showCommand, command]) _ _
  loggedIn _ := shelved_answered (fun key => by simp [storedBy?, loginCommand, command]) _ _
  unstarted := funext fun key => shelved_record _ _ false key
  drawn _ _ := rfl

theorem made_reads_trimmed_letters :
    let v : KeyVault := { tenantId := some "mine" }
    let args := ["secret", "akv://kv/token", "--create", "--chars", "abc", "--size", "4"]
    let made := outcome (v.answer shelf .blocking args) {}
    let other := outcome (v.answer shelf .blocking ["secret", "akv://kv/other", "--create"]) made.2
    made.1 = .ok "abca" ∧ other.1.toOption.isSome ∧
      (outcome (v.answer shelf .cooperative args) other.2).1 = .ok "abca" := by
  intro v args made other
  have hplace : ((Expression.parse v.keyword (v.directory.getD ({} : Machine).directory) v.defaultUri
      args).toOption.bind fun e => (SecretLocation.ofExpression e).toOption) =
        some { vault := "kv", name := "token" } := by decide +kernel
  obtain ⟨e, he, hl⟩ := Option.bind_eq_some_iff.1 hplace
  have hmade : made.1.toOption = some "abca" := by decide +kernel
  obtain ⟨hreads, -, -⟩ := made_reads_trimmed (stores_shelf v) (Effect.eq_ok_of_toOption he)
    (Effect.eq_ok_of_toOption hl) rfl
    (Prod.ext (Effect.eq_ok_of_toOption hmade) rfl : made = (.ok "abca", made.2))
  refine ⟨Effect.eq_ok_of_toOption hmade, by decide +kernel, ?_⟩
  exact hreads other.2 (.request .blocking _ .refl) .cooperative (by decide +kernel) (by decide +kernel)

/-- A blank of the pool in front of a value is there when the secret is made, and is gone when it
is read. -/
theorem made_blank_lost :
    let v : KeyVault := {}
    let args := ["secret", "akv://kv/token", "--create", "--chars", " ab", "--size", "4"]
    let made := outcome (v.answer shelf .blocking args) {}
    v.Stores shelf shelved ∧ shelved {} ("kv", "token") = none ∧ made.1 = .ok " ab " ∧
      (outcome (v.answer shelf .blocking args) made.2).1 = .ok "ab" := by
  intro v args made
  exact ⟨stores_shelf v, rfl, Effect.eq_ok_of_toOption (by decide +kernel),
    Effect.eq_ok_of_toOption (by decide +kernel)⟩

end KeyVault

end SecretDotenv.Secret
