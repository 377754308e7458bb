import Mathlib.Data.List.Chain
import SecretDotenv.Proofs.Machine.Transcript
import SecretDotenv.Proofs.Secret.Outcome
import SecretDotenv.Secret.KeyVault

/-! The commands of one request to a cloud vault, however they end. A secret is shown and,
if the vault says that there is none, stored; one of the two may meet a closed session and
is tried again behind a login, of which there is no second. -/
namespace SecretDotenv.Secret.KeyVault

open SecretDotenv.Text SecretDotenv.Machine
open Effect (outcome outcome_bind_ok outcome_bind_cases checked_cases)

inductive Purpose where
  | shows
  | logsIn
  | stores
deriving DecidableEq

def purpose? (h : Heard) : Option Purpose :=
  match h.call.command.args with
  | "keyvault" :: "secret" :: "show" :: _ => some .shows
  | "keyvault" :: "secret" :: "set" :: _ => some .stores
  | "login" :: _ => some .logsIn
  | _ => none

def Names (h : Heard) (name : String) : Prop :=
  h.call.command.args[5]? = some "--name" ∧ h.call.command.args[6]? = some name

def Carries (h : Heard) (value : String) : Prop :=
  h.call.command.args[7]? = some ("--value=" ++ value)

def IsVaultName (name : String) : Prop :=
  name ≠ "" ∧ ∀ c ∈ name.toList, c.isAlphanum ∨ c = '-'

variable {v : KeyVault} {replies : Nat → Option Reply} {mode : Mode} {e : Expression}
  {l : SecretLocation} {m n : Machine} {h : Heard}

theorem isVaultName_of_location (hl : SecretLocation.ofExpression e = .ok l) :
    IsVaultName l.name := by
  have hname : ∀ raw, ¬(vaultName raw).isEmpty → IsVaultName (vaultName raw) := by
    intro raw hsome
    refine ⟨by simpa using hsome, ?_⟩
    intro c hc
    simp only [vaultName, String.toList_ofList, List.mem_map] at hc
    obtain ⟨x, -, rfl⟩ := hc
    split <;> simp_all
  unfold SecretLocation.ofExpression at hl
  cases hvault : SecretLocation.vaultOf e.uri with
  | error fault =>
    rw [hvault] at hl
    cases hl
  | ok found =>
    rw [hvault] at hl
    obtain ⟨version, raw, hnamed⟩ : ∃ version raw,
        (if (vaultName raw).isEmpty then (.error .noSecretName : Except VaultError SecretLocation)
          else .ok { vault := found.1, name := vaultName raw, version }) = .ok l := by
      dsimp only [bind, Except.bind] at hl
      split at hl <;> exact ⟨_, _, hl⟩
    split at hnamed
    · cases hnamed
    · next hsome =>
      rw [← Except.ok.inj hnamed]
      exact hname raw hsome

theorem purpose?_show (hcommand : h.call.command = v.showCommand l) : purpose? h = some .shows := by
  simp [purpose?, hcommand, showCommand, command]

theorem purpose?_set {value : String} {expiresAt : Option Calendar.Instant}
    (hcommand : h.call.command = v.setCommand l value expiresAt) : purpose? h = some .stores := by
  simp [purpose?, hcommand, setCommand, command]

theorem purpose?_login {env : Environment} (hcommand : h.call.command = v.loginCommand e env) :
    purpose? h = some .logsIn := by
  simp [purpose?, hcommand, loginCommand, command]

theorem names_show (hcommand : h.call.command = v.showCommand l) : Names h l.name := by
  simp [Names, hcommand, showCommand, command]

theorem names_set {value : String} {expiresAt : Option Calendar.Instant}
    (hcommand : h.call.command = v.setCommand l value expiresAt) : Names h l.name := by
  simp [Names, hcommand, setCommand, command]

theorem carries_set {value : String} {expiresAt : Option Calendar.Instant}
    (hcommand : h.call.command = v.setCommand l value expiresAt) : Carries h value := by
  simp [Carries, hcommand, setCommand, command]

theorem runCommand_heard {c : Command} {result : Except VaultError Output}
    (hrun : outcome (runCommand (.inTurn replies) c) m = (result, n)) :
    ∃ h : Heard, Hears replies m [h] n ∧ h.call.command = c ∧
      ((∃ fault, result = .error fault) ∨ ∃ output, result = .ok output ∧ h.output = some output) := by
  unfold runCommand at hrun
  rw [outcome_bind_ok _ (Effect.outcome_get m)] at hrun
  dsimp only at hrun
  rcases hcommand : m.run (.inTurn replies) c none with ⟨finished, after⟩
  rw [hcommand] at hrun
  obtain ⟨h, hheard, hc, -, -, hfinished⟩ := hears_run hcommand
  rcases hfinished with ⟨⟨error, rfl⟩, -⟩ | ⟨output, rfl, houtput⟩
  · obtain ⟨rfl, rfl⟩ := Prod.mk.inj hrun
    exact ⟨h, hheard, hc, Or.inl ⟨_, rfl⟩⟩
  · obtain ⟨rfl, rfl⟩ := Prod.mk.inj hrun
    exact ⟨h, hheard, hc, Or.inr ⟨output, rfl, houtput⟩⟩

/-- A login behind a command that met a closed session, if there was no login yet. -/
structure LogsIn (v : KeyVault) (e : Expression) (c : Command) (loggedIn : Bool)
    (before login : Heard) : Prop where
  command : before.call.command = c
  reports : before.Reports needsLogin
  autoLogin : v.autoLogin
  first : loggedIn = false
  login : ∃ env, login.call.command = v.loginCommand e env

/-- The ways in which a command is run in a session. -/
inductive Attempt (v : KeyVault) (e : Expression) (c : Command) (loggedIn : Bool) :
    List Heard → Except VaultError (Output × Bool) → Prop
  | stopped (fault : VaultError) : Attempt v e c loggedIn [] (.error fault)
  | failed {h : Heard} (fault : VaultError) (hc : h.call.command = c) :
    Attempt v e c loggedIn [h] (.error fault)
  | done {h : Heard} {output : Output} (hc : h.call.command = c) (houtput : h.output = some output) :
    Attempt v e c loggedIn [h] (.ok (output, loggedIn))
  | keptOut {before login : Heard} (fault : VaultError)
    (hlogin : v.LogsIn e c loggedIn before login) :
    Attempt v e c loggedIn [before, login] (.error fault)
  | failedAgain {before login h : Heard} (fault : VaultError)
    (hlogin : v.LogsIn e c loggedIn before login) (hc : h.call.command = c) :
    Attempt v e c loggedIn [before, login, h] (.error fault)
  | doneAgain {before login h : Heard} {output : Output}
    (hlogin : v.LogsIn e c loggedIn before login) (hc : h.call.command = c)
    (houtput : h.output = some output) :
    Attempt v e c loggedIn [before, login, h] (.ok (output, true))

theorem runInSession_attempt {c : Command} {loggedIn : Bool}
    {result : Except VaultError (Output × Bool)}
    (hrun : outcome (v.runInSession (.inTurn replies) mode e loggedIn c) m = (result, n)) :
    ∃ heard, Hears replies m heard n ∧ v.Attempt e c loggedIn heard result := by
  unfold runInSession at hrun
  rcases checked_cases hrun with ⟨⟨fault, rfl⟩, rfl⟩ | ⟨-, hrun₁⟩
  · exact ⟨[], .quiet rfl, .stopped fault⟩
  rcases outcome_bind_cases hrun₁ with ⟨fault, hfirst, rfl⟩ | ⟨output, m₁, hfirst, hrun₂⟩
  · obtain ⟨h, hheard, hc, -⟩ := runCommand_heard hfirst
    exact ⟨[h], hheard, .failed fault hc⟩
  obtain ⟨before, hbefore, hc, ⟨_, hresult⟩ | ⟨_, hresult, houtput⟩⟩ := runCommand_heard hfirst
  · contradiction
  obtain rfl := Except.ok.inj hresult
  dsimp only at hrun₂
  split at hrun₂
  · obtain ⟨rfl, rfl⟩ := Prod.mk.inj hrun₂
    exact ⟨[before], hbefore, .done hc houtput⟩
  next hclosed =>
  have hlogin : ∀ {login : Heard} {env}, login.call.command = v.loginCommand e env →
      v.LogsIn e c loggedIn before login := by
    intro login env hcommand
    simp only [Bool.or_eq_true, Bool.not_eq_true', not_or, Bool.not_eq_true,
      Bool.not_eq_false] at hclosed
    obtain ⟨⟨⟨hfailed, hauto⟩, hloggedIn⟩, hneeds⟩ := hclosed
    exact ⟨hc, ⟨output, houtput, by simp [hfailed], hneeds⟩, hauto, hloggedIn, env, hcommand⟩
  rcases checked_cases hrun₂ with ⟨⟨fault, rfl⟩, rfl⟩ | ⟨-, hrun₃⟩
  · exact ⟨[before], hbefore, .failed fault hc⟩
  rw [outcome_bind_ok _ (Effect.outcome_get m₁)] at hrun₃
  rcases outcome_bind_cases hrun₃ with ⟨fault, hsecond, rfl⟩ | ⟨entry, m₂, hsecond, hrun₄⟩
  · obtain ⟨login, hheard, hcommand, -⟩ := runCommand_heard hsecond
    exact ⟨_, hbefore.append hheard, .keptOut fault (hlogin hcommand)⟩
  obtain ⟨login, hheard, hcommand, -⟩ := runCommand_heard hsecond
  have hboth := hbefore.append hheard
  split at hrun₄
  · obtain ⟨rfl, rfl⟩ := Prod.mk.inj hrun₄
    exact ⟨_, hboth, .keptOut _ (hlogin hcommand)⟩
  rcases checked_cases hrun₄ with ⟨⟨fault, rfl⟩, rfl⟩ | ⟨-, hrun₅⟩
  · exact ⟨_, hboth, .keptOut fault (hlogin hcommand)⟩
  rcases outcome_bind_cases hrun₅ with ⟨fault, hthird, rfl⟩ | ⟨last, m₃, hthird, hrun₆⟩
  · obtain ⟨h, hheard, hc, -⟩ := runCommand_heard hthird
    exact ⟨_, hboth.append hheard, .failedAgain fault (hlogin hcommand) hc⟩
  obtain ⟨h, hheard, hc, ⟨_, hresult⟩ | ⟨_, hresult, houtput⟩⟩ := runCommand_heard hthird
  · contradiction
  obtain rfl := Except.ok.inj hresult
  obtain ⟨rfl, rfl⟩ := Prod.mk.inj hrun₆
  exact ⟨_, hboth.append hheard, .doneAgain (hlogin hcommand) hc houtput⟩

namespace Attempt

variable {c : Command} {loggedIn : Bool} {heard : List Heard}
  {result : Except VaultError (Output × Bool)}

theorem command (h : v.Attempt e c loggedIn heard result) :
    ∀ x ∈ heard, x.call.command = c ∨ ∃ env, x.call.command = v.loginCommand e env := by
  cases h with
  | stopped => simp
  | failed _ hc | done hc => simp [hc]
  | keptOut _ hlogin => simp [hlogin.command, hlogin.login]
  | failedAgain _ hlogin hc | doneAgain hlogin hc => simp [hlogin.command, hlogin.login, hc]

theorem last {output : Output} {after : Bool}
    (h : v.Attempt e c loggedIn heard (.ok (output, after))) :
    ∃ front last, heard = front ++ [last] ∧ last.call.command = c ∧ last.output = some output := by
  cases h with
  | @done x _ hc houtput => exact ⟨[], x, rfl, hc, houtput⟩
  | @doneAgain before login x _ _ hc houtput => exact ⟨[before, login], x, rfl, hc, houtput⟩

theorem head (h : v.Attempt e c loggedIn heard result) :
    ∀ x ∈ heard.head?, x.call.command = c := by
  cases h with
  | stopped => simp
  | failed _ hc | done hc => simp [hc]
  | keptOut _ hlogin | failedAgain _ hlogin | doneAgain hlogin => simp [hlogin.command]

variable {p : Purpose}

theorem purposes (h : v.Attempt e c loggedIn heard result)
    (hc : ∀ x : Heard, x.call.command = c → purpose? x = some p) :
    heard.map purpose? ∈ [[], [some p]] ∨ loggedIn = false ∧
      heard.map purpose? ∈ [[some p, some .logsIn], [some p, some .logsIn, some p]] := by
  have hentry : ∀ {x login}, v.LogsIn e c loggedIn x login →
      purpose? x = some p ∧ purpose? login = some .logsIn := by
    intro x login hlogin
    obtain ⟨env, hcommand⟩ := hlogin.login
    exact ⟨hc x hlogin.command, purpose?_login hcommand⟩
  cases h with
  | stopped => simp
  | failed _ hx | done hx => simp [hc _ hx]
  | keptOut _ hlogin => simp [hentry hlogin, hlogin.first]
  | failedAgain _ hlogin hx | doneAgain hlogin hx => simp [hentry hlogin, hlogin.first, hc _ hx]

theorem purposes_ok {output : Output} {after : Bool}
    (h : v.Attempt e c loggedIn heard (.ok (output, after)))
    (hc : ∀ x : Heard, x.call.command = c → purpose? x = some p) :
    heard.map purpose? = [some p] ∧ after = loggedIn ∨
      heard.map purpose? = [some p, some .logsIn, some p] ∧ after = true := by
  cases h with
  | done hx => simp [hc _ hx]
  | doneAgain hlogin hx =>
    obtain ⟨env, hcommand⟩ := hlogin.login
    simp [hc _ hlogin.command, purpose?_login hcommand, hc _ hx]

theorem isChain (h : v.Attempt e c loggedIn heard result)
    (hc : ∀ x : Heard, x.call.command = c → purpose? x ≠ some .logsIn) :
    heard.IsChain fun before login =>
      purpose? login = some .logsIn → v.autoLogin ∧ before.Reports needsLogin := by
  cases h with
  | stopped | failed | done => simp
  | keptOut _ hlogin => simp [hlogin.autoLogin, hlogin.reports]
  | failedAgain _ hlogin hx | doneAgain hlogin hx =>
    simp [hlogin.autoLogin, hlogin.reports, hc _ hx]

end Attempt

/-- A request ends before its first command, with the secret that is shown or without one, or
behind an attempt to store a new one. -/
inductive Dealt (v : KeyVault) (directory : Path) (args : List String) :
    List Heard → Except VaultError String → Prop
  | refused (fault : VaultError) : Dealt v directory args [] (.error fault)
  | unseen {e : Expression} {l : SecretLocation} {asked : List Heard} {shown}
    (fault : VaultError) (he : Expression.parse v.keyword directory v.defaultUri args = .ok e)
    (hl : SecretLocation.ofExpression e = .ok l)
    (hasked : v.Attempt e (v.showCommand l) false asked shown) :
    Dealt v directory args asked (.error fault)
  | seen {e : Expression} {l : SecretLocation} {asked : List Heard} {output : Output} {after : Bool}
    (he : Expression.parse v.keyword directory v.defaultUri args = .ok e)
    (hl : SecretLocation.ofExpression e = .ok l)
    (hasked : v.Attempt e (v.showCommand l) false asked (.ok (output, after)))
    (hsuccess : output.success) :
    Dealt v directory args asked (.ok (trim output.stdout))
  | tried {e : Expression} {l : SecretLocation} {asked stored : List Heard} {output : Output}
    {after : Bool} {value : String} {kept} {result : Except VaultError String}
    (he : Expression.parse v.keyword directory v.defaultUri args = .ok e)
    (hl : SecretLocation.ofExpression e = .ok l)
    (hasked : v.Attempt e (v.showCommand l) false asked (.ok (output, after)))
    (hfailure : ¬output.success) (hmissing : isNotFound output) (hcreate : e.create)
    (hstored : v.Attempt e (v.setCommand l value e.expiresAt) after stored kept)
    (hresult : (∃ fault, result = .error fault) ∨
      result = .ok value ∧ ∃ last logged, kept = .ok (last, logged) ∧ last.success) :
    Dealt v directory args (asked ++ stored) result

theorem expand_dealt {args : List String} {result : Except VaultError String}
    (hrun : outcome (v.expand (.inTurn replies) mode args) m = (result, n)) :
    ∃ heard, Hears replies m heard n ∧ v.Dealt (v.directory.getD m.directory) args heard result := by
  unfold expand at hrun
  rw [outcome_bind_ok _ (Effect.outcome_get m)] at hrun
  dsimp only at hrun
  cases he : Expression.parse v.keyword (v.directory.getD m.directory) v.defaultUri args with
  | error fault =>
    rw [he] at hrun
    obtain ⟨rfl, rfl⟩ := Prod.mk.inj hrun
    exact ⟨[], .quiet rfl, .refused _⟩
  | ok e =>
    rw [he, outcome_bind_ok _ (Effect.outcome_pure e m)] at hrun
    cases hl : SecretLocation.ofExpression e with
    | error fault =>
      rw [hl] at hrun
      obtain ⟨rfl, rfl⟩ := Prod.mk.inj hrun
      exact ⟨[], .quiet rfl, .refused fault⟩
    | ok l =>
      rw [hl, outcome_bind_ok _ (Effect.outcome_lift (.ok l) m)] at hrun
      rcases outcome_bind_cases hrun with ⟨fault, hshow, rfl⟩ | ⟨⟨output, after⟩, u, hshow, hrest⟩
      · obtain ⟨asked, hheard, hasked⟩ := runInSession_attempt hshow
        exact ⟨asked, hheard, .unseen fault he hl hasked⟩
      obtain ⟨asked, hheard, hasked⟩ := runInSession_attempt hshow
      dsimp only at hrest
      split at hrest
      · next hsuccess =>
        obtain ⟨rfl, rfl⟩ := Prod.mk.inj hrest
        exact ⟨asked, hheard, .seen he hl hasked hsuccess⟩
      next hfailure =>
      split at hrest
      · obtain ⟨rfl, rfl⟩ := Prod.mk.inj hrest
        exact ⟨asked, hheard, .unseen _ he hl hasked⟩
      next hmissing =>
      have hwanted : isNotFound output = true ∧ e.create = true := by simpa using hmissing
      rw [outcome_bind_ok _ (Effect.outcome_get u)] at hrest
      rw [outcome_bind_ok _ (Effect.outcome_modify _ u)] at hrest
      have hquiet : Hears replies m asked
          { u with draws := (e.policy.generate u.draws).2 } := by
        simpa using hheard.append (o := { u with draws := (e.policy.generate u.draws).2 }) (.quiet rfl)
      rcases outcome_bind_cases hrest with ⟨fault, hset, rfl⟩ | ⟨⟨last, logged⟩, w, hset, hlast⟩
      · obtain ⟨stored, hmore, hstored⟩ := runInSession_attempt hset
        exact ⟨_, hquiet.append hmore, .tried he hl hasked hfailure hwanted.1 hwanted.2 hstored
          (Or.inl ⟨fault, rfl⟩)⟩
      obtain ⟨stored, hmore, hstored⟩ := runInSession_attempt hset
      have hdealt : ∀ {result}, _ → v.Dealt _ args (asked ++ stored) result :=
        .tried he hl hasked hfailure hwanted.1 hwanted.2 hstored
      split at hlast
      · obtain ⟨rfl, rfl⟩ := Prod.mk.inj hlast
        exact ⟨_, hquiet.append hmore, hdealt (Or.inl ⟨_, rfl⟩)⟩
      · next hkept =>
        obtain ⟨rfl, rfl⟩ := Prod.mk.inj hlast
        exact ⟨_, hquiet.append hmore, hdealt (Or.inr ⟨rfl, last, logged, rfl, by simpa using hkept⟩)⟩

def shapes : List (List Purpose) := [
  [], [.shows], [.shows, .logsIn], [.shows, .logsIn, .shows], [.shows, .stores],
  [.shows, .logsIn, .shows, .stores], [.shows, .stores, .logsIn], [.shows, .stores, .logsIn, .stores]]

/-- What can be said of the commands of a request and of the answer to it. -/
structure Disciplined (v : KeyVault) (directory : Path) (args : List String) (heard : List Heard)
    (result : Except VaultError String) : Prop where
  shape : ∃ purposes ∈ shapes, heard.map purpose? = purposes.map some
  login : heard.IsChain fun before login =>
    purpose? login = some .logsIn → v.autoLogin ∧ before.Reports needsLogin
  store : ∀ h ∈ heard, purpose? h = some .stores →
    (∃ e, Expression.parse v.keyword directory v.defaultUri args = .ok e ∧ e.create) ∧
      ∃ front last back, heard = front ++ last :: back ∧ purpose? last = some .shows ∧
        (∀ x ∈ back, purpose? x ≠ some .shows) ∧ last.Reports isNotFound
  carried : ∃ value, ∀ h ∈ heard, purpose? h = some .stores → Carries h value
  named : ∀ h ∈ heard, purpose? h ≠ some .logsIn → ∃ name, Names h name ∧ IsVaultName name
  answer : ∀ value, result = .ok value → ∃ front last output, heard = front ++ [last] ∧
    last.Succeeds output ∧ (purpose? last = some .shows ∧ value = trim output.stdout ∨
      purpose? last = some .stores ∧ Carries last value)

namespace Dealt

variable {directory : Path} {args : List String} {heard : List Heard}
  {result : Except VaultError String}

theorem command (h : v.Dealt directory args heard result) :
    ∃ l value expiresAt, ∀ x ∈ heard, IsVaultName l.name ∧
      (x.call.command = v.showCommand l ∨ x.call.command = v.setCommand l value expiresAt ∨
        ∃ e env, x.call.command = v.loginCommand e env) := by
  cases h with
  | refused => exact ⟨⟨"", "", none⟩, "", none, by simp⟩
  | unseen _ he hl hasked | seen he hl hasked =>
    refine ⟨_, "", none, fun x hx => ⟨isVaultName_of_location hl, ?_⟩⟩
    exact (hasked.command x hx).imp_right fun hlogin => Or.inr ⟨_, hlogin⟩
  | @tried e l _ _ _ _ value _ _ he hl hasked _ _ _ hstored =>
    refine ⟨l, value, e.expiresAt, fun x hx => ⟨isVaultName_of_location hl, ?_⟩⟩
    rcases List.mem_append.1 hx with hx | hx
    · exact (hasked.command x hx).imp_right fun hlogin => Or.inr ⟨_, hlogin⟩
    · exact Or.inr ((hstored.command x hx).imp_right fun hlogin => ⟨_, hlogin⟩)

theorem shape (h : v.Dealt directory args heard result) :
    ∃ purposes ∈ shapes, heard.map purpose? = purposes.map some := by
  cases h with
  | refused => exact ⟨[], by decide, rfl⟩
  | unseen _ he hl hasked | seen he hl hasked =>
    have hshows := hasked.purposes fun _ => purpose?_show
    simp only [List.mem_cons, List.not_mem_nil, or_false, true_and] at hshows
    rcases hshows with (hshows | hshows) | hshows | hshows <;> rw [hshows] <;> decide
  | tried he hl hasked _ _ _ hstored =>
    have hstores := hstored.purposes fun _ => purpose?_set
    simp only [List.mem_cons, List.not_mem_nil, or_false] at hstores
    rw [List.map_append]
    rcases hasked.purposes_ok fun _ => purpose?_show with ⟨hshows, rfl⟩ | ⟨hshows, rfl⟩
    · rcases hstores with (hstores | hstores) | ⟨-, hstores | hstores⟩ <;>
        rw [hshows, hstores] <;> decide
    · -- behind a first login there is no second
      rcases hstores with (hstores | hstores) | ⟨hsecond, -⟩
      · rw [hshows, hstores]
        decide
      · rw [hshows, hstores]
        decide
      · contradiction

theorem isChain (h : v.Dealt directory args heard result) :
    heard.IsChain fun before login =>
      purpose? login = some .logsIn → v.autoLogin ∧ before.Reports needsLogin := by
  have hshow : ∀ {l} (x : Heard), x.call.command = v.showCommand l → purpose? x ≠ some .logsIn := by
    intro l x hx
    simp [purpose?_show hx]
  have hset : ∀ {l value expiresAt} (x : Heard),
      x.call.command = v.setCommand l value expiresAt → purpose? x ≠ some .logsIn := by
    intro l value expiresAt x hx
    simp [purpose?_set hx]
  cases h with
  | refused => exact .nil
  | unseen _ he hl hasked | seen he hl hasked => exact hasked.isChain hshow
  | tried he hl hasked _ _ _ hstored =>
    refine List.isChain_append.2 ⟨hasked.isChain hshow, hstored.isChain hset, ?_⟩
    intro _ _ first hfirst hlogin
    exact absurd hlogin (hset first (hstored.head first hfirst))

theorem not_stores {loggedIn : Bool} {asked : List Heard} {shown}
    (hasked : v.Attempt e (v.showCommand l) loggedIn asked shown) :
    ∀ x ∈ asked, purpose? x ≠ some .stores := by
  intro x hx
  rcases hasked.command x hx with hshow | ⟨env, hlogin⟩
  · simp [purpose?_show hshow]
  · simp [purpose?_login hlogin]

theorem store (h : v.Dealt directory args heard result) :
    ∀ x ∈ heard, purpose? x = some .stores →
      (∃ e, Expression.parse v.keyword directory v.defaultUri args = .ok e ∧ e.create) ∧
        ∃ front last back, heard = front ++ last :: back ∧ purpose? last = some .shows ∧
          (∀ x ∈ back, purpose? x ≠ some .shows) ∧ last.Reports isNotFound := by
  intro x hx hstores
  cases h with
  | refused => simp at hx
  | unseen _ he hl hasked | seen he hl hasked => exact absurd hstores (not_stores hasked x hx)
  | tried he hl hasked hfailure hmissing hcreate hstored =>
    obtain ⟨front, last, rfl, hlast, houtput⟩ := hasked.last
    refine ⟨⟨_, he, hcreate⟩, front, last, _, List.append_assoc .., purpose?_show hlast, ?_,
      ⟨_, houtput, hfailure, hmissing⟩⟩
    intro y hy
    rcases hstored.command y hy with hset | ⟨env, hlogin⟩
    · simp [purpose?_set hset]
    · simp [purpose?_login hlogin]

theorem last (h : v.Dealt directory args heard result) :
    ∀ value, result = .ok value → ∃ front last output, heard = front ++ [last] ∧
      last.Succeeds output ∧ (purpose? last = some .shows ∧ value = trim output.stdout ∨
        purpose? last = some .stores ∧ Carries last value) := by
  intro value hvalue
  cases h with
  | refused | unseen => contradiction
  | seen he hl hasked hsuccess =>
    obtain ⟨front, last, rfl, hlast, houtput⟩ := hasked.last
    obtain rfl := Except.ok.inj hvalue
    exact ⟨front, last, _, rfl, ⟨houtput, hsuccess⟩, Or.inl ⟨purpose?_show hlast, rfl⟩⟩
  | tried he hl hasked _ _ _ hstored hresult =>
    rcases hresult with ⟨fault, rfl⟩ | ⟨rfl, output, logged, rfl, hsuccess⟩
    · contradiction
    obtain ⟨front, last, rfl, hlast, houtput⟩ := hstored.last
    obtain rfl := Except.ok.inj hvalue
    exact ⟨_, last, output, (List.append_assoc ..).symm, ⟨houtput, hsuccess⟩,
      Or.inr ⟨purpose?_set hlast, carries_set hlast⟩⟩

theorem disciplined (h : v.Dealt directory args heard result) :
    v.Disciplined directory args heard result := by
  obtain ⟨l, value, expiresAt, hcommand⟩ := h.command
  refine ⟨h.shape, h.isChain, h.store, ⟨value, ?_⟩, ?_, h.last⟩
  · intro x hx hstores
    obtain ⟨-, hshow | hset | ⟨e, env, hlogin⟩⟩ := hcommand x hx
    · simp [purpose?_show hshow] at hstores
    · exact carries_set hset
    · simp [purpose?_login hlogin] at hstores
  · intro x hx hother
    obtain ⟨hname, hshow | hset | ⟨e, env, hlogin⟩⟩ := hcommand x hx
    · exact ⟨l.name, names_show hshow, hname⟩
    · exact ⟨l.name, names_set hset, hname⟩
    · exact absurd (purpose?_login hlogin) hother

end Dealt

def answer (v : KeyVault) (programs : Programs) : Mode → List String → Effect Machine String
  | .blocking, args => v.expand programs .blocking args
  | .cooperative, args => v.expandAsync programs args

/-- The commands of a request are disciplined, whatever the replies to them are. -/
theorem answer_disciplined (v : KeyVault) (replies : Nat → Option Reply) (mode : Mode)
    (args : List String) (m : Machine) :
    ∃ heard,
      Hears replies m heard (outcome (v.answer (.inTurn replies) mode args) m).2 ∧
        v.Disciplined (v.directory.getD m.directory) args heard
          (outcome (v.answer (.inTurn replies) mode args) m).1 := by
  have hexpand : ∀ {mode n result},
      outcome (v.expand (.inTurn replies) mode args) m = (result, n) →
        ∃ heard, Hears replies m heard n ∧
          v.Disciplined (v.directory.getD m.directory) args heard result := by
    intro mode n result hrun
    obtain ⟨heard, hheard, hdealt⟩ := expand_dealt hrun
    exact ⟨heard, hheard, hdealt.disciplined⟩
  cases mode with
  | blocking => exact hexpand rfl
  | cooperative =>
    rcases hrun : outcome (v.answer (.inTurn replies) .cooperative args) m with ⟨result, n⟩
    rcases checked_cases hrun with ⟨⟨fault, rfl⟩, rfl⟩ | ⟨-, hrest⟩
    · exact ⟨[], .quiet rfl, (Dealt.refused fault).disciplined⟩
    · exact hexpand hrest

/-- The session closes between the two: the login stands in front of the second `set`. -/
example :
    let replies : Nat → Option Reply := fun n => [
      { output := { code := some 3, stderr := "SecretNotFound" }, disk := {} },
      { output := { code := some 1, stderr := "Please run 'az login'" }, disk := {} },
      { output := {}, disk := {} }, { output := {}, disk := {} }][n]?
    (outcome (({ autoLogin := true } : KeyVault).answer (.inTurn replies) .cooperative
        ["secret", "akv://kv/a", "--create"]) {}).2.calls.map (·.command.args.take 3) =
      [["keyvault", "secret", "show"], ["keyvault", "secret", "set"], ["login", "-o", "none"],
        ["keyvault", "secret", "set"]] := by
  decide +kernel

end SecretDotenv.Secret.KeyVault
