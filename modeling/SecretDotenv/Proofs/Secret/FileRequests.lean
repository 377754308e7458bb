import SecretDotenv.Proofs.Secret.FileSteps
import SecretDotenv.Proofs.Url.LocalPath

/-! What one request to a vault of files can do: nothing, keep a document that was
decrypted now, or besides store a secret in the file. -/
namespace SecretDotenv.Secret

open SecretDotenv.Text SecretDotenv.Machine SecretDotenv.Dotenv
open Effect (outcome outcome_bind_ok outcome_bind_error outcome_bind_cases checked_cases)

namespace Cache

theorem get?_insert_self (key : String) (document : Document) (c : Cache) :
    (c.insert key document).get? key = some document := by
  induction c with
  | nil => simp [insert, get?]
  | cons entry rest ih =>
    obtain ⟨k, d⟩ := entry
    by_cases hk : k = key
    · simp [insert, get?, hk]
    · simpa [insert, get?, hk] using ih

theorem get?_insert_of_ne {key other : String} (document : Document) (c : Cache)
    (h : other ≠ key) : (c.insert key document).get? other = c.get? other := by
  induction c with
  | nil => simp [insert, get?, h.symm]
  | cons entry rest ih =>
    obtain ⟨k, d⟩ := entry
    by_cases hk : k = key
    · subst hk
      simp [insert, get?, h.symm]
    · by_cases hother : k = other
      · subst hother
        simp [insert, get?, hk]
      · simpa [insert, get?, hk, hother] using ih

theorem get?_insert (key other : String) (document : Document) (c : Cache) :
    (c.insert key document).get? other = if other = key then some document else c.get? other := by
  by_cases h : other = key
  · rw [if_pos h, h, get?_insert_self]
  · rw [if_neg h, get?_insert_of_ne document c h]

theorem insert_of_get?_none {key : String} (document : Document) {c : Cache}
    (h : c.get? key = none) : c.insert key document = c ++ [(key, document)] := by
  induction c with
  | nil => rfl
  | cons entry rest ih =>
    obtain ⟨k, d⟩ := entry
    by_cases hk : k = key
    · simp [get?, hk] at h
    · have hrest : get? rest key = none := by
        simpa [get?, hk] using h
      simp [insert, hk, ih hrest]

end Cache

namespace SopsEnv

variable {v : SopsEnv} {programs : Programs} {mode : Mode} {e : Expression} {path : Path}
  {s t : Store}

structure Wanted where
  expression : Expression
  entry : String
  path : Path

def wanted (v : SopsEnv) (directory : Path) (args : List String) : Except VaultError Wanted :=
  match Expression.parse v.keyword directory v.defaultUri args with
  | .error fault => .error (.expression fault)
  | .ok e =>
    match entryName e with
    | .error fault => .error fault
    | .ok entry =>
      match filePath e.uri with
      | .error fault => .error fault
      | .ok path => .ok { expression := e, entry, path }

theorem exists_wanted {α : Type} {f : Wanted → α} {a : α} {directory : Path} {args : List String}
    (h : (v.wanted directory args).toOption.map f = some a) :
    ∃ w, v.wanted directory args = .ok w ∧ f w = a := by
  obtain ⟨w, hw, hf⟩ := Option.map_eq_some_iff.1 h
  exact ⟨w, Effect.eq_ok_of_toOption hw, hf⟩

def home (v : SopsEnv) (m : Machine) : Path :=
  v.directory.getD m.directory

theorem home_congr {m n : Machine} (h : n.directory = m.directory) : v.home n = v.home m := by
  unfold home
  rw [h]

def serve (v : SopsEnv) (programs : Programs) (mode : Mode) (w : Wanted) : Effect Store String := do
  let document ← v.load programs mode w.expression w.path
  match document.get? w.entry with
  | some value => return value
  | none =>
    if !w.expression.create then throw (.noEntry w.entry)
    checkAborted mode
    v.createEntry programs w.expression w.path w.entry document

theorem outcome_expand (v : SopsEnv) (programs : Programs) (mode : Mode) (args : List String)
    (s : Store) :
    outcome (v.expand programs mode args) s =
      match v.wanted (v.home s.machine) args with
      | .error fault => (.error fault, s)
      | .ok w => outcome (v.serve programs mode w) s := by
  unfold expand wanted home
  rw [outcome_bind_ok _ (Effect.outcome_get s)]
  dsimp only
  cases Expression.parse v.keyword (v.directory.getD s.machine.directory) v.defaultUri args with
  | error fault => rfl
  | ok e =>
    rw [outcome_bind_ok _ (Effect.outcome_pure e s)]
    dsimp only
    cases hentry : entryName e with
    | error fault => rfl
    | ok entry =>
      cases hpath : filePath e.uri with
      | error fault => rfl
      | ok path => rfl

theorem isAbsolute_of_wanted {directory : Path} {args : List String} {w : Wanted}
    (h : v.wanted directory args = .ok w) : w.path.isAbsolute := by
  unfold wanted at h
  split at h
  · contradiction
  · split at h
    · contradiction
    · split at h
      · contradiction
      · next hpath =>
        rw [← Except.ok.inj h]
        exact isAbsolute_of_filePath hpath

theorem load_steps {result : Except VaultError Document}
    (h : outcome (v.load programs mode e path) s = (result, t)) :
    (∃ document, s.cache.get? (cacheKey e.uri) = some document ∧ result = .ok document ∧ t = s) ∨
      s.cache.get? (cacheKey e.uri) = none ∧
        ((∃ fault, result = .error fault) ∧ t = s ∨
          ¬(mode = .cooperative ∧ s.machine.aborted) ∧ ∃ u,
            ((∃ fault, result = .error fault ∧
                outcome (v.decrypt programs e path) s = (.error fault, u)) ∧ t = u ∨
              ∃ document, result = .ok document ∧
                outcome (v.decrypt programs e path) s = (.ok document, u) ∧
                t = { u with cache := u.cache.insert (cacheKey e.uri) document })) := by
  unfold load at h
  rw [outcome_bind_ok _ (Effect.outcome_get s)] at h
  cases hkept : s.cache.get? (cacheKey e.uri) with
  | some document =>
    rw [hkept] at h
    obtain ⟨rfl, rfl⟩ := Prod.mk.inj h
    exact Or.inl ⟨document, rfl, rfl, rfl⟩
  | none =>
    rw [hkept] at h
    refine Or.inr ⟨rfl, ?_⟩
    rcases checked_cases h with hstopped | ⟨hgoes, hmore⟩
    · exact Or.inl hstopped
    · refine Or.inr ⟨hgoes, ?_⟩
      rcases outcome_bind_cases hmore with ⟨fault, hdecrypt, rfl⟩ | ⟨document, u, hdecrypt, hkeep⟩
      · exact ⟨t, Or.inl ⟨⟨fault, rfl, hdecrypt⟩, rfl⟩⟩
      · rw [outcome_bind_ok _ (Effect.outcome_modify _ u)] at hkeep
        obtain ⟨rfl, rfl⟩ := Prod.mk.inj hkeep
        exact ⟨u, Or.inr ⟨document, rfl, hdecrypt, rfl⟩⟩

theorem load_cases {result : Except VaultError Document}
    (h : outcome (v.load programs mode e path) s = (result, t)) :
    (∃ document, s.cache.get? (cacheKey e.uri) = some document ∧ result = .ok document ∧ t = s) ∨
      s.cache.get? (cacheKey e.uri) = none ∧ s.machine.Follows t.machine ∧
        (t.machine.disk = s.machine.disk ∨
          ∃ reply, programs s.machine (v.decryption s.machine e path) = some reply ∧
            t.machine.disk = reply.disk) ∧
        ((∃ fault, result = .error fault) ∧ t.cache = s.cache ∨
          ∃ document, result = .ok document ∧ v.Decrypts programs s.machine e path document ∧
            t.cache = s.cache.insert (cacheKey e.uri) document) := by
  rcases load_steps h with hkept | ⟨hnew, ⟨hfault, rfl⟩ |
    ⟨-, u, ⟨⟨fault, rfl, hdecrypt⟩, rfl⟩ | ⟨document, rfl, hdecrypt, rfl⟩⟩⟩
  · exact Or.inl hkept
  · exact Or.inr ⟨hnew, Follows.refl _, Or.inl rfl, Or.inl ⟨hfault, rfl⟩⟩
  · obtain ⟨hcache, hfollows, hdisk, -⟩ := decrypt_cases hdecrypt
    exact Or.inr ⟨hnew, hfollows, hdisk, Or.inl ⟨⟨fault, rfl⟩, hcache⟩⟩
  · obtain ⟨hcache, hfollows, hdisk, hdocument⟩ := decrypt_cases hdecrypt
    refine Or.inr ⟨hnew, hfollows, hdisk, Or.inr ⟨document, rfl, hdocument document rfl, ?_⟩⟩
    dsimp only
    rw [hcache]

theorem createEntry_cases {name : String} {document : Document} {result : Except VaultError String}
    (h : outcome (v.createEntry programs e path name document) s = (result, t)) :
    ∃ value draws,
      (∃ fault, result = .error fault ∧
          outcome (v.encrypt programs e path (document.set name value))
            { s with machine := { s.machine with draws } } = (.error fault, t)) ∨
        ∃ u, result = .ok value ∧
          outcome (v.encrypt programs e path (document.set name value))
            { s with machine := { s.machine with draws } } = (.ok (), u) ∧
          t = { u with cache := u.cache.insert (cacheKey e.uri) (document.set name value) } := by
  unfold createEntry at h
  rw [outcome_bind_ok _ (Effect.outcome_get s)] at h
  refine ⟨(e.policy.generate s.machine.draws).1, (e.policy.generate s.machine.draws).2, ?_⟩
  dsimp only at h
  rw [outcome_bind_ok _ (Effect.outcome_modify _ s)] at h
  rcases outcome_bind_cases h with ⟨fault, hencrypt, rfl⟩ | ⟨_, u, hencrypt, hkeep⟩
  · exact Or.inl ⟨fault, rfl, hencrypt⟩
  · rw [outcome_bind_ok _ (Effect.outcome_modify _ u)] at hkeep
    obtain ⟨rfl, rfl⟩ := Prod.mk.inj hkeep
    exact Or.inr ⟨u, rfl, hencrypt, rfl⟩

/-- A request ends without a document, with what the document has, or with a new entry if it
asks for one and the run may go on. -/
theorem serve_steps {w : Wanted} {result : Except VaultError String}
    (h : outcome (v.serve programs mode w) s = (result, t)) :
    (∃ fault, result = .error fault ∧
        outcome (v.load programs mode w.expression w.path) s = (.error fault, t)) ∨
      ∃ document u, outcome (v.load programs mode w.expression w.path) s = (.ok document, u) ∧
        ((∃ value, document.get? w.entry = some value ∧ result = .ok value) ∧ t = u ∨
          document.get? w.entry = none ∧
            ((∃ fault, result = .error fault) ∧ t = u ∨
              w.expression.create ∧ ¬(mode = .cooperative ∧ u.machine.aborted) ∧
                outcome (v.createEntry programs w.expression w.path w.entry document) u =
                  (result, t))) := by
  unfold serve at h
  rcases outcome_bind_cases h with ⟨fault, hload, rfl⟩ | ⟨document, u, hload, hafter⟩
  · exact Or.inl ⟨fault, rfl, hload⟩
  · refine Or.inr ⟨document, u, hload, ?_⟩
    cases hentry : document.get? w.entry with
    | some found =>
      rw [hentry] at hafter
      obtain ⟨rfl, rfl⟩ := Prod.mk.inj hafter
      exact Or.inl ⟨⟨found, rfl, rfl⟩, rfl⟩
    | none =>
      rw [hentry] at hafter
      dsimp only at hafter
      refine Or.inr ⟨rfl, ?_⟩
      split at hafter
      · obtain ⟨rfl, rfl⟩ := Prod.mk.inj hafter
        exact Or.inl ⟨⟨_, rfl⟩, rfl⟩
      · next hcreate =>
        rcases checked_cases hafter with hstopped | ⟨hgoes, hmade⟩
        · exact Or.inl hstopped
        · exact Or.inr ⟨by simpa using hcreate, hgoes, hmade⟩

theorem serve_ok_cases {w : Wanted} {value : String}
    (h : outcome (v.serve programs mode w) s = (.ok value, t)) :
    ∃ document u, outcome (v.load programs mode w.expression w.path) s = (.ok document, u) ∧
      (document.get? w.entry = some value ∧ t = u ∨
        document.get? w.entry = none ∧ ∃ draws u',
          outcome (v.encrypt programs w.expression w.path (document.set w.entry value))
            { u with machine := { u.machine with draws } } = (.ok (), u') ∧
          t = { u' with cache :=
            u'.cache.insert (cacheKey w.expression.uri) (document.set w.entry value) }) := by
  rcases serve_steps h with ⟨_, hresult, -⟩ | ⟨document, u, hload, ⟨⟨found, hfound, hresult⟩, rfl⟩ |
    ⟨hnew, ⟨⟨_, hresult⟩, -⟩ | ⟨-, -, hcreate⟩⟩⟩
  · contradiction
  · obtain rfl := Except.ok.inj hresult
    exact ⟨document, t, hload, Or.inl ⟨hfound, rfl⟩⟩
  · contradiction
  · rcases createEntry_cases hcreate with
      ⟨made, draws, ⟨_, hresult, -⟩ | ⟨u', hmade, hencrypt, ht⟩⟩
    · contradiction
    · obtain rfl := Except.ok.inj hmade
      exact ⟨document, u, hload, Or.inr ⟨hnew, draws, u', hencrypt, ht⟩⟩

def answer (v : SopsEnv) (programs : Programs) : Mode → List String → Effect Store String
  | .blocking, args => v.expand programs .blocking args
  | .cooperative, args => v.expandAsync programs args

theorem answer_cases {args : List String} {result : Except VaultError String}
    (h : outcome (v.answer programs mode args) s = (result, t)) :
    (∃ fault, result = .error fault) ∧ t = s ∨
      ∃ w, v.wanted (v.home s.machine) args = .ok w ∧
        outcome (v.serve programs mode w) s = (result, t) := by
  have hexpand : ∀ mode, outcome (v.expand programs mode args) s = (result, t) →
      (∃ fault, result = .error fault) ∧ t = s ∨
        ∃ w, v.wanted (v.home s.machine) args = .ok w ∧
          outcome (v.serve programs mode w) s = (result, t) := by
    intro mode h
    rw [outcome_expand] at h
    cases hwanted : v.wanted (v.home s.machine) args with
    | error fault =>
      rw [hwanted] at h
      obtain ⟨rfl, rfl⟩ := Prod.mk.inj h
      exact Or.inl ⟨⟨fault, rfl⟩, rfl⟩
    | ok w =>
      rw [hwanted] at h
      exact Or.inr ⟨w, rfl, h⟩
  cases mode with
  | blocking => exact hexpand .blocking h
  | cooperative =>
    rcases checked_cases h with hstopped | ⟨-, hmore⟩
    · exact Or.inl hstopped
    · exact hexpand .cooperative hmore

end SopsEnv

end SecretDotenv.Secret
