import SecretDotenv.Proofs.Machine.Transcript
import SecretDotenv.Proofs.Secret.Durable

/-! The calls to the tool for encrypted files, over all that is done with a vault. A file is
shown once. Only then can it be stored anew, with one more entry, and once the run was told to
stop, requests that heed this call nothing. -/
namespace SecretDotenv.Secret.SopsEnv

open SecretDotenv.Text SecretDotenv.Machine SecretDotenv.Dotenv
open Effect (outcome)

inductive Use where
  | shows
  | stores
deriving DecidableEq

def use? (h : Heard) : Option Use :=
  match h.call.command.args.reverse with
  | _ :: "-d" :: _ => some .shows
  | _ :: "-i" :: "-e" :: _ => some .stores
  | _ => none

def Shown (h : Heard) (document : Document) : Prop :=
  use? h = some .shows ∧ ∃ output, h.Succeeds output ∧ ¬isBlankText output.stdout ∧
    Document.parse output.stdout = .ok document

/-- A request that is understood, what was done before it, and the state in which it begins. -/
structure Request where
  past : List Event
  before : Store
  mode : Mode
  args : List String
  wanted : Wanted

def Request.key (r : Request) : String :=
  cacheKey r.wanted.expression.uri

structure Issue extends Request where
  heard : Heard

def Request.issue (r : Request) (heard : Heard) : Issue :=
  { r with heard }

namespace Issue

def Since (i : Issue) (past : List Event) (event : Event) : Prop :=
  event ∈ past.drop i.past.length

def Serves (i : Issue) (past : List Event) (key : String) : Prop :=
  i.key = key ∧ (∃ document, Shown i.heard document) ∧ ¬i.Since past .renew

end Issue

/-- What the last signal told, if there was one. -/
def told (past : List Event) : Bool :=
  past.foldl (fun told event => match event with | .signal aborted => aborted | _ => told) false

/-- The file of a request has the entries that are kept of it and behind them the new one,
whose value is the answer if the call succeeds. -/
structure Adds (v : SopsEnv) (replies : Nat → Option Reply) (i : Issue) (document : Document) :
    Prop where
  kept : ∃ u, outcome (v.load (.inTurn replies) i.mode i.wanted.expression i.wanted.path) i.before =
    (.ok document, u) ∧ u.cache.get? i.key = some document
  absent : document.get? i.wanted.entry = none
  written : ∃ text held value,
    i.heard.call.disk.read i.before.machine.directory i.wanted.path = .ok text ∧
      Document.parse text = .ok held ∧
      held.entries = document.entries ++ [⟨i.wanted.entry, value⟩] ∧
      ∀ output, i.heard.Succeeds output →
        (outcome (v.answer (.inTurn replies) i.mode i.args) i.before).1 = .ok value

/-- What holds of a call that comes behind others. -/
structure Permitted (v : SopsEnv) (replies : Nat → Option Reply) (front : List Issue) (i : Issue) :
    Prop where
  use : ∃ use, use? i.heard = some use
  /-- No file is shown to a vault that was shown it before. -/
  once : use? i.heard = some .shows → ∀ x ∈ front, ¬x.Serves i.past i.key
  /-- What is stored is a new entry of a file that was shown. -/
  founded : use? i.heard = some .stores → i.wanted.expression.create ∧
    (∃ x ∈ front, x.Serves i.past i.key) ∧ ∃ document, v.Adds replies i document
  /-- Who told the run to stop, by a signal or during a call, has taken it back since. -/
  told : i.mode = .cooperative → told i.past = false ∧
    ∀ x ∈ front, x.heard.aborts → x.Since i.past (.signal false)

def Lawful (v : SopsEnv) (replies : Nat → Option Reply) (front more : List Issue) : Prop :=
  ∀ mid i back, more = mid ++ i :: back → v.Permitted replies (front ++ mid) i

def issued (v : SopsEnv) (replies : Nat → Option Reply) (past : List Event) (s : Store)
    (event : Event) : List Issue :=
  match event with
  | .request mode args =>
    match v.wanted (v.home s.machine) args with
    | .error _ => []
    | .ok wanted =>
      (heardSince replies s.machine (v.step (.inTurn replies) s event).machine).map
        { past, before := s, mode, args, wanted : Request }.issue
  | .signal _ => []
  | .renew => []

def history (v : SopsEnv) (replies : Nat → Option Reply) (past : List Event) (s : Store) :
    List Event → List Issue
  | [] => []
  | event :: events =>
    v.issued replies past s event ++
      v.history replies (past ++ [event]) (v.step (.inTurn replies) s event) events

variable {v : SopsEnv} {replies : Nat → Option Reply} {front more : List Issue} {r : Request}
  {x : Issue} {past : List Event} {event last : Event} {path : Path} {e : Expression} {h : Heard}
  {document : Document} {s t u : Store}

theorem use?_shows {settings : Settings} (hcommand : h.call.command = v.command settings ["-d"] path) :
    use? h = some .shows := by
  simp [use?, hcommand, command]

theorem use?_stores {settings : Settings}
    (hcommand : h.call.command = v.command settings ["-e", "-i"] path) :
    use? h = some .stores := by
  simp [use?, hcommand, command]

theorem not_shown_of_stores (huse : use? h = some .stores) (document : Document) :
    ¬Shown h document := by
  rintro ⟨hshows, -⟩
  rw [huse] at hshows
  contradiction

theorem told_snoc (past : List Event) (event : Event) :
    told (past ++ [event]) = match event with | .signal aborted => aborted | _ => told past := by
  unfold told
  rw [List.foldl_append]
  rfl

theorem Issue.since_snoc (hx : x.past.length ≤ past.length) :
    x.Since (past ++ [last]) event ↔ x.Since past event ∨ event = last := by
  unfold Since
  rw [List.drop_append_of_le_length hx, List.mem_append, List.mem_singleton]

theorem Issue.not_since_self (i : Issue) : ¬i.Since i.past event := by
  simp [Since]

namespace Lawful

theorem nil : v.Lawful replies front [] := by
  intro mid i back hsplit
  simp at hsplit

theorem single (hx : v.Permitted replies front x) : v.Lawful replies front [x] := by
  intro mid i back hsplit
  cases mid with
  | nil =>
    obtain ⟨rfl, -⟩ := List.cons.inj hsplit
    simpa using hx
  | cons first mid => simp at hsplit

theorem append {others : List Issue} (hmore : v.Lawful replies front more)
    (hothers : v.Lawful replies (front ++ more) others) : v.Lawful replies front (more ++ others) := by
  intro mid i back hsplit
  rcases List.append_eq_append_iff.1 hsplit with ⟨mid', rfl, hrest⟩ | ⟨back', hmid, hrest⟩
  · rw [← List.append_assoc]
    exact hothers mid' i back hrest
  · cases back' with
    | nil =>
      rw [List.append_nil] at hmid
      subst hmid
      simpa using hothers [] i back hrest.symm
    | cons first back' =>
      obtain ⟨rfl, -⟩ := List.cons.inj hrest
      exact hmore mid i back' hmid

end Lawful

theorem decrypt_heard {result : Except VaultError Document}
    (hrun : outcome (v.decrypt (.inTurn replies) e path) s = (result, t)) :
    t.cache = s.cache ∧ ((∃ fault, result = .error fault) ∧ t = s ∨
      ∃ h, Hears replies s.machine [h] t.machine ∧ use? h = some .shows ∧
        t.machine.aborted = (s.machine.aborted || h.aborts) ∧
        ∀ document, Shown h document ↔ result = .ok document) := by
  rw [outcome_decrypt] at hrun
  split at hrun
  · rcases hcall : s.machine.run (.inTurn replies) (v.decryption s.machine e path) none with
      ⟨finished, m⟩
    rw [hcall] at hrun
    obtain ⟨rfl, rfl⟩ := Prod.mk.inj hrun
    obtain ⟨h, hheard, hcommand, -, haborted, houtput⟩ := hears_run hcall
    have huse := use?_shows hcommand
    refine ⟨rfl, Or.inr ⟨h, hheard, huse, haborted, ?_⟩⟩
    intro document
    rw [shownDocument_eq_ok_iff]
    rcases houtput with ⟨⟨error, rfl⟩, hnone⟩ | ⟨output, rfl, hsome⟩
    · simp [Shown, Heard.Succeeds, hnone]
    · simp [Shown, Heard.Succeeds, hsome, huse, and_assoc]
  · obtain ⟨rfl, rfl⟩ := Prod.mk.inj hrun
    exact ⟨rfl, Or.inl ⟨⟨_, rfl⟩, rfl⟩⟩

theorem writeEncrypted_heard {content : String} {m n : Machine} {disk : Disk}
    {ended : Except EncryptError Unit} (hwrite : m.disk.write m.directory path content = .ok disk)
    (hrun : v.writeEncrypted (.inTurn replies) e path content m = (ended, n)) :
    ∃ h, Hears replies m [h] n ∧ use? h = some .stores ∧ n.aborted = (m.aborted || h.aborts) ∧
      h.call.disk = disk ∧ ∀ output, h.Succeeds output → ended = .ok () := by
  unfold writeEncrypted at hrun
  rw [hwrite] at hrun
  dsimp only at hrun
  rcases hcall : Machine.run (.inTurn replies) (v.encryption m e path) none { m with disk } with
    ⟨finished, after⟩
  obtain ⟨h, hheard, hcommand, hdisk, haborted, houtput⟩ := hears_run hcall
  unfold encryption at hcall
  rw [hcall] at hrun
  -- a call hears the same on a machine with another disk
  have hheard' : Hears replies m [h] after := ⟨hheard.calls, hheard.replies⟩
  rcases houtput with ⟨⟨error, rfl⟩, hnone⟩ | ⟨output, rfl, hsome⟩
  · obtain ⟨rfl, rfl⟩ := Prod.mk.inj hrun
    exact ⟨h, hheard', use?_stores hcommand, haborted, hdisk, by simp [Heard.Succeeds, hnone]⟩
  · dsimp only at hrun
    split at hrun
    · obtain ⟨rfl, rfl⟩ := Prod.mk.inj hrun
      exact ⟨h, hheard', use?_stores hcommand, haborted, hdisk, fun _ _ => rfl⟩
    · next hfailure =>
      obtain ⟨rfl, rfl⟩ := Prod.mk.inj hrun
      refine ⟨h, hheard', use?_stores hcommand, haborted, hdisk, ?_⟩
      rintro output' ⟨hsome', hsuccess⟩
      rw [hsome] at hsome'
      obtain rfl := Option.some.inj hsome'
      exact absurd hsuccess hfailure

theorem encrypt_heard {result : Except VaultError Unit} (habsolute : path.isAbsolute)
    (hrun : outcome (v.encrypt (.inTurn replies) e path document) s = (result, t)) :
    t.cache = s.cache ∧ ((∃ fault, result = .error fault) ∧ t = s ∨
      ∃ h, Hears replies s.machine [h] t.machine ∧ use? h = some .stores ∧
        t.machine.aborted = (s.machine.aborted || h.aborts) ∧
        h.call.disk.read s.machine.directory path = .ok document.write ∧
        ∀ output, h.Succeeds output → result = .ok ()) := by
  rcases encrypt_cases hrun with ⟨hfault, rfl⟩ | ⟨place, beside, old, ended, m, hbackup, hwritten, hend⟩
  · exact ⟨rfl, Or.inl ⟨hfault, rfl⟩⟩
  · obtain ⟨h, hheard, huse, haborted, hdisk, hsuccess⟩ :=
      writeEncrypted_heard (hbackup.write_first habsolute document.write) hwritten
    have hread : h.call.disk.read s.machine.directory path = .ok document.write := by
      rw [hdisk]
      exact hbackup.read_path _
    rcases hend with ⟨rfl, rfl, rfl⟩ | ⟨⟨error, rfl⟩, -, ⟨disk, rfl⟩, -⟩
    · exact ⟨rfl, Or.inr ⟨h, ⟨hheard.calls, hheard.replies⟩, huse, haborted, hread, fun _ _ => rfl⟩⟩
    · refine ⟨rfl, Or.inr ⟨h, ⟨hheard.calls, hheard.replies⟩, huse, haborted, hread, ?_⟩⟩
      intro output houtput
      cases hsuccess output houtput

/-- What was called and what is kept tell of each other. -/
structure Linked (front : List Issue) (past : List Event) (s : Store) : Prop where
  older : ∀ x ∈ front, x.past.length ≤ past.length
  kept : ∀ key document, s.cache.get? key = some document →
    (∀ node ∈ document.nodes, node.IsReadable) ∧ ∃ x ∈ front, x.Serves past key
  shown : ∀ x ∈ front, ∀ key, x.Serves past key → (s.cache.get? key).isSome
  told : SopsEnv.told past → s.machine.aborted
  heard : ∀ x ∈ front, x.heard.aborts → x.Since past (.signal false) ∨ s.machine.aborted

namespace Linked

theorem start (hcache : s.cache = []) : Linked [] [] s := by
  refine ⟨by simp, ?_, by simp, by simp [SopsEnv.told], by simp⟩
  intro key document hkept
  rw [hcache] at hkept
  contradiction

theorem same (hs : Linked front past s) (hcache : t.cache = s.cache)
    (haborted : t.machine.aborted = s.machine.aborted) : Linked front past t :=
  ⟨hs.older, hcache ▸ hs.kept, hcache ▸ hs.shown, haborted ▸ hs.told, haborted ▸ hs.heard⟩

theorem call (hs : Linked front r.past s)
    (haborted : t.machine.aborted = (s.machine.aborted || h.aborts))
    (hcache : t.cache = s.cache ∧ (∀ document, ¬Shown h document) ∨
      ∃ document, t.cache = s.cache.insert r.key document ∧
        (∀ node ∈ document.nodes, node.IsReadable) ∧
        ((s.cache.get? r.key).isSome ∨ ∃ document, Shown h document)) :
    Linked (front ++ [r.issue h]) r.past t := by
  have hall : ∀ {holds : Issue → Prop}, (∀ x ∈ front, holds x) → holds (r.issue h) →
      ∀ x ∈ front ++ [r.issue h], holds x :=
    fun hfront hlast => List.forall_mem_append.2 ⟨hfront, List.forall_mem_singleton.2 hlast⟩
  refine ⟨hall hs.older (Nat.le_refl _), ?_, hall ?_ ?_, ?_, hall ?_ ?_⟩
  · have hbefore : ∀ key document, s.cache.get? key = some document →
        (∀ node ∈ document.nodes, node.IsReadable) ∧
          ∃ x ∈ front ++ [r.issue h], x.Serves r.past key := by
      intro key document hkept
      obtain ⟨hreadable, x, hx, hserves⟩ := hs.kept key document hkept
      exact ⟨hreadable, x, List.mem_append_left _ hx, hserves⟩
    intro key document hkept
    rcases hcache with ⟨hsame, -⟩ | ⟨new, hnew, hreadable, hshown⟩
    · exact hbefore key document (hsame ▸ hkept)
    · rw [hnew, Cache.get?_insert] at hkept
      split at hkept
      · next hkey =>
        obtain rfl := Option.some.inj hkept
        refine ⟨hreadable, ?_⟩
        rcases hshown with hold | hshown
        · obtain ⟨old, hold⟩ := Option.isSome_iff_exists.1 hold
          exact hkey ▸ (hbefore r.key old hold).2
        · refine ⟨r.issue h, List.mem_append_right _ List.mem_cons_self, hkey.symm, hshown, ?_⟩
          exact (r.issue h).not_since_self
      · exact hbefore key document hkept
  · intro x hx key hserves
    have hold := hs.shown x hx key hserves
    rcases hcache with ⟨hsame, -⟩ | ⟨new, hnew, -, -⟩
    · rwa [hsame]
    · rw [hnew, Cache.get?_insert]
      split
      · rfl
      · exact hold
  · rintro key ⟨rfl, ⟨document, hshown⟩, -⟩
    rcases hcache with ⟨-, hnone⟩ | ⟨new, hnew, -, -⟩
    · exact absurd hshown (hnone document)
    · rw [hnew]
      exact Option.isSome_of_mem (Cache.get?_insert_self ..)
  · intro htold
    rw [haborted, hs.told htold, Bool.true_or]
  · intro x hx haborts
    refine (hs.heard x hx haborts).imp_right ?_
    intro hbefore
    rw [haborted, hbefore, Bool.true_or]
  · intro haborts
    right
    rw [haborted]
    exact Bool.or_eq_true_iff.2 (Or.inr haborts)

theorem next (hs : Linked front past s)
    (hcache : t.cache = s.cache ∧ event ≠ .renew ∨ t.cache = [] ∧ event = .renew)
    (htold : SopsEnv.told (past ++ [event]) → t.machine.aborted)
    (hstays : s.machine.aborted → event = .signal false ∨ t.machine.aborted) :
    Linked front (past ++ [event]) t := by
  have hsince : ∀ x ∈ front, ∀ known, x.Since (past ++ [event]) known ↔
      x.Since past known ∨ known = event :=
    fun x hx _ => Issue.since_snoc (hs.older x hx)
  refine ⟨?_, ?_, ?_, htold, ?_⟩
  · intro x hx
    rw [List.length_append]
    exact Nat.le_add_right_of_le (hs.older x hx)
  · intro key document hkept
    rcases hcache with ⟨hsame, hevent⟩ | ⟨hnone, -⟩
    · obtain ⟨hreadable, x, hx, hkey, hshown, hstill⟩ := hs.kept key document (hsame ▸ hkept)
      refine ⟨hreadable, x, hx, hkey, hshown, ?_⟩
      rw [hsince x hx]
      exact not_or.2 ⟨hstill, hevent.symm⟩
    · rw [hnone] at hkept
      contradiction
  · rintro x hx key ⟨hkey, hshown, hstill⟩
    rw [hsince x hx, not_or] at hstill
    rcases hcache with ⟨hsame, -⟩ | ⟨-, hevent⟩
    · rw [hsame]
      exact hs.shown x hx key ⟨hkey, hshown, hstill.1⟩
    · exact absurd hevent.symm hstill.2
  · intro x hx haborts
    rw [hsince x hx]
    rcases hs.heard x hx haborts with hsignal | haborted
    · exact Or.inl (Or.inl hsignal)
    · exact (hstays haborted).imp_left fun hevent => Or.inr hevent.symm

theorem goes {mode : Mode} (hs : Linked front past s)
    (hgoes : ¬(mode = .cooperative ∧ s.machine.aborted)) (hmode : mode = .cooperative) :
    SopsEnv.told past = false ∧ ∀ x ∈ front, x.heard.aborts → x.Since past (.signal false) := by
  have hrunning : ¬s.machine.aborted := fun haborted => hgoes ⟨hmode, haborted⟩
  refine ⟨?_, ?_⟩
  · exact Bool.eq_false_iff.2 fun htold => hrunning (hs.told htold)
  · intro x hx haborts
    exact (hs.heard x hx haborts).resolve_right hrunning

end Linked

/-- Calls of a request that lead from one state to another and keep the rules. -/
structure Course (v : SopsEnv) (replies : Nat → Option Reply) (front : List Issue) (r : Request)
    (s : Store) (heard : List Heard) (t : Store) : Prop where
  hears : Hears replies s.machine heard t.machine
  lawful : v.Lawful replies front (heard.map r.issue)
  linked : Linked (front ++ heard.map r.issue) r.past t

namespace Course

theorem quiet (hs : Linked front r.past t) (hcalls : t.machine.calls = s.machine.calls) :
    v.Course replies front r s [] t :=
  ⟨.quiet hcalls, .nil, by simpa using hs⟩

theorem append {heard later : List Heard} (hfirst : v.Course replies front r s heard u)
    (hsecond : v.Course replies (front ++ heard.map r.issue) r u later t) :
    v.Course replies front r s (heard ++ later) t := by
  refine ⟨hfirst.hears.append hsecond.hears, ?_, ?_⟩
  · rw [List.map_append]
    exact hfirst.lawful.append hsecond.lawful
  · rw [List.map_append, ← List.append_assoc]
    exact hsecond.linked

end Course

theorem Linked.load {result : Except VaultError Document} (hs : Linked front r.past r.before)
    (hrun : outcome (v.load (.inTurn replies) r.mode r.wanted.expression r.wanted.path) r.before =
      (result, t)) :
    (∃ heard, v.Course replies front r r.before heard t) ∧
      ∀ document, result = .ok document → t.cache.get? r.key = some document := by
  rcases load_steps hrun with ⟨kept, hkept, rfl, rfl⟩ | ⟨hnew, ⟨⟨fault, rfl⟩, rfl⟩ | ⟨hgoes, u, hrest⟩⟩
  · refine ⟨⟨[], .quiet hs rfl⟩, ?_⟩
    rintro document ⟨⟩
    exact hkept
  · exact ⟨⟨[], .quiet hs rfl⟩, by simp⟩
  -- the file is shown now, which is allowed because nothing is kept of it
  have hpermitted : ∀ h, use? h = some .shows → v.Permitted replies front (r.issue h) := by
    intro h huse
    refine ⟨⟨_, huse⟩, ?_, ?_, hs.goes hgoes⟩
    · intro _ x hx hserves
      have hkept := hs.shown x hx r.key hserves
      rw [Request.key, hnew] at hkept
      contradiction
    · intro hstores
      rw [show use? h = some .stores from hstores] at huse
      contradiction
  rcases hrest with ⟨⟨fault, rfl, hdecrypt⟩, rfl⟩ | ⟨document, rfl, hdecrypt, rfl⟩
  · refine ⟨?_, by simp⟩
    obtain ⟨hcache, ⟨-, rfl⟩ | ⟨h, hheard, huse, haborted, hshown⟩⟩ := decrypt_heard hdecrypt
    · exact ⟨[], .quiet hs rfl⟩
    · refine ⟨[h], hheard, .single (hpermitted h huse), ?_⟩
      refine hs.call haborted (Or.inl ⟨hcache, ?_⟩)
      simp [hshown]
  · refine ⟨?_, ?_⟩
    · obtain ⟨hcache, ⟨⟨_, hfault⟩, -⟩ | ⟨h, hheard, huse, haborted, hshown⟩⟩ := decrypt_heard hdecrypt
      · contradiction
      · have hdocument : Shown h document := (hshown document).2 rfl
        have ⟨_, output, _, _, hparse⟩ := hdocument
        refine ⟨[h], ⟨hheard.calls, hheard.replies⟩, .single (hpermitted h huse), ?_⟩
        refine hs.call haborted (Or.inr ⟨document, ?_, Document.isReadable_of_parse hparse,
          Or.inr ⟨document, hdocument⟩⟩)
        dsimp only
        rw [hcache]
        rfl
    · rintro _ ⟨⟩
      exact Cache.get?_insert_self ..

/-- A request that is about to store a new entry. -/
structure Creating (v : SopsEnv) (replies : Nat → Option Reply) (front : List Issue) (r : Request)
    (s : Store) (document : Document) : Prop where
  linked : Linked front r.past s
  wanted : v.wanted (v.home r.before.machine) r.args = .ok r.wanted
  loaded : outcome (v.load (.inTurn replies) r.mode r.wanted.expression r.wanted.path) r.before =
    (.ok document, s)
  kept : s.cache.get? r.key = some document
  absent : document.get? r.wanted.entry = none
  create : r.wanted.expression.create
  goes : ¬(r.mode = .cooperative ∧ s.machine.aborted)

namespace Creating

variable (hc : v.Creating replies front r s document)
include hc

theorem directory_eq : s.machine.directory = r.before.machine.directory := by
  rcases load_cases hc.loaded with ⟨_, -, -, rfl⟩ | ⟨-, hfollows, -⟩
  · rfl
  · exact hfollows.directory

theorem isReadable (value : String) :
    ∀ node ∈ (document.set r.wanted.entry value).nodes, node.IsReadable := by
  have hname := isReadable_of_entryName value (wanted_cases hc.wanted).2.1
  exact Document.isReadable_set value (hc.linked.kept r.key document hc.kept).1 hname

theorem permitted {value : String} (huse : use? h = some .stores)
    (hread : h.call.disk.read s.machine.directory r.wanted.path =
      .ok (document.set r.wanted.entry value).write)
    (hanswer : ∀ output, h.Succeeds output →
      (outcome (v.answer (.inTurn replies) r.mode r.args) r.before).1 = .ok value) :
    v.Permitted replies front (r.issue h) := by
  refine ⟨⟨_, huse⟩, ?_, ?_, hc.linked.goes hc.goes⟩
  · intro hshows
    rw [show use? h = some .shows from hshows] at huse
    contradiction
  · intro _
    refine ⟨hc.create, (hc.linked.kept r.key document hc.kept).2, document, ⟨s, hc.loaded, hc.kept⟩,
      hc.absent, ?_⟩
    obtain ⟨held, hparse, hentries⟩ := Document.exists_parse_write (hc.isReadable value)
    rw [hc.directory_eq] at hread
    rw [Document.entries_set value hc.absent] at hentries
    exact ⟨_, held, value, hread, hparse, hentries, hanswer⟩

theorem course {result : Except VaultError String}
    (hanswer : (outcome (v.answer (.inTurn replies) r.mode r.args) r.before).1 = result)
    (hrun : outcome (v.createEntry (.inTurn replies) r.wanted.expression r.wanted.path
      r.wanted.entry document) s = (result, t)) :
    ∃ heard, v.Course replies front r s heard t := by
  obtain ⟨value, draws, hrun⟩ := createEntry_cases hrun
  have hdrawn : Linked front r.past { s with machine := { s.machine with draws } } :=
    hc.linked.same rfl rfl
  have habsolute := isAbsolute_of_wanted hc.wanted
  rcases hrun with ⟨fault, rfl, hencrypt⟩ | ⟨u, rfl, hencrypt, rfl⟩
  · obtain ⟨hcache, ⟨-, rfl⟩ | ⟨h, hheard, huse, haborted, hread, hsucceeds⟩⟩ :=
      encrypt_heard habsolute hencrypt
    · exact ⟨[], .quiet hdrawn rfl⟩
    · refine ⟨[h], ⟨hheard.calls, hheard.replies⟩, .single (hc.permitted huse hread ?_), ?_⟩
      · intro output houtput
        cases hsucceeds output houtput
      · exact hdrawn.call haborted (Or.inl ⟨hcache, not_shown_of_stores huse⟩)
  · obtain ⟨hcache, ⟨⟨_, hfault⟩, -⟩ | ⟨h, hheard, huse, haborted, hread, -⟩⟩ :=
      encrypt_heard habsolute hencrypt
    · contradiction
    · refine ⟨[h], ⟨hheard.calls, hheard.replies⟩,
        .single (hc.permitted huse hread fun _ _ => hanswer), ?_⟩
      refine hdrawn.call haborted (Or.inr ⟨_, ?_, hc.isReadable value, Or.inl ?_⟩)
      · dsimp only
        rw [hcache]
        rfl
      · exact Option.isSome_of_mem hc.kept

end Creating

theorem Linked.answer {result : Except VaultError String} (hs : Linked front r.past r.before)
    (hwanted : v.wanted (v.home r.before.machine) r.args = .ok r.wanted)
    (hrun : outcome (v.answer (.inTurn replies) r.mode r.args) r.before = (result, t)) :
    ∃ heard, v.Course replies front r r.before heard t := by
  have hanswer := congrArg Prod.fst hrun
  rcases answer_cases hrun with ⟨-, rfl⟩ | ⟨w, hw, hserve⟩
  · exact ⟨[], .quiet hs rfl⟩
  · rw [hwanted] at hw
    obtain rfl := Except.ok.inj hw
    rcases serve_steps hserve with ⟨_, -, hload⟩ | ⟨document, u, hload, hafter⟩
    · exact (hs.load hload).1
    · obtain ⟨⟨heard, hloaded⟩, hkept⟩ := hs.load hload
      rcases hafter with ⟨-, rfl⟩ | ⟨hnew, ⟨-, rfl⟩ | ⟨hcreate, hgoes, hmade⟩⟩
      · exact ⟨heard, hloaded⟩
      · exact ⟨heard, hloaded⟩
      · have hcreating : v.Creating replies (front ++ heard.map r.issue) r u document :=
          ⟨hloaded.linked, hwanted, hload, hkept document rfl, hnew, hcreate, hgoes⟩
        obtain ⟨later, hcreated⟩ := hcreating.course hanswer hmade
        exact ⟨heard ++ later, hloaded.append hcreated⟩

theorem Linked.step (hs : Linked front past s) (event : Event) :
    Hears replies s.machine ((v.issued replies past s event).map (·.heard))
        (v.step (.inTurn replies) s event).machine ∧
      v.Lawful replies front (v.issued replies past s event) ∧
      Linked (front ++ v.issued replies past s event) (past ++ [event])
        (v.step (.inTurn replies) s event) := by
  cases event with
  | signal aborted =>
    refine ⟨.quiet rfl, .nil, ?_⟩
    rw [issued, List.append_nil]
    refine hs.next (Or.inl ⟨rfl, nofun⟩) ?_ ?_
    · rw [told_snoc]
      exact id
    · intro _
      cases aborted
      · exact Or.inl rfl
      · exact Or.inr rfl
  | renew =>
    refine ⟨.quiet rfl, .nil, ?_⟩
    rw [issued, List.append_nil]
    refine hs.next (Or.inr ⟨rfl, rfl⟩) ?_ Or.inr
    rw [told_snoc]
    exact hs.told
  | request mode args =>
    rcases hrun : outcome (v.answer (.inTurn replies) mode args) s with ⟨result, t⟩
    have hstep : v.step (.inTurn replies) s (.request mode args) = t := congrArg Prod.snd hrun
    rw [hstep]
    have hover : ∀ {front}, Linked front past t → Linked front (past ++ [.request mode args]) t := by
      intro front ht
      refine ht.next (Or.inl ⟨rfl, nofun⟩) ?_ Or.inr
      rw [told_snoc]
      exact ht.told
    cases hwanted : v.wanted (v.home s.machine) args with
    | error fault =>
      have hissued : v.issued replies past s (.request mode args) = [] := by
        simp only [issued, hwanted]
      rw [hissued, List.append_nil]
      rcases answer_cases hrun with ⟨-, rfl⟩ | ⟨w, hw, -⟩
      · exact ⟨.quiet rfl, .nil, hover hs⟩
      · rw [hwanted] at hw
        contradiction
    | ok wanted =>
      let r : Request := { past, before := s, mode, args, wanted }
      obtain ⟨heard, hcourse⟩ := Linked.answer (r := r) hs hwanted hrun
      have hissued : v.issued replies past s (.request mode args) = heard.map r.issue := by
        simp only [issued, hwanted, hstep, hcourse.hears.eq_heardSince, r]
      have hheard : (heard.map r.issue).map (·.heard) = heard := by
        rw [List.map_map]
        exact List.map_id heard
      rw [hissued, hheard]
      exact ⟨hcourse.hears, hcourse.lawful, hover hcourse.linked⟩

theorem Linked.history (hs : Linked front past s) (events : List Event) :
    Hears replies s.machine ((v.history replies past s events).map (·.heard))
        (v.run (.inTurn replies) s events).machine ∧
      v.Lawful replies front (v.history replies past s events) := by
  induction events generalizing front past s with
  | nil => exact ⟨.quiet rfl, .nil⟩
  | cons event events ih =>
    obtain ⟨hheard, hlawful, hnext⟩ := hs.step event
    obtain ⟨hmore, hrest⟩ := ih hnext
    refine ⟨?_, hlawful.append hrest⟩
    rw [SopsEnv.history, List.map_append]
    exact hheard.append hmore

/-- Whatever is asked of a vault, and whatever the tool replies, the calls are those of the
history, and each of them keeps the rules. -/
theorem history_lawful (v : SopsEnv) (replies : Nat → Option Reply) (m : Machine)
    (events : List Event) :
    Hears replies m ((v.history replies [] { machine := m } events).map (·.heard))
        (v.run (.inTurn replies) { machine := m } events).machine ∧
      v.Lawful replies [] (v.history replies [] { machine := m } events) :=
  (Linked.start (s := { machine := m }) rfl).history events

/-- What was stored is not asked for again, and a run that was told to stop asks nothing. -/
example :
    let disk : Disk := { items := [(Disk.placeOf (Path.ofString "/a.env"), .file "sealed")] }
    let replies : Nat → Option Reply := fun n =>
      [{ output := { stdout := "KEPT=1\n" }, disk }, { output := {}, disk }][n]?
    let args := ["secret", "sops-env:///a.env", "--name", "new", "--create"]
    (({} : SopsEnv).history replies [] { machine := { disk } } [.request .blocking args,
      .request .blocking args, .renew, .signal true, .request .cooperative args]).map
        (fun i => (i.past.length, use? i.heard)) = [(0, some .shows), (0, some .stores)] := by
  decide +kernel

end SecretDotenv.Secret.SopsEnv
