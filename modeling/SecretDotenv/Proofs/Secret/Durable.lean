import SecretDotenv.Proofs.Secret.HeldText

/-! Secrets endure. Whatever requests are made, succeed and fail, a file loses none of
its entries, what is kept of it in memory has just these entries, and a secret that was
given once is given again. -/
namespace SecretDotenv.Secret.SopsEnv

open SecretDotenv.Text SecretDotenv.Machine SecretDotenv.Dotenv
open Effect (outcome outcome_bind_cases)

inductive Event where
  | request (mode : Mode) (args : List String)
  /-- The run is told to stop, or is no longer. -/
  | signal (aborted : Bool)
  /-- Another vault takes over, which keeps nothing yet. -/
  | renew

def step (v : SopsEnv) (programs : Programs) (s : Store) : Event → Store
  | .request mode args => (outcome (v.answer programs mode args) s).2
  | .signal aborted => { s with machine := { s.machine with aborted } }
  | .renew => { s with cache := [] }

def run (v : SopsEnv) (programs : Programs) (s : Store) (events : List Event) : Store :=
  events.foldl (v.step programs) s

theorem run_append (v : SopsEnv) (programs : Programs) (s : Store) (before after : List Event) :
    v.run programs s (before ++ after) = v.run programs (v.run programs s before) after :=
  List.foldl_append

def Asked (v : SopsEnv) (m : Machine) (events : List Event) (w : Wanted) : Prop :=
  ∃ mode args, .request mode args ∈ events ∧ v.wanted (v.home m) args = .ok w

/-- No two requests name one file by different keys. -/
def OneKeyPerFile (v : SopsEnv) (m : Machine) (events : List Event) : Prop :=
  ∀ w₁ w₂ place, v.Asked m events w₁ → v.Asked m events w₂ →
    m.disk.locate m.directory w₁.path = .ok place → m.disk.locate m.directory w₂.path = .ok place →
      cacheKey w₁.expression.uri = cacheKey w₂.expression.uri

variable {v : SopsEnv} {programs : Programs} {plain : String → Option String} {events : List Event}
  {mode : Mode} {args : List String} {m : Machine} {s t : Store} {w : Wanted} {value : String}

theorem Asked.path_eq {w' : Wanted} (hw : v.Asked m events w) (hw' : v.Asked m events w')
    (hkey : cacheKey w.expression.uri = cacheKey w'.expression.uri) : w.path = w'.path := by
  obtain ⟨-, args, -, hwanted⟩ := hw
  obtain ⟨-, args', -, hwanted'⟩ := hw'
  exact path_eq_of_cacheKey hwanted hwanted' hkey

theorem Asked.isReadable (hw : v.Asked m events w) (value : String) :
    (Node.entry { name := w.entry, value }).IsReadable := by
  obtain ⟨-, args, -, hwanted⟩ := hw
  exact isReadable_of_entryName value (wanted_cases hwanted).2.1

theorem Asked.isAbsolute (hw : v.Asked m events w) : w.path.isAbsolute := by
  obtain ⟨-, args, -, hwanted⟩ := hw
  exact isAbsolute_of_wanted hwanted

/-- Kept documents have the entries of their files. -/
structure Consistent (v : SopsEnv) (plain : String → Option String) (m : Machine)
    (events : List Event) (s : Store) : Prop where
  directory : s.machine.directory = m.directory
  shape : m.disk.SameShape s.machine.disk
  kept : ∀ key document, s.cache.get? key = some document →
    (∀ node ∈ document.nodes, node.IsReadable) ∧
      ∃ w held, v.Asked m events w ∧ cacheKey w.expression.uri = key ∧
        Holds plain s.machine w.path held ∧ held.entries = document.entries

theorem Consistent.locate (hs : v.Consistent plain m events s) {path : Path} {place : Place}
    (h : s.machine.disk.locate s.machine.directory path = .ok place) :
    m.disk.locate m.directory path = .ok place := by
  rw [hs.directory] at h
  exact Disk.locate_of_sameShape hs.shape.symm h

theorem Consistent.of_same (hs : v.Consistent plain m events s)
    (hdisk : t.machine.disk = s.machine.disk) (hdirectory : t.machine.directory = s.machine.directory)
    (hcache : t.cache = s.cache) : v.Consistent plain m events t := by
  refine ⟨hdirectory.trans hs.directory, hdisk ▸ hs.shape, ?_⟩
  intro key document hkept
  rw [hcache] at hkept
  obtain ⟨hreadable, w, held, hasked, hkey, hheld, hentries⟩ := hs.kept key document hkept
  exact ⟨hreadable, w, held, hasked, hkey, hheld.congr hdisk hdirectory, hentries⟩

theorem Consistent.keep {document held : Document} (hs : v.Consistent plain m events s)
    (hasked : v.Asked m events w) (hdirectory : t.machine.directory = s.machine.directory)
    (hshape : s.machine.disk.SameShape t.machine.disk)
    (hcache : t.cache = s.cache.insert (cacheKey w.expression.uri) document)
    (hreadable : ∀ node ∈ document.nodes, node.IsReadable)
    (hheld : Holds plain t.machine w.path held) (hentries : held.entries = document.entries)
    (hothers : ∀ w', v.Asked m events w' →
      cacheKey w'.expression.uri ≠ cacheKey w.expression.uri →
        ∀ old, Holds plain s.machine w'.path old → Holds plain t.machine w'.path old) :
    v.Consistent plain m events t := by
  refine ⟨hdirectory.trans hs.directory, hs.shape.trans hshape, ?_⟩
  intro key other hkept
  rw [hcache, Cache.get?_insert] at hkept
  split at hkept
  · next hkey =>
    obtain rfl := Option.some.inj hkept
    exact ⟨hreadable, w, held, hasked, hkey.symm, hheld, hentries⟩
  · next hkey =>
    obtain ⟨hreadable', w', held', hasked', hkey', hheld', hentries'⟩ := hs.kept key other hkept
    rw [← hkey'] at hkey
    exact ⟨hreadable', w', held', hasked', hkey', hothers w' hasked' hkey held' hheld', hentries'⟩

theorem Consistent.keep_shown {document : Document} (hs : v.Consistent plain m events s)
    (hasked : v.Asked m events w) (hv : v.Keeps programs plain w.path)
    (hdisk : t.machine.disk = s.machine.disk) (hdirectory : t.machine.directory = s.machine.directory)
    (hshown : v.Decrypts programs s.machine w.expression w.path document)
    (hcache : t.cache = s.cache.insert (cacheKey w.expression.uri) document) :
    v.Consistent plain m events t := by
  have hheld := holds_of_decrypts hv hshown
  refine hs.keep hasked hdirectory ?_ hcache (isReadable_of_decrypts hshown)
    (hheld.congr hdisk hdirectory) rfl ?_
  · rw [hdisk]
    exact Disk.SameShape.refl _
  · intro w' _ _ old hold
    exact hold.congr hdisk hdirectory

theorem Consistent.serve_error {fault : VaultError} (hs : v.Consistent plain m events s)
    (hasked : v.Asked m events w) (hv : v.Keeps programs plain w.path)
    (h : outcome (v.serve programs mode w) s = (.error fault, t)) :
    v.Consistent plain m events t ∧ Extends plain s.machine t.machine := by
  obtain ⟨hfollows, hdisk, hkept⟩ := SopsEnv.serve_error hv.confined hasked.isAbsolute h
  refine ⟨?_, Extends.of_same hdisk hfollows.directory⟩
  rcases hkept with hcache | ⟨hnew, document, hshown, hcache⟩
  · exact hs.of_same hdisk hfollows.directory hcache
  · rw [← Cache.insert_of_get?_none document hnew] at hcache
    exact hs.keep_shown hasked hv hdisk hfollows.directory hshown hcache

theorem Consistent.load {document : Document} (hs : v.Consistent plain m events s)
    (hasked : v.Asked m events w) (hv : v.Keeps programs plain w.path)
    (h : outcome (v.load programs mode w.expression w.path) s = (.ok document, t)) :
    v.Consistent plain m events t ∧ t.machine.disk = s.machine.disk ∧
      t.machine.directory = s.machine.directory ∧
      t.cache.get? (cacheKey w.expression.uri) = some document := by
  obtain ⟨hfollows, hdisk⟩ := load_disk hv.confined h
  rcases load_cases h with ⟨kept, hkept, hresult, rfl⟩ |
    ⟨-, -, -, ⟨⟨_, hresult⟩, -⟩ | ⟨shown, hresult, hshown, hcache⟩⟩
  · obtain rfl := Except.ok.inj hresult
    exact ⟨hs, rfl, rfl, hkept⟩
  · contradiction
  · obtain rfl := Except.ok.inj hresult
    refine ⟨hs.keep_shown hasked hv hdisk hfollows.directory hshown hcache, hdisk,
      hfollows.directory, ?_⟩
    rw [hcache, Cache.get?_insert_self]

theorem Consistent.held {document : Document} (hs : v.Consistent plain m events s)
    (hasked : v.Asked m events w)
    (hkept : s.cache.get? (cacheKey w.expression.uri) = some document) :
    (∀ node ∈ document.nodes, node.IsReadable) ∧
      ∃ held, Holds plain s.machine w.path held ∧ held.entries = document.entries := by
  obtain ⟨hreadable, w', held, hasked', hkey, hheld, hentries⟩ := hs.kept _ document hkept
  rw [hasked'.path_eq hasked hkey] at hheld
  exact ⟨hreadable, held, hheld, hentries⟩

theorem Consistent.create {document : Document} {draws : Draws} {u : Store} {value : String}
    (hs : v.Consistent plain m events s) (hkeys : v.OneKeyPerFile m events)
    (hasked : v.Asked m events w) (hv : v.Keeps programs plain w.path)
    (hkept : s.cache.get? (cacheKey w.expression.uri) = some document)
    (hnew : document.get? w.entry = none)
    (h : outcome (v.encrypt programs w.expression w.path (document.set w.entry value))
      { s with machine := { s.machine with draws } } = (.ok (), u))
    (ht : t = { u with
      cache := u.cache.insert (cacheKey w.expression.uri) (document.set w.entry value) }) :
    v.Consistent plain m events t ∧ Extends plain s.machine t.machine ∧
      ∃ held, Holds plain t.machine w.path held ∧ held.get? w.entry = some value := by
  subst ht
  obtain ⟨hreadable, old, hold, hentries⟩ := hs.held hasked hkept
  have hupdated := Document.isReadable_set value hreadable (hasked.isReadable value)
  have hset := Document.entries_set value hnew
  obtain ⟨hcache, hdirectory, hshape, place, hlocate, ⟨held, hwritten, hthere⟩, helsewhere⟩ :=
    encrypt_holds hv hasked.isAbsolute hupdated h
  refine ⟨?_, ?_, held, hthere w.path hlocate, ?_⟩
  · refine hs.keep hasked hdirectory hshape ?_ hupdated (hthere w.path hlocate) hwritten ?_
    · dsimp only
      rw [hcache]
    · intro w' hasked' hkey old' hold'
      apply helsewhere w'.path old' _ (hold'.congr rfl rfl)
      intro hlocate'
      exact hkey (hkeys w' w place hasked' hasked (hs.locate hlocate') (hs.locate hlocate))
  · intro path before hbefore
    by_cases hpath : s.machine.disk.locate s.machine.directory path = .ok place
    · refine ⟨held, hthere path hpath, ?_⟩
      rw [(hbefore.of_locate hpath hlocate).unique hold, hentries, hwritten, hset]
      exact List.prefix_append _ _
    · exact ⟨before, helsewhere path before hpath (hbefore.congr rfl rfl), List.prefix_rfl⟩
  · rw [Document.get?_congr hwritten]
    exact Document.get?_of_entries_append value hset hnew

theorem Consistent.serve_ok {value : String} (hs : v.Consistent plain m events s)
    (hkeys : v.OneKeyPerFile m events) (hasked : v.Asked m events w)
    (hv : v.Keeps programs plain w.path)
    (h : outcome (v.serve programs mode w) s = (.ok value, t)) :
    v.Consistent plain m events t ∧ Extends plain s.machine t.machine ∧
      ∃ held, Holds plain t.machine w.path held ∧ held.get? w.entry = some value := by
  obtain ⟨document, u, hload, hafter⟩ := serve_ok_cases h
  obtain ⟨hu, hdisk, hdirectory, hkept⟩ := hs.load hasked hv hload
  rcases hafter with ⟨hvalue, rfl⟩ | ⟨hnew, draws, u', hencrypt, ht⟩
  · obtain ⟨-, held, hheld, hentries⟩ := hu.held hasked hkept
    refine ⟨hu, Extends.of_same hdisk hdirectory, held, hheld, ?_⟩
    rw [Document.get?_congr hentries, hvalue]
  · obtain ⟨ht', hextends, hheld⟩ := hu.create hkeys hasked hv hkept hnew hencrypt ht
    exact ⟨ht', (Extends.of_same hdisk hdirectory).trans hextends, hheld⟩

theorem Consistent.wanted_eq (hs : v.Consistent plain m events s) (args : List String) :
    v.wanted (v.home s.machine) args = v.wanted (v.home m) args := by
  rw [home_congr hs.directory]

theorem Consistent.step {event : Event} (hs : v.Consistent plain m events s)
    (hkeys : v.OneKeyPerFile m events)
    (hv : ∀ w, v.Asked m events w → v.Keeps programs plain w.path) (hevent : event ∈ events) :
    v.Consistent plain m events (v.step programs s event) ∧
      Extends plain s.machine (v.step programs s event).machine := by
  cases event with
  | signal aborted => exact ⟨hs.of_same rfl rfl rfl, Extends.of_same rfl rfl⟩
  | renew =>
    refine ⟨⟨hs.directory, hs.shape, ?_⟩, Extends.of_same rfl rfl⟩
    intro key document hkept
    contradiction
  | request mode args =>
    unfold SopsEnv.step
    rcases hrun : outcome (v.answer programs mode args) s with ⟨result, t⟩
    dsimp only
    rw [hrun]
    rcases answer_cases hrun with ⟨-, rfl⟩ | ⟨w, hwanted, hserve⟩
    · exact ⟨hs, Extends.of_same rfl rfl⟩
    · rw [hs.wanted_eq] at hwanted
      have hasked : v.Asked m events w := ⟨mode, args, hevent, hwanted⟩
      cases result with
      | error fault => exact hs.serve_error hasked (hv w hasked) hserve
      | ok value =>
        obtain ⟨ht, hextends, -⟩ := hs.serve_ok hkeys hasked (hv w hasked) hserve
        exact ⟨ht, hextends⟩

theorem Consistent.run {todo : List Event} (hs : v.Consistent plain m events s)
    (hkeys : v.OneKeyPerFile m events)
    (hv : ∀ w, v.Asked m events w → v.Keeps programs plain w.path)
    (htodo : todo ⊆ events) :
    v.Consistent plain m events (v.run programs s todo) ∧
      Extends plain s.machine (v.run programs s todo).machine := by
  induction todo generalizing s with
  | nil => exact ⟨hs, Extends.of_same rfl rfl⟩
  | cons event todo ih =>
    obtain ⟨hnext, hextends⟩ := hs.step hkeys hv (htodo List.mem_cons_self)
    obtain ⟨hlast, hmore⟩ := ih hnext (List.subset_of_cons_subset htodo)
    exact ⟨hlast, hextends.trans hmore⟩

theorem consistent_of_empty (hcache : s.cache = []) : v.Consistent plain s.machine events s := by
  refine ⟨rfl, Disk.SameShape.refl _, ?_⟩
  intro key document hkept
  rw [hcache] at hkept
  contradiction

theorem serve_of_answer (hwanted : v.wanted (v.home s.machine) args = .ok w)
    (h : (outcome (v.answer programs mode args) s).1 = .ok value) :
    outcome (v.serve programs mode w) s = (.ok value, v.step programs s (.request mode args)) := by
  rcases hrun : outcome (v.answer programs mode args) s with ⟨result, t⟩
  rw [hrun] at h
  obtain rfl : result = .ok value := h
  have hstep : v.step programs s (.request mode args) = t := congrArg Prod.snd hrun
  rw [hstep]
  rcases answer_cases hrun with ⟨⟨_, hresult⟩, -⟩ | ⟨w', hwanted', hserve⟩
  · cases hresult
  · rw [hwanted] at hwanted'
    obtain rfl := Except.ok.inj hwanted'
    exact hserve

theorem Consistent.answer_ok {args : List String} {value : String}
    (hs : v.Consistent plain m events s) (hkeys : v.OneKeyPerFile m events)
    (hv : ∀ w, v.Asked m events w → v.Keeps programs plain w.path)
    (hevent : .request mode args ∈ events) (hwanted : v.wanted (v.home m) args = .ok w)
    (h : (outcome (v.answer programs mode args) s).1 = .ok value) :
    v.Consistent plain m events (v.step programs s (.request mode args)) ∧
      Extends plain s.machine (v.step programs s (.request mode args)).machine ∧
      ∃ held, Holds plain (v.step programs s (.request mode args)).machine w.path held ∧
        held.get? w.entry = some value := by
  have hasked : v.Asked m events w := ⟨mode, args, hevent, hwanted⟩
  rw [← hs.wanted_eq] at hwanted
  exact hs.serve_ok hkeys hasked (hv w hasked) (serve_of_answer hwanted h)

theorem Consistent.same_value {mode₁ mode₂ : Mode} {args₁ args₂ : List String}
    {between : List Event} {w₁ w₂ : Wanted} {value₁ value₂ : String} {place : Place}
    (hs : v.Consistent plain m events s) (hkeys : v.OneKeyPerFile m events)
    (hv : ∀ w, v.Asked m events w → v.Keeps programs plain w.path)
    (hfirst : .request mode₁ args₁ ∈ events) (hbetween : between ⊆ events)
    (hlater : .request mode₂ args₂ ∈ events)
    (hwanted₁ : v.wanted (v.home m) args₁ = .ok w₁) (hwanted₂ : v.wanted (v.home m) args₂ = .ok w₂)
    (hplace₁ : m.disk.locate m.directory w₁.path = .ok place)
    (hplace₂ : m.disk.locate m.directory w₂.path = .ok place) (hentry : w₁.entry = w₂.entry)
    (h₁ : (outcome (v.answer programs mode₁ args₁) s).1 = .ok value₁)
    (h₂ : (outcome (v.answer programs mode₂ args₂)
      (v.run programs s (.request mode₁ args₁ :: between))).1 = .ok value₂) :
    value₂ = value₁ := by
  obtain ⟨hgiven, -, held, hheld, hvalue⟩ := hs.answer_ok hkeys hv hfirst hwanted₁ h₁
  obtain ⟨hnow, hextends⟩ := hgiven.run hkeys hv hbetween
  obtain ⟨hlast, hmore, found, hfound, hvalue₂⟩ := hnow.answer_ok hkeys hv hlater hwanted₂ h₂
  obtain ⟨later, hheldLater, hprefix⟩ := hextends.trans hmore w₁.path held hheld
  have hlocate : ∀ {path : Path}, m.disk.locate m.directory path = .ok place →
      ∀ {u : Store}, v.Consistent plain m events u →
        u.machine.disk.locate u.machine.directory path = .ok place := by
    intro path hpath u hu
    rw [hu.directory]
    exact Disk.locate_of_sameShape hu.shape hpath
  have hsame := (hheldLater.of_locate (hlocate hplace₁ hlast) (hlocate hplace₂ hlast)).unique hfound
  have hstill := Document.get?_of_prefix hprefix hvalue
  rw [hsame, hentry, hvalue₂] at hstill
  exact Option.some.inj hstill

/-- Secrets endure: at every moment what is kept of a file has the entries that the file
holds, no entry is ever lost or moved, and a value that was given is given again. -/
theorem secrets_endure (hv : ∀ w, v.Asked s.machine events w → v.Keeps programs plain w.path)
    (hkeys : v.OneKeyPerFile s.machine events) (hcache : s.cache = []) :
    (∀ before after, events = before ++ after →
      ∀ key document, (v.run programs s before).cache.get? key = some document →
        ∃ w held, v.Asked s.machine events w ∧ cacheKey w.expression.uri = key ∧
          Holds plain (v.run programs s before).machine w.path held ∧
          held.entries = document.entries) ∧
    (∀ before between after, events = before ++ (between ++ after) →
      Extends plain (v.run programs s before).machine
        (v.run programs s (before ++ between)).machine) ∧
    ∀ before mode₁ args₁ between mode₂ args₂ after w₁ w₂ value₁ value₂ place,
      events = before ++ .request mode₁ args₁ :: (between ++ .request mode₂ args₂ :: after) →
      v.wanted (v.home s.machine) args₁ = .ok w₁ → v.wanted (v.home s.machine) args₂ = .ok w₂ →
      s.machine.disk.locate s.machine.directory w₁.path = .ok place →
      s.machine.disk.locate s.machine.directory w₂.path = .ok place → w₁.entry = w₂.entry →
      (outcome (v.answer programs mode₁ args₁) (v.run programs s before)).1 = .ok value₁ →
      (outcome (v.answer programs mode₂ args₂)
        (v.run programs s (before ++ .request mode₁ args₁ :: between))).1 = .ok value₂ →
      value₂ = value₁ := by
  have hstart : v.Consistent plain s.machine events s := consistent_of_empty hcache
  refine ⟨?_, ?_, ?_⟩
  · intro before after hsplit key document hkept
    have hbefore : before ⊆ events := hsplit ▸ List.subset_append_left _ _
    exact ((hstart.run hkeys hv hbefore).1.kept key document hkept).2
  · intro before between after hsplit
    have hbefore : before ⊆ events := hsplit ▸ List.subset_append_left _ _
    have hrest : between ++ after ⊆ events := hsplit ▸ List.subset_append_right _ _
    rw [run_append]
    exact ((hstart.run hkeys hv hbefore).1.run hkeys hv
      (List.Subset.trans (List.subset_append_left _ _) hrest)).2
  · intro before mode₁ args₁ between mode₂ args₂ after w₁ w₂ value₁ value₂ place hsplit
      hwanted₁ hwanted₂ hplace₁ hplace₂ hentry h₁ h₂
    have hbefore : before ⊆ events := hsplit ▸ List.subset_append_left _ _
    have hbetween : between ⊆ events := by
      intro event hevent
      rw [hsplit]
      simp [hevent]
    have hfirst : .request mode₁ args₁ ∈ events := by
      rw [hsplit]
      simp
    have hlater : .request mode₂ args₂ ∈ events := by
      rw [hsplit]
      simp
    rw [run_append] at h₂
    exact (hstart.run hkeys hv hbefore).1.same_value hkeys hv hfirst hbetween hlater hwanted₁
      hwanted₂ hplace₁ hplace₂ hentry h₁ h₂

def keptFile : Store :=
  { machine := { disk := { items :=
      [(Disk.placeOf (Path.ofString "/a.env"), .file "sealed # kept\r\nKEPT='1'\n")] } } }

def makeToken : List String :=
  ["secret", "sops-env:///a.env", "--name", "a token", "--chars", "x", "--size", "3", "--create"]

def readToken : List String :=
  ["secret", "sops-env:///a.env?name=A-TOKEN", "--sops-config", ""]

def tokenEvents : List Event :=
  [.request .blocking makeToken, .renew, .request .cooperative readToken]

theorem wanted_token {args : List String} (hargs : args = makeToken ∨ args = readToken) :
    ∃ w, ({} : SopsEnv).wanted (({} : SopsEnv).home keptFile.machine) args = .ok w ∧
      w.path = Path.ofString "/a.env" ∧ w.entry = "A_TOKEN" ∧
      cacheKey w.expression.uri = "sops-env:///a.env" := by
  have hseen : (({} : SopsEnv).wanted (({} : SopsEnv).home keptFile.machine) args).toOption.map
      (fun w => (w.path, w.entry, cacheKey w.expression.uri)) =
        some (Path.ofString "/a.env", "A_TOKEN", "sops-env:///a.env") := by
    rcases hargs with rfl | rfl
    · decide +kernel
    · decide +kernel
  obtain ⟨w, hwanted, hseen⟩ := exists_wanted hseen
  obtain ⟨hpath, hrest⟩ := Prod.mk.inj hseen
  obtain ⟨hentry, hkey⟩ := Prod.mk.inj hrest
  exact ⟨w, hwanted, hpath, hentry, hkey⟩

theorem asked_token {w : Wanted} (hw : ({} : SopsEnv).Asked keptFile.machine tokenEvents w) :
    w.path = Path.ofString "/a.env" ∧ cacheKey w.expression.uri = "sops-env:///a.env" := by
  obtain ⟨mode, args, hmem, hwanted⟩ := hw
  have hargs : args = makeToken ∨ args = readToken := by
    simp only [tokenEvents, List.mem_cons, Event.request.injEq, List.not_mem_nil, or_false,
      reduceCtorEq, false_or] at hmem
    exact hmem.imp And.right And.right
  obtain ⟨w', hwanted', hpath, -, hkey⟩ := wanted_token hargs
  rw [hwanted] at hwanted'
  obtain rfl := Except.ok.inj hwanted'
  exact ⟨hpath, hkey⟩

theorem secrets_endure_renewed :
    ∃ value, (outcome (({} : SopsEnv).answer markingTool .blocking makeToken) keptFile).1 =
        .ok value ∧
      (outcome (({} : SopsEnv).answer markingTool .cooperative readToken)
        (({} : SopsEnv).run markingTool keptFile [.request .blocking makeToken, .renew])).1 =
        .ok value := by
  have hmade : (outcome (({} : SopsEnv).answer markingTool .blocking makeToken)
      keptFile).1.toOption.isSome := by
    decide +kernel
  have hread : (outcome (({} : SopsEnv).answer markingTool .cooperative readToken)
      (({} : SopsEnv).run markingTool keptFile [.request .blocking makeToken, .renew])).1.toOption.isSome := by
    decide +kernel
  obtain ⟨made, hmade⟩ := Option.isSome_iff_exists.1 hmade
  obtain ⟨value, hread⟩ := Option.isSome_iff_exists.1 hread
  have hmade := Effect.eq_ok_of_toOption hmade
  have hread := Effect.eq_ok_of_toOption hread
  have hv : ∀ w, ({} : SopsEnv).Asked keptFile.machine tokenEvents w →
      ({} : SopsEnv).Keeps markingTool unmarked? w.path := by
    intro w hw
    rw [(asked_token hw).1]
    exact keeps_markingTool (by decide +kernel)
  have hkeys : ({} : SopsEnv).OneKeyPerFile keptFile.machine tokenEvents := by
    intro w₁ w₂ _ hw₁ hw₂ _ _
    rw [(asked_token hw₁).2, (asked_token hw₂).2]
  obtain ⟨w₁, hw₁, hpath₁, hentry₁, -⟩ := wanted_token (Or.inl rfl)
  obtain ⟨w₂, hw₂, hpath₂, hentry₂, -⟩ := wanted_token (Or.inr rfl)
  have hplace : keptFile.machine.disk.locate keptFile.machine.directory (Path.ofString "/a.env") =
      .ok [utf8 "a.env".toList] := by
    rfl
  have hsame := (secrets_endure hv hkeys rfl).2.2 [] .blocking makeToken [.renew] .cooperative
    readToken [] w₁ w₂ made value _ rfl hw₁ hw₂ (hpath₁ ▸ hplace) (hpath₂ ▸ hplace)
    (hentry₁.trans hentry₂.symm) hmade hread
  rw [hsame] at hread
  exact ⟨made, hmade, hread⟩

end SecretDotenv.Secret.SopsEnv
