import SecretDotenv.Proofs.Secret.FileRequests

/-! A request that fails leaves the files as they were. What it may leave behind in
memory is a document that was decrypted on the way. -/
namespace SecretDotenv.Secret.SopsEnv

open SecretDotenv.Text SecretDotenv.Machine SecretDotenv.Dotenv
open Effect (outcome outcome_bind_ok outcome_bind_cases)

variable {v : SopsEnv} {programs : Programs} {mode : Mode} {s t : Store} {fault : VaultError}

/-- The kept documents afterwards are those from before, and at most one that the tool
showed for the file of this request. -/
def KeepsOrShows (v : SopsEnv) (programs : Programs) (w : Wanted) (s t : Store) : Prop :=
  t.cache = s.cache ∨
    s.cache.get? (cacheKey w.expression.uri) = none ∧
      ∃ document, v.Decrypts programs s.machine w.expression w.path document ∧
        t.cache = s.cache ++ [(cacheKey w.expression.uri, document)]

theorem load_disk {e : Expression} {path : Path} {result : Except VaultError Document}
    (hv : v.Confined programs path) (h : outcome (v.load programs mode e path) s = (result, t)) :
    s.machine.Follows t.machine ∧ t.machine.disk = s.machine.disk := by
  rcases load_cases h with ⟨-, -, -, rfl⟩ | ⟨-, hfollows, hdisk, -⟩
  · exact ⟨Follows.refl _, rfl⟩
  · refine ⟨hfollows, ?_⟩
    rcases hdisk with hdisk | ⟨reply, hreply, hdisk⟩
    · exact hdisk
    · rw [hdisk, hv.shows _ _ _ hreply]

theorem load_error {w : Wanted}
    (h : outcome (v.load programs mode w.expression w.path) s = (.error fault, t)) :
    v.KeepsOrShows programs w s t := by
  rcases load_cases h with ⟨_, -, hresult, -⟩ | ⟨-, -, -, ⟨-, hcache⟩ | ⟨_, hresult, -⟩⟩
  · contradiction
  · exact Or.inl hcache
  · contradiction

theorem load_ok {w : Wanted} {document : Document}
    (h : outcome (v.load programs mode w.expression w.path) s = (.ok document, t)) :
    v.KeepsOrShows programs w s t := by
  rcases load_cases h with ⟨_, -, -, rfl⟩ | ⟨hnew, -, -, ⟨⟨_, hresult⟩, -⟩ | ⟨shown, -, hshown, hcache⟩⟩
  · exact Or.inl rfl
  · contradiction
  · refine Or.inr ⟨hnew, shown, hshown, ?_⟩
    rw [hcache, Cache.insert_of_get?_none shown hnew]

/-- What follows the document: the failures here change nothing, or are undone. -/
theorem serve_error {w : Wanted} (hv : v.Confined programs w.path) (habsolute : w.path.isAbsolute)
    (h : outcome (v.serve programs mode w) s = (.error fault, t)) :
    s.machine.Follows t.machine ∧ t.machine.disk = s.machine.disk ∧
      v.KeepsOrShows programs w s t := by
  rcases serve_steps h with ⟨_, -, hload⟩ | ⟨document, u, hload, hafter⟩
  · obtain ⟨hfollows, hdisk⟩ := load_disk hv hload
    exact ⟨hfollows, hdisk, load_error hload⟩
  · obtain ⟨hfollows, hdisk⟩ := load_disk hv hload
    have hkept := load_ok hload
    rcases hafter with ⟨⟨_, -, hresult⟩, -⟩ | ⟨-, ⟨-, rfl⟩ | ⟨-, -, hcreate⟩⟩
    · contradiction
    · exact ⟨hfollows, hdisk, hkept⟩
    · rcases createEntry_cases hcreate with ⟨value, draws, ⟨_, -, hencrypt⟩ | ⟨_, hresult, -⟩⟩
      · obtain ⟨hcache, hmore, hsame⟩ := encrypt_error hv habsolute hencrypt
        refine ⟨hfollows.trans ⟨hmore.environment, hmore.directory, hmore.aborted⟩,
          hsame.trans hdisk, ?_⟩
        unfold KeepsOrShows at hkept ⊢
        rwa [hcache]
      · contradiction

/-- A request that fails leaves every file as it was, also those that its command
damaged, and no file that was not there. -/
theorem failed_request_restores {args : List String}
    (hv : ∀ w, v.wanted (v.home s.machine) args = .ok w → v.Confined programs w.path)
    (h : outcome (v.answer programs mode args) s = (.error fault, t)) :
    t.machine.disk = s.machine.disk ∧ s.machine.Follows t.machine ∧
      (t.cache = s.cache ∨
        ∃ w, v.wanted (v.home s.machine) args = .ok w ∧ v.KeepsOrShows programs w s t) := by
  rcases answer_cases h with ⟨-, rfl⟩ | ⟨w, hwanted, hserve⟩
  · exact ⟨rfl, Follows.refl _, Or.inl rfl⟩
  · obtain ⟨hfollows, hdisk, hkept⟩ :=
      serve_error (hv w hwanted) (isAbsolute_of_wanted hwanted) hserve
    exact ⟨hdisk, hfollows, Or.inr ⟨w, hwanted, hkept⟩⟩

def garblingTool : Programs := fun m c =>
  if c.args.contains "-d" then some { output := { stdout := "KEPT=1\n" }, disk := m.disk }
  else match m.disk.write m.directory (Path.ofString "/a.env") "garbled" with
    | .ok disk => some { output := { code := some 2 }, disk }
    | .error _ => none

theorem confined_garblingTool : ({} : SopsEnv).Confined garblingTool (Path.ofString "/a.env") := by
  refine ⟨?_, ?_⟩
  · intro m settings reply h
    have hflag : (({} : SopsEnv).command settings ["-d"] (Path.ofString "/a.env")).args.contains
        "-d" := by
      simp [command]
    rw [garblingTool, if_pos hflag] at h
    rw [← Option.some.inj h]
  · intro m settings reply h _
    unfold garblingTool at h
    split at h
    · exact Or.inl (by rw [← Option.some.inj h])
    · split at h
      · next disk hdisk =>
        refine Or.inr ⟨"garbled", ?_⟩
        rw [hdisk, ← Option.some.inj h]
      · contradiction

def oneFile : Store :=
  { machine := { disk := { items := [(Disk.placeOf (Path.ofString "/a.env"), .file "sealed")] } } }

def newSecret : List String := ["secret", "sops-env:///a.env", "--name", "new", "--create"]

theorem failed_request_restores_garbled :
    (outcome (({} : SopsEnv).answer garblingTool .cooperative newSecret) oneFile).1.toOption = none ∧
      (outcome (({} : SopsEnv).answer garblingTool .cooperative newSecret) oneFile).2.machine.disk =
        oneFile.machine.disk := by
  have hfails : (outcome (({} : SopsEnv).answer garblingTool .cooperative newSecret)
      oneFile).1.toOption = none := by
    decide +kernel
  obtain ⟨fault, hrun⟩ := Effect.outcome_eq_error hfails
  refine ⟨hfails, (failed_request_restores ?_ hrun).1⟩
  intro w hw
  have hfound : ((({} : SopsEnv).wanted (({} : SopsEnv).home oneFile.machine)
      newSecret).toOption.map (·.path)) = some (Path.ofString "/a.env") := by
    decide +kernel
  rw [hw] at hfound
  rw [show w.path = Path.ofString "/a.env" from Option.some.inj hfound]
  exact confined_garblingTool

end SecretDotenv.Secret.SopsEnv
