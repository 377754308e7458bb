import SecretDotenv.Proofs.Machine.Backup
import SecretDotenv.Proofs.Machine.CommandRun
import SecretDotenv.Proofs.Secret.Outcome
import SecretDotenv.Secret.SopsEnv

/-! What the two commands of a vault of files do to its state, for each way in which
they can end. -/
namespace SecretDotenv.Secret.SopsEnv

open SecretDotenv.Text SecretDotenv.Machine SecretDotenv.Dotenv
open Effect (outcome outcome_bind_ok outcome_bind_error outcome_bind_cases)

variable {v : SopsEnv} {programs : Programs} {mode : Mode} {e : Expression} {path : Path}
  {s t : Store}

def decryption (v : SopsEnv) (m : Machine) (e : Expression) (path : Path) : Command :=
  v.command (v.settings m e path) ["-d"] path

def encryption (v : SopsEnv) (m : Machine) (e : Expression) (path : Path) : Command :=
  v.command (v.settings m e path) ["-e", "-i"] path

def shownDocument (path : Path) : Except CommandError Output → Except VaultError Document
  | .error error => .error (.command error)
  | .ok output =>
    if !output.success then .error (.undecryptable path output.stderr)
    else if isBlankText output.stdout then .error .noContent
    else match Document.parse output.stdout with
      | .ok document => .ok document
      | .error error => .error (.noDocument path error)

theorem outcome_decrypt (v : SopsEnv) (programs : Programs) (e : Expression) (path : Path)
    (s : Store) :
    outcome (v.decrypt programs e path) s =
      if s.machine.disk.isFile s.machine.directory path then
        let (finished, m) := s.machine.run programs (v.decryption s.machine e path) none
        (shownDocument path finished, { s with machine := m })
      else (.error (.noFile path), s) := by
  unfold decrypt
  rw [outcome_bind_ok _ (Effect.outcome_get s)]
  by_cases hfile : s.machine.disk.isFile s.machine.directory path
  · rw [if_pos hfile]
    simp only [hfile, Bool.not_true, Bool.false_eq_true, if_false, setMachine, decryption]
    rcases s.machine.run programs (v.command (v.settings s.machine e path) ["-d"] path) none with
      ⟨finished, m⟩
    dsimp only
    rw [outcome_bind_ok _ (Effect.outcome_modify _ s)]
    cases finished with
    | error error => rfl
    | ok output =>
      unfold shownDocument
      dsimp only
      split
      · rfl
      · split
        · rfl
        · cases Document.parse output.stdout <;> rfl
  · rw [if_neg hfile]
    simp only [hfile, Bool.not_false, if_true]
    rfl

/-- The tool shows a text for a file, and the text is this document. -/
def Decrypts (v : SopsEnv) (programs : Programs) (m : Machine) (e : Expression) (path : Path)
    (document : Document) : Prop :=
  m.disk.isFile m.directory path ∧
    ∃ reply, programs m (v.decryption m e path) = some reply ∧ reply.output.success ∧
      Document.parse reply.output.stdout = .ok document

theorem shownDocument_eq_ok_iff {finished : Except CommandError Output} {document : Document} :
    shownDocument path finished = .ok document ↔
      ∃ output, finished = .ok output ∧ output.success ∧ ¬isBlankText output.stdout ∧
        Document.parse output.stdout = .ok document := by
  cases finished with
  | error error => simp [shownDocument]
  | ok output =>
    unfold shownDocument
    dsimp only
    split
    · next hfailure => simp_all
    · split
      · next hblank => simp [hblank]
      · cases hparse : Document.parse output.stdout <;> simp_all

theorem decrypt_cases {result : Except VaultError Document}
    (h : outcome (v.decrypt programs e path) s = (result, t)) :
    t.cache = s.cache ∧ s.machine.Follows t.machine ∧
      (t.machine.disk = s.machine.disk ∨
        ∃ reply, programs s.machine (v.decryption s.machine e path) = some reply ∧
          t.machine.disk = reply.disk) ∧
      ∀ document, result = .ok document → v.Decrypts programs s.machine e path document := by
  rw [outcome_decrypt] at h
  by_cases hfile : s.machine.disk.isFile s.machine.directory path
  · rw [if_pos hfile] at h
    rcases hrun : s.machine.run programs (v.decryption s.machine e path) none with ⟨finished, m⟩
    rw [hrun] at h
    obtain ⟨rfl, rfl⟩ := Prod.mk.inj h
    refine ⟨rfl, follows_run hrun, ?_, ?_⟩
    · rcases run_cases hrun with ⟨reason, -, rfl⟩ | ⟨reply, hreply, rfl, -⟩
      · exact Or.inl rfl
      · exact Or.inr ⟨reply, hreply, rfl⟩
    · intro document hdocument
      obtain ⟨output, hfinished, hsuccess, -, hparse⟩ := shownDocument_eq_ok_iff.1 hdocument
      rcases run_cases hrun with ⟨reason, hresult, -⟩ | ⟨reply, hreply, -, hresult⟩
      · rw [hfinished] at hresult
        contradiction
      · rcases hresult with hresult | ⟨ms, hlimit, -, -⟩
        · rw [hfinished] at hresult
          obtain rfl := Except.ok.inj hresult
          exact ⟨hfile, reply, hreply, hsuccess, hparse⟩
        · contradiction
  · rw [if_neg hfile] at h
    obtain ⟨rfl, rfl⟩ := Prod.mk.inj h
    refine ⟨rfl, Follows.refl _, Or.inl rfl, ?_⟩
    intro document hdocument
    contradiction

/-- What a tool may do to the disk: nothing, or give the file some text. -/
def WritesOnly (m : Machine) (path : Path) (reply : Reply) : Prop :=
  reply.disk = m.disk ∨ ∃ text, m.disk.write m.directory path text = .ok reply.disk

/-- Showing a file writes nothing, and what fails to encrypt it damages no other file. -/
structure Confined (v : SopsEnv) (programs : Programs) (path : Path) : Prop where
  shows : ∀ m settings reply,
    programs m (v.command settings ["-d"] path) = some reply → reply.disk = m.disk
  fails : ∀ m settings reply,
    programs m (v.command settings ["-e", "-i"] path) = some reply → ¬reply.output.success →
      WritesOnly m path reply

theorem writeEncrypted_cases {content : String} {m n : Machine} {disk : Disk}
    {ended : Except EncryptError Unit} (hwrite : m.disk.write m.directory path content = .ok disk)
    (h : v.writeEncrypted programs e path content m = (ended, n)) :
    m.Follows n ∧
      ((∃ error, ended = .error error ∧ n.disk = disk) ∨
        ∃ reply, programs { m with disk } (v.encryption m e path) = some reply ∧
          n.disk = reply.disk ∧
            (reply.output.success ∧ ended = .ok () ∨
              ¬reply.output.success ∧ ∃ error, ended = .error error)) := by
  unfold writeEncrypted at h
  rw [hwrite] at h
  dsimp only at h
  rcases hrun : Machine.run programs (v.encryption m e path) none { m with disk } with
    ⟨finished, after⟩
  have hfollows : m.Follows after :=
    Follows.trans (n := { m with disk }) ⟨rfl, rfl, id⟩ (follows_run hrun)
  unfold encryption at hrun
  rw [hrun] at h
  rcases run_cases hrun with ⟨reason, rfl, rfl⟩ | ⟨reply, hreply, rfl, hresult⟩
  · obtain ⟨rfl, rfl⟩ := Prod.mk.inj h
    exact ⟨hfollows, Or.inl ⟨_, rfl, rfl⟩⟩
  · rcases hresult with rfl | ⟨ms, hlimit, -, -⟩
    · dsimp only at h
      split at h
      · next hsuccess =>
        obtain ⟨rfl, rfl⟩ := Prod.mk.inj h
        exact ⟨hfollows, Or.inr ⟨reply, hreply, rfl, Or.inl ⟨hsuccess, rfl⟩⟩⟩
      · next hfailure =>
        obtain ⟨rfl, rfl⟩ := Prod.mk.inj h
        exact ⟨hfollows, Or.inr ⟨reply, hreply, rfl, Or.inr ⟨hfailure, _, rfl⟩⟩⟩
    · contradiction

def backupOf (m : Machine) (path : Path) : Path :=
  m.disk.freshPath m.directory ((directoryOf path).getD (Path.ofString ".")) ".dotvault-backup-"

theorem isName_backup : Disk.IsName ".dotvault-backup-" := by
  unfold Disk.IsName
  decide

/-- Before the copy lies there, a failure has changed nothing; behind it, the text was
written and given to the tool. -/
theorem encrypt_cases {document : Document} {result : Except VaultError Unit}
    (h : outcome (v.encrypt programs e path document) s = (result, t)) :
    ((∃ fault, result = .error fault) ∧ t = s) ∨
      ∃ place beside old ended m,
        s.machine.disk.Backup s.machine.directory path (backupOf s.machine path) place beside old ∧
          v.writeEncrypted programs e path document.write
            { s.machine with disk := s.machine.disk.put beside (.file old) } = (ended, m) ∧
          (ended = .ok () ∧ result = .ok () ∧
              t = { s with machine :=
                { m with disk := m.disk.remove m.directory (backupOf s.machine path) } } ∨
            (∃ error, ended = .error error) ∧ (∃ fault, result = .error fault) ∧
              (∃ disk, t = { s with machine := { m with disk } }) ∧
              ∀ disk, m.disk.copy m.directory (backupOf s.machine path) path = .ok disk →
                t = { s with machine :=
                  { m with disk := disk.remove m.directory (backupOf s.machine path) } }) := by
  unfold encrypt at h
  dsimp only at h
  split at h
  · obtain ⟨rfl, rfl⟩ := Prod.mk.inj h
    exact Or.inl ⟨⟨_, rfl⟩, rfl⟩
  · rw [outcome_bind_ok _ (Effect.outcome_get s)] at h
    split at h
    · obtain ⟨rfl, rfl⟩ := Prod.mk.inj h
      exact Or.inl ⟨⟨_, rfl⟩, rfl⟩
    · next disk hcopy =>
      obtain ⟨place, beside, old, hbackup, rfl⟩ := Disk.backup_of_copy isName_backup hcopy
      refine Or.inr ⟨place, beside, old, ?_⟩
      rcases hwrite : v.writeEncrypted programs e path document.write
        { s.machine with disk := s.machine.disk.put beside (.file old) } with ⟨ended, m⟩
      refine ⟨ended, m, hbackup, rfl, ?_⟩
      rw [hwrite] at h
      dsimp only at h
      cases ended with
      | ok =>
        obtain ⟨rfl, rfl⟩ := Prod.mk.inj h
        exact Or.inl ⟨rfl, rfl, rfl⟩
      | error error =>
        dsimp only at h
        refine Or.inr ⟨⟨error, rfl⟩, ?_⟩
        split at h
        · next restored hrestore =>
          obtain ⟨rfl, rfl⟩ := Prod.mk.inj h
          refine ⟨⟨_, rfl⟩, ⟨_, rfl⟩, ?_⟩
          intro disk hdisk
          unfold backupOf at hdisk
          rw [hrestore] at hdisk
          rw [Except.ok.inj hdisk]
          rfl
        · next reason hrestore =>
          obtain ⟨rfl, rfl⟩ := Prod.mk.inj h
          refine ⟨⟨_, rfl⟩, ⟨m.disk, rfl⟩, ?_⟩
          intro disk hdisk
          unfold backupOf at hdisk
          rw [hrestore] at hdisk
          contradiction

/-- A failure to encrypt leaves the disk as it was: the restore that follows it works,
for the copy is there and the file can be written. -/
theorem encrypt_error {document : Document} {fault : VaultError} (hv : v.Confined programs path)
    (habsolute : path.isAbsolute)
    (h : outcome (v.encrypt programs e path document) s = (.error fault, t)) :
    t.cache = s.cache ∧ s.machine.Follows t.machine ∧ t.machine.disk = s.machine.disk := by
  rcases encrypt_cases h with ⟨-, rfl⟩ |
    ⟨place, beside, old, ended, m, hbackup, hwritten, ⟨-, hresult, -⟩ | ⟨⟨error, rfl⟩, -, -, ht⟩⟩
  · exact ⟨rfl, Follows.refl _, rfl⟩
  · contradiction
  · have hwrite := hbackup.write_first habsolute document.write
    obtain ⟨hfollows, hreply⟩ := writeEncrypted_cases hwrite hwritten
    -- whatever happened, at most the text of the file is another
    have hdisk : ∃ text,
        m.disk = (s.machine.disk.put beside (.file old)).put place (.file text) := by
      rcases hreply with ⟨-, -, hdisk⟩ | ⟨reply, hreply, hdisk, ⟨-, hok⟩ | ⟨hfailure, -⟩⟩
      · exact ⟨document.write, hdisk⟩
      · contradiction
      · rcases hv.fails _ _ _ hreply hfailure with hsame | ⟨text, htext⟩
        · exact ⟨document.write, hdisk.trans hsame⟩
        · have hagain := hbackup.write_path habsolute document.write text
          rw [hagain] at htext
          exact ⟨text, hdisk.trans (Except.ok.inj htext).symm⟩
    obtain ⟨text, hdisk⟩ := hdisk
    have hdirectory : m.directory = s.machine.directory := hfollows.directory
    have hcopy : m.disk.copy m.directory (backupOf s.machine path) path =
        .ok (s.machine.disk.put beside (.file old)) := by
      rw [hdisk, hdirectory]
      exact hbackup.restore habsolute text
    obtain rfl := ht _ hcopy
    refine ⟨rfl, ⟨hfollows.environment, hfollows.directory, hfollows.aborted⟩, ?_⟩
    dsimp only
    rw [hdirectory]
    exact hbackup.remove

theorem encrypt_ok {document : Document} (habsolute : path.isAbsolute)
    (h : outcome (v.encrypt programs e path document) s = (.ok (), t)) :
    t.cache = s.cache ∧ s.machine.Follows t.machine ∧
      ∃ place old m settings reply,
        s.machine.disk.locate s.machine.directory path = .ok place ∧
          s.machine.disk.item? place = some (.file old) ∧
          programs m (v.command settings ["-e", "-i"] path) = some reply ∧ reply.output.success ∧
          m.disk.read m.directory path = .ok document.write ∧
          ∀ text, m.disk.write m.directory path text = .ok reply.disk →
            t.machine.disk = s.machine.disk.put place (.file text) := by
  rcases encrypt_cases h with ⟨⟨fault, hfault⟩, -⟩ |
    ⟨place, beside, old, ended, m, hbackup, hwritten, ⟨rfl, -, rfl⟩ | ⟨-, ⟨fault, hfault⟩, -⟩⟩
  · contradiction
  · have hwrite := hbackup.write_first habsolute document.write
    obtain ⟨hfollows, hreply⟩ := writeEncrypted_cases hwrite hwritten
    refine ⟨rfl, ⟨hfollows.environment, hfollows.directory, hfollows.aborted⟩, ?_⟩
    rcases hreply with ⟨error, hok, -⟩ | ⟨reply, hreply, hdisk, ⟨hsuccess, -⟩ | ⟨-, error, hok⟩⟩
    · contradiction
    · refine ⟨place, old, _, _, reply, hbackup.located, hbackup.holds, hreply, hsuccess, ?_, ?_⟩
      · exact hbackup.read_path _
      · intro text htext
        have hagain := hbackup.write_path habsolute document.write text
        have hwritten := hagain.symm.trans htext
        have hdirectory : m.directory = s.machine.directory := hfollows.directory
        dsimp only
        rw [hdisk, ← Except.ok.inj hwritten, hdirectory]
        exact hbackup.remove_written text
    · contradiction
  · contradiction

end SecretDotenv.Secret.SopsEnv
