import SecretDotenv.Proofs.Dotenv.Entries
import SecretDotenv.Proofs.Dotenv.ReadNodes
import SecretDotenv.Proofs.Secret.CacheKey
import SecretDotenv.Proofs.Secret.EntryNames
import SecretDotenv.Proofs.Secret.FailedRequest

/-! One request with a tool that keeps what it is given. The document that a file holds
then only grows, and what is kept in memory has the entries that the file holds. -/
namespace SecretDotenv.Secret.SopsEnv

open SecretDotenv.Text SecretDotenv.Machine SecretDotenv.Dotenv
open Effect (outcome outcome_bind_cases)

/-- A tool shows the text that an encrypted one stands for, and encrypts the text of a
file in place; where it fails to, the file may hold anything. -/
structure Keeps (v : SopsEnv) (programs : Programs) (plain : String → Option String)
    (path : Path) : Prop where
  shows : ∀ m settings reply, programs m (v.command settings ["-d"] path) = some reply →
    reply.disk = m.disk ∧ (reply.output.success →
      ∃ secured, m.disk.read m.directory path = .ok secured ∧
        plain secured = some reply.output.stdout)
  stores : ∀ m settings reply, programs m (v.command settings ["-e", "-i"] path) = some reply →
    (reply.output.success → ∃ text secured, m.disk.read m.directory path = .ok text ∧
      m.disk.write m.directory path secured = .ok reply.disk ∧ plain secured = some text) ∧
    (¬reply.output.success → WritesOnly m path reply)

variable {v : SopsEnv} {programs : Programs} {plain : String → Option String} {path : Path}
  {mode : Mode} {s t : Store} {m n : Machine} {document : Document}

theorem Keeps.confined (hv : v.Keeps programs plain path) : v.Confined programs path :=
  ⟨fun m settings reply h => (hv.shows m settings reply h).1,
    fun m settings reply h => (hv.stores m settings reply h).2⟩

def unmarked? (text : String) : Option String :=
  if "sealed ".toList.isPrefixOf text.toList then some (String.ofList (text.toList.drop 7)) else none

theorem unmarked?_marked (text : String) : unmarked? ("sealed " ++ text) = some text := by
  unfold unmarked?
  rw [String.toList_append, if_pos]
  · exact congrArg some String.ofList_toList
  · exact List.isPrefixOf_iff_prefix.2 (List.prefix_append _ _)

def markingTool : Programs := fun m c =>
  let path := Path.ofString (c.args.getLast?.getD "")
  match m.disk.read m.directory path with
  | .error _ => none
  | .ok text =>
    if c.args.dropLast.getLast? = some "-d" then
      match unmarked? text with
      | some shown => some { output := { stdout := shown }, disk := m.disk }
      | none => some { output := { code := some 1 }, disk := m.disk }
    else
      match m.disk.write m.directory path ("sealed " ++ text) with
      | .ok disk => some { output := {}, disk }
      | .error _ => none

theorem args_command (v : SopsEnv) (settings : Settings) (front : List String) (flag : String)
    (path : Path) :
    (v.command settings (front ++ [flag]) path).args.getLast? = some path.display ∧
      (v.command settings (front ++ [flag]) path).args.dropLast.getLast? = some flag := by
  refine ⟨List.getLast?_concat, ?_⟩
  unfold command
  dsimp only
  rw [List.dropLast_concat, ← List.append_assoc]
  exact List.getLast?_concat

theorem keeps_markingTool (hpath : Path.ofString path.display = path) :
    v.Keeps markingTool unmarked? path := by
  refine ⟨?_, ?_⟩
  · intro m settings reply h
    obtain ⟨hlast, hflag⟩ := args_command v settings [] "-d" path
    rw [List.nil_append] at hlast hflag
    unfold markingTool at h
    dsimp only at h
    rw [hlast, Option.getD_some, hpath] at h
    split at h
    · cases h
    · next secured hread =>
      rw [if_pos hflag] at h
      split at h
      · next shown hshown =>
        obtain rfl := Option.some.inj h
        exact ⟨rfl, fun _ => ⟨secured, hread, hshown⟩⟩
      · obtain rfl := Option.some.inj h
        refine ⟨rfl, ?_⟩
        intro hsuccess
        simp [Output.success] at hsuccess
  · intro m settings reply h
    obtain ⟨hlast, hflag⟩ := args_command v settings ["-e"] "-i" path
    rw [List.singleton_append] at hlast hflag
    unfold markingTool at h
    dsimp only at h
    rw [hlast, Option.getD_some, hpath, hflag] at h
    split at h
    · cases h
    · next text hread =>
      rw [if_neg (by decide)] at h
      split at h
      · next disk hdisk =>
        obtain rfl := Option.some.inj h
        refine ⟨fun _ => ⟨text, _, hread, hdisk, unmarked?_marked text⟩, ?_⟩
        intro hfailure
        exact absurd rfl hfailure
      · cases h

/-- The plaintext of a file is the text of this document. -/
def Holds (plain : String → Option String) (m : Machine) (path : Path) (document : Document) : Prop :=
  ∃ secured text, m.disk.read m.directory path = .ok secured ∧ plain secured = some text ∧
    Document.parse text = .ok document

theorem Holds.unique {other : Document} (h : Holds plain m path document)
    (hother : Holds plain m path other) : document = other := by
  obtain ⟨secured, text, hread, hplain, hparse⟩ := h
  obtain ⟨secured', text', hread', hplain', hparse'⟩ := hother
  rw [hread] at hread'
  obtain rfl := Except.ok.inj hread'
  rw [hplain] at hplain'
  obtain rfl := Option.some.inj hplain'
  rw [hparse] at hparse'
  exact Except.ok.inj hparse'

theorem Holds.congr (hdisk : n.disk = m.disk) (hdirectory : n.directory = m.directory)
    (h : Holds plain m path document) : Holds plain n path document := by
  unfold Holds
  rw [hdisk, hdirectory]
  exact h

theorem Holds.of_locate {other : Path} {place : Place}
    (hpath : m.disk.locate m.directory path = .ok place)
    (hother : m.disk.locate m.directory other = .ok place) (h : Holds plain m path document) :
    Holds plain m other document := by
  obtain ⟨secured, text, hread, hplain, hparse⟩ := h
  obtain ⟨q, hq, hitem⟩ := Disk.lookup_eq_ok_iff.1 (Disk.read_eq_ok_iff.1 hread)
  rw [hpath] at hq
  obtain rfl := Except.ok.inj hq
  refine ⟨secured, text, ?_, hplain, hparse⟩
  rw [Disk.read_eq_ok_iff, Disk.lookup_eq_ok_iff]
  exact ⟨place, hother, hitem⟩

/-- No document that a file holds loses an entry, and none of its entries moves. -/
def Extends (plain : String → Option String) (m n : Machine) : Prop :=
  ∀ path document, Holds plain m path document →
    ∃ later, Holds plain n path later ∧ document.entries <+: later.entries

theorem Extends.of_same (hdisk : n.disk = m.disk) (hdirectory : n.directory = m.directory) :
    Extends plain m n :=
  fun _ document h => ⟨document, h.congr hdisk hdirectory, List.prefix_rfl⟩

theorem Extends.trans {o : Machine} (hmn : Extends plain m n) (hno : Extends plain n o) :
    Extends plain m o := by
  intro path document h
  obtain ⟨later, hlater, hprefix⟩ := hmn path document h
  obtain ⟨last, hlast, hmore⟩ := hno path later hlater
  exact ⟨last, hlast, hprefix.trans hmore⟩

theorem holds_of_decrypts {e : Expression} (hv : v.Keeps programs plain path)
    (h : v.Decrypts programs m e path document) : Holds plain m path document := by
  obtain ⟨-, reply, hreply, hsuccess, hparse⟩ := h
  obtain ⟨secured, hread, hplain⟩ := (hv.shows _ _ _ hreply).2 hsuccess
  exact ⟨secured, _, hread, hplain, hparse⟩

theorem isReadable_of_decrypts {e : Expression} (h : v.Decrypts programs m e path document) :
    ∀ node ∈ document.nodes, node.IsReadable := by
  obtain ⟨-, reply, -, -, hparse⟩ := h
  exact Document.isReadable_of_parse hparse

theorem encrypt_writes {e : Expression} (hv : v.Keeps programs plain path)
    (habsolute : path.isAbsolute)
    (h : outcome (v.encrypt programs e path document) s = (.ok (), t)) :
    t.cache = s.cache ∧ t.machine.directory = s.machine.directory ∧
      ∃ place old secured, s.machine.disk.locate s.machine.directory path = .ok place ∧
        s.machine.disk.item? place = some (.file old) ∧
        t.machine.disk = s.machine.disk.put place (.file secured) ∧
        plain secured = some document.write := by
  obtain ⟨hcache, hfollows, place, old, m, settings, reply, hlocate, hold, hreply, hsuccess, hread,
    hdisk⟩ := encrypt_ok habsolute h
  obtain ⟨text, secured, htext, hwrite, hplain⟩ := (hv.stores _ _ _ hreply).1 hsuccess
  rw [hread] at htext
  obtain rfl := Except.ok.inj htext
  exact ⟨hcache, hfollows.directory, place, old, secured, hlocate, hold, hdisk secured hwrite, hplain⟩

theorem encrypt_holds {e : Expression} (hv : v.Keeps programs plain path)
    (habsolute : path.isAbsolute) (hreadable : ∀ node ∈ document.nodes, node.IsReadable)
    (h : outcome (v.encrypt programs e path document) s = (.ok (), t)) :
    t.cache = s.cache ∧ t.machine.directory = s.machine.directory ∧
      s.machine.disk.SameShape t.machine.disk ∧
      ∃ place, s.machine.disk.locate s.machine.directory path = .ok place ∧
        (∃ held, held.entries = document.entries ∧
          ∀ other, s.machine.disk.locate s.machine.directory other = .ok place →
            Holds plain t.machine other held) ∧
        ∀ other old, s.machine.disk.locate s.machine.directory other ≠ .ok place →
          Holds plain s.machine other old → Holds plain t.machine other old := by
  obtain ⟨hcache, hdirectory, place, old, secured, hlocate, hold, hwritten, hplain⟩ :=
    encrypt_writes hv habsolute h
  obtain ⟨held, hparse, hentries⟩ := Document.exists_parse_write hreadable
  refine ⟨hcache, hdirectory, ?_, place, hlocate, ⟨held, hentries, ?_⟩, ?_⟩
  · rw [hwritten]
    exact Disk.sameShape_put secured hold
  · intro other hother
    have hwas : s.machine.disk.read s.machine.directory other = .ok old := by
      rw [Disk.read_eq_ok_iff, Disk.lookup_eq_ok_iff]
      exact ⟨place, hother, hold⟩
    rcases Disk.read_put_file secured hold hwas with ⟨-, -, hnow⟩ | ⟨helse, -⟩
    · refine ⟨secured, document.write, ?_, hplain, hparse⟩
      rw [hwritten, hdirectory]
      exact hnow
    · exact absurd hother helse
  · rintro other before helse ⟨secured', text, hwas, hplain', hparse'⟩
    refine ⟨secured', text, ?_, hplain', hparse'⟩
    rw [hwritten, hdirectory]
    rcases Disk.read_put_file secured hold hwas with ⟨hother, -, -⟩ | ⟨-, hnow⟩
    · exact absurd hother helse
    · exact hnow

end SecretDotenv.Secret.SopsEnv
