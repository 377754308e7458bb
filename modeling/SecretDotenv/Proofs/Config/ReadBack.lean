import SecretDotenv.Config.Decoded
import SecretDotenv.Config.Encoded
import SecretDotenv.Proofs.Json.Fields

/-! Configurations as JSON values and back. What is written is read as what it was, and what
was read can be written. -/
namespace SecretDotenv.Config

open Text Dotenv

def readOr {α : Type} (read : Json → Option α) (default : α) : Option Json → Option α
  | some j => read j
  | none => some default

-- By `rw` and not by `rfl`, or the bound of `nat?` is evaluated wherever this is used.
@[simp] theorem readOr_some {α : Type} (read : Json → Option α) (default : α) (j : Json) :
    readOr read default (some j) = read j := by
  rw [readOr]

def orNull? {α : Type} (read : Json → Option α) : Json → Option (Option α)
  | .null => some none
  | j => (read j).map some

namespace Decoder

variable {α β : Type} {fields : List (String × Json)}

def Reads (fields : List (String × Json)) (d : Decoder α) (a : α) : Prop :=
  d.run (.named fields) = some (a, .named fields)

theorem reads_pure (a : α) : Reads fields (pure a) a := rfl

theorem reads_bind {d : Decoder α} {f : α → Decoder β} {a : α} {b : β} (hd : Reads fields d a)
    (hf : Reads fields (f a) b) : Reads fields (d >>= f) b := by
  unfold Reads at hd hf ⊢
  rw [StateT.run_bind, hd]
  exact hf

theorem run_next? (fields : List (String × Json)) (name : String) :
    (next? name).run (.named fields) = some (Json.valueOf? fields name, .named fields) := rfl

@[simp] theorem reads_field_iff {name : String} {read : Json → Option α} {default a : α} :
    Reads fields (field name read default) a ↔
      readOr read default (Json.valueOf? fields name) = some a := by
  unfold Reads field
  rw [StateT.run_bind, run_next?]
  cases Json.valueOf? fields name with
  | none => simp [readOr]
  | some j => cases hj : read j <;> simp [hj]

@[simp] theorem reads_optional_iff {name : String} {read : Json → Option α} {a : Option α} :
    Reads fields (optional name read) a ↔
      readOr (orNull? read) none (Json.valueOf? fields name) = some a := by
  unfold Reads optional
  rw [StateT.run_bind, run_next?]
  cases Json.valueOf? fields name with
  | none => simp [readOr]
  | some j =>
    cases hread : read j with
    | none => cases j <;> simp [orNull?, hread]
    | some b => cases j <;> simp [orNull?, hread]

theorem run?_of_reads {d : Decoder α} {a : α} (h : Reads fields d a) :
    run? d (.object fields) = some a :=
  congrArg (Option.map Prod.fst) h

end Decoder

open Decoder

theorem orNull?_written {α : Type} {read : Json → Option α} {write : α → Json}
    (hwrite : ∀ a, write a ≠ .null) (hread : ∀ a, read (write a) = some a) (written : Option α) :
    orNull? read ((written.map write).getD .null) = some written := by
  cases written with
  | none => rfl
  | some a =>
    have hjson : orNull? read (write a) = (read (write a)).map some := by
      cases hj : write a with
      | null => exact absurd hj (hwrite a)
      | _ => rfl
    rw [Option.map_some, Option.getD_some, hjson, hread a, Option.map_some]

@[simp] theorem orNull?_ofOption (s : Option String) : orNull? string? (.ofOption s) = some s := by
  cases s <;> rfl

theorem nat?_ofNat {n : Nat} (h : n < bound64) : nat? (.ofNat n) = some n := by
  have hlt : (n : Int) < (bound64 : Int) := by omega
  simp [nat?, Json.ofNat, hlt]

@[simp] theorem strings?_object (bindings : List (String × String)) :
    strings? (.object (bindings.map fun (name, value) => (name, .string value))) =
      some bindings := by
  unfold strings?
  dsimp only
  induction bindings with
  | nil => rfl
  | cons binding rest ih =>
    rw [List.map_cons, List.mapM_cons, ih]
    rfl

@[simp] theorem Level.ofJson?_name (level : Level) :
    Level.ofJson? (.string level.name) = some level := by
  cases level <;> rfl

theorem ExpansionSection.ofJson?_toJson {s : ExpansionSection}
    (h : s.commandTimeoutSecs < bound64) : ofJson? s.toJson = some s := by
  apply run?_of_reads
  refine reads_bind ?_ <| reads_bind ?_ <| reads_bind ?_ <| reads_bind ?_ <| reads_bind ?_ <|
    reads_bind ?_ <| reads_bind ?_ <| reads_bind ?_ <| reads_bind ?_ <| reads_pure s
  all_goals simp [Json.valueOf?_cons, bool?, string?, nat?_ofNat h]

@[simp] theorem readerOfJson?_readerToJson (o : ReaderOptions) :
    readerOfJson? (readerToJson o) = some o := by
  apply run?_of_reads
  refine reads_bind ?_ <| reads_bind ?_ <| reads_bind ?_ <| reads_pure o
  all_goals simp [Json.valueOf?_cons, bool?]

theorem KeyVaultSection.ofJson?_toJson (s : KeyVaultSection) : ofJson? s.toJson = some s := by
  apply run?_of_reads
  refine reads_bind ?_ <| reads_bind ?_ <| reads_bind ?_ <| reads_bind ?_ <| reads_bind ?_ <|
    reads_bind ?_ <| reads_bind ?_ <| reads_bind ?_ <| reads_bind ?_ <| reads_pure s
  all_goals simp [Json.valueOf?_cons, bool?]

theorem SopsEnvSection.ofJson?_toJson (s : SopsEnvSection) : ofJson? s.toJson = some s := by
  apply run?_of_reads
  refine reads_bind ?_ <| reads_bind ?_ <| reads_bind ?_ <| reads_bind ?_ <| reads_bind ?_ <|
    reads_bind ?_ <| reads_bind ?_ <| reads_pure s
  all_goals simp [Json.valueOf?_cons, bool?]

@[simp] theorem VaultsSection.ofJson?_toJson (s : VaultsSection) : ofJson? s.toJson = some s := by
  have hkeyVault : orNull? KeyVaultSection.ofJson?
      ((s.azureKeyVault.map KeyVaultSection.toJson).getD .null) = some s.azureKeyVault := by
    apply orNull?_written
    · simp [KeyVaultSection.toJson]
    · exact KeyVaultSection.ofJson?_toJson
  have hsopsEnv : orNull? SopsEnvSection.ofJson?
      ((s.sopsEnv.map SopsEnvSection.toJson).getD .null) = some s.sopsEnv := by
    apply orNull?_written
    · simp [SopsEnvSection.toJson]
    · exact SopsEnvSection.ofJson?_toJson
  apply run?_of_reads
  refine reads_bind ?_ <| reads_bind ?_ <| reads_pure s
  · simp [Json.valueOf?_cons, hkeyVault]
  · simp [Json.valueOf?_cons, hsopsEnv]

@[simp] theorem LoggingSection.ofJson?_toJson (s : LoggingSection) : ofJson? s.toJson = some s := by
  apply run?_of_reads
  refine reads_bind ?_ <| reads_bind ?_ <| reads_pure s
  all_goals simp [Json.valueOf?_cons, bool?]

theorem ofJson?_toJson {c : Config} (hsource : c.source = none)
    (htimeout : c.expansion.commandTimeoutSecs < bound64) : ofJson? c.toJson = some c := by
  obtain ⟨expansion, reader, vaults, logging, source⟩ := c
  obtain rfl : source = none := hsource
  apply run?_of_reads
  refine reads_bind ?_ <| reads_bind ?_ <| reads_bind ?_ <| reads_bind ?_ <| reads_pure _
  · simp [Json.valueOf?_cons, ExpansionSection.ofJson?_toJson htimeout]
  all_goals simp [Json.valueOf?_cons]

namespace Decoder

variable {α β : Type} {P : α → Prop} {Q : β → Prop}

/-- Whatever is read has the property, from an object or from an array. -/
def Gives (P : α → Prop) (d : Decoder α) : Prop :=
  ∀ fields, ∀ read ∈ d.run fields, P read.1

theorem gives_pure {a : α} (h : P a) : Gives P (pure a) := by
  intro fields read hread
  obtain rfl := Option.some.inj hread
  exact h

theorem gives_bind {d : Decoder α} {f : α → Decoder β} (hd : Gives P d)
    (hf : ∀ a, P a → Gives Q (f a)) : Gives Q (d >>= f) := by
  intro fields read hread
  obtain ⟨⟨a, rest⟩, hfirst, hafter⟩ := Option.bind_eq_some_iff.1 hread
  exact hf a (hd fields _ hfirst) rest read hafter

theorem gives_bind_right {d : Decoder α} {f : α → Decoder β} (hf : ∀ a, Gives Q (f a)) :
    Gives Q (d >>= f) := by
  intro fields read hread
  obtain ⟨⟨a, rest⟩, -, hafter⟩ := Option.bind_eq_some_iff.1 hread
  exact hf a rest read hafter

theorem gives_field {name : String} {read : Json → Option α} {default : α}
    (hread : ∀ j a, read j = some a → P a) (hdefault : P default) :
    Gives P (field name read default) := by
  unfold field
  apply gives_bind_right
  intro found
  cases found with
  | none => exact gives_pure hdefault
  | some j =>
    intro fields result hresult
    obtain ⟨a, ha, hlifted⟩ := Option.bind_eq_some_iff.1 hresult
    obtain rfl := Option.some.inj hlifted
    exact hread j a ha

theorem of_run? {d : Decoder α} (hd : Gives P d) {j : Json} {a : α} (h : run? d j = some a) :
    P a := by
  unfold run? at h
  split at h
  · next fields =>
    obtain ⟨read, hread, rfl⟩ := Option.map_eq_some_iff.1 h
    exact hd _ read hread
  · next items =>
    split at h
    · next hread =>
      obtain rfl := Option.some.inj h
      exact hd _ _ hread
    · contradiction
  · contradiction

end Decoder

theorem lt_bound64_of_nat? {j : Json} {n : Nat} (h : nat? j = some n) : n < bound64 := by
  unfold nat? at h
  split at h
  · split at h
    · next hrange =>
      obtain rfl := Option.some.inj h
      simp only [Bool.and_eq_true, decide_eq_true_eq] at hrange
      omega
    · contradiction
  · contradiction

theorem ExpansionSection.timeout_of_ofJson? {j : Json} {s : ExpansionSection}
    (h : ofJson? j = some s) : s.commandTimeoutSecs < bound64 := by
  have hfield : Gives (· < bound64) (field "commandTimeoutSecs" nat? 300) :=
    gives_field (fun _ _ => lt_bound64_of_nat?) (by decide)
  refine of_run? (P := fun s : ExpansionSection => s.commandTimeoutSecs < bound64) ?_ h
  iterate 7
    apply gives_bind_right
    intro _
  refine gives_bind hfield ?_
  intro timeout htimeout
  apply gives_bind_right
  intro bindings
  exact gives_pure htimeout

theorem writable_of_ofJson? {j : Json} {c : Config} (h : ofJson? j = some c) :
    c.source = none ∧ c.expansion.commandTimeoutSecs < bound64 := by
  have hfield : Gives (fun s : ExpansionSection => s.commandTimeoutSecs < bound64)
      (field "expansion" ExpansionSection.ofJson? {}) :=
    gives_field (fun _ _ => ExpansionSection.timeout_of_ofJson?) (by decide)
  refine of_run? (P := fun c : Config =>
    c.source = none ∧ c.expansion.commandTimeoutSecs < bound64) ?_ h
  refine gives_bind hfield ?_
  intro expansion htimeout
  iterate 3
    apply gives_bind_right
    intro _
  exact gives_pure ⟨rfl, htimeout⟩

/-- A configuration without a source, whose timeout is a number of 64 bits, is read as what it
was written from, and so is everything that was read. -/
theorem read_of_written :
    (∀ c : Config, c.source = none → c.expansion.commandTimeoutSecs < bound64 →
      ofJson? c.toJson = some c) ∧
    ∀ j c, ofJson? j = some c → ofJson? c.toJson = some c := by
  constructor
  · intro c hsource htimeout
    exact ofJson?_toJson hsource htimeout
  · intro j c h
    obtain ⟨hsource, htimeout⟩ := writable_of_ofJson? h
    exact ofJson?_toJson hsource htimeout

theorem read_of_written_sections :
    let c : Config := {
      expansion := { useShell := "zsh", commandTimeoutSecs := 0, bindings := [("A", "")] }
      vaults := { sopsEnv := some { envPath := some "/a.env" } }
      logging := { level := .silent } }
    let given : Json := .array [.array [.bool true], .object []]
    let read : Config := { expansion := { enableUnixArgs := true } }
    (c.source = none ∧ c.expansion.commandTimeoutSecs < bound64 ∧ ofJson? c.toJson = some c) ∧
      ofJson? given = some read ∧ ofJson? read.toJson = some read := by
  intro c given read
  have htimeout : c.expansion.commandTimeoutSecs < bound64 := by decide
  have hread : ofJson? given = some read := rfl
  refine ⟨⟨rfl, htimeout, ?_⟩, hread, ?_⟩
  · exact read_of_written.1 c rfl htimeout
  · exact read_of_written.2 given read hread

end SecretDotenv.Config
