import Mathlib.Data.List.Basic
import SecretDotenv.Proofs.Text.Decoded
import SecretDotenv.Secret.KeyVault
import SecretDotenv.Secret.SopsEnv

/-! Where credentials come from. Each has its sources in order, and the first that is not
blank should count. A value is taken from the first source that has one, though, and blanks
are left out later or not at all; so a blank value may stand in front of one that is not. -/
namespace SecretDotenv.Secret

open SecretDotenv.Text SecretDotenv.Machine

abbrev Sources := List (Option String)

namespace Sources

def given? (s : Sources) : Option String :=
  s.findSome? id

def usable? (s : Sources) : Option String :=
  s.findSome? (·.filter (!isBlankText ·))

/-- The first source with a value has a blank one, and a later source another. -/
def Hides (s : Sources) : Prop :=
  (∃ value, s.given? = some value ∧ isBlankText value) ∧ s.usable?.isSome

variable {s : Sources} {value : String}

@[simp] theorem usable?_nil : usable? [] = none := rfl

@[simp] theorem usable?_cons_none (s : Sources) : usable? (none :: s) = usable? s := rfl

theorem usable?_cons_of_blank (h : isBlankText value) (s : Sources) :
    usable? (some value :: s) = usable? s := by
  simp [usable?, h]

theorem usable?_cons_of_not_blank (h : isBlankText value = false) (s : Sources) :
    usable? (some value :: s) = some value := by
  simp [usable?, h]

theorem usable?_cons (source : Option String) (s : Sources) :
    usable? (source :: s) = (usable? [source]).orElse fun _ => usable? s := by
  cases source with
  | none => rfl
  | some value =>
    cases hblank : isBlankText value with
    | true =>
      rw [usable?_cons_of_blank hblank, usable?_cons_of_blank hblank]
      rfl
    | false =>
      rw [usable?_cons_of_not_blank hblank, usable?_cons_of_not_blank hblank]
      rfl

theorem not_blank_of_usable? (h : s.usable? = some value) : isBlankText value = false := by
  obtain ⟨source, -, hsource⟩ := List.exists_of_findSome?_eq_some h
  simpa using (Option.filter_eq_some_iff.1 hsource).2

theorem isSome_usable?_iff :
    s.usable?.isSome ↔ ∃ value, some value ∈ s ∧ isBlankText value = false := by
  rw [usable?, List.findSome?_isSome_iff]
  constructor
  · rintro ⟨source, hsource, hsome⟩
    obtain ⟨value, hvalue⟩ := Option.isSome_iff_exists.1 hsome
    obtain ⟨rfl, hblank⟩ := Option.filter_eq_some_iff.1 hvalue
    exact ⟨value, hsource, by simpa using hblank⟩
  · rintro ⟨value, hvalue, hblank⟩
    exact ⟨some value, hvalue, by simp [hblank]⟩

theorem usable?_of_given? (h : s.given? = some value) (hvalue : isBlankText value = false) :
    s.usable? = some value := by
  induction s with
  | nil => contradiction
  | cons source s ih =>
    cases source with
    | none => exact ih h
    | some first =>
      obtain rfl : first = value := Option.some.inj h
      exact usable?_cons_of_not_blank hvalue s

theorem usable?_of_given?_eq_none (h : s.given? = none) : s.usable? = none := by
  rw [given?, List.findSome?_eq_none_iff] at h
  refine List.findSome?_eq_none_iff.2 fun source hsource => ?_
  rw [show source = none from h source hsource]
  rfl

theorem filter_given?_of_hides (h : s.Hides) : s.given?.filter (!isBlankText ·) = none := by
  obtain ⟨⟨value, hgiven, hblank⟩, -⟩ := h
  simp [hgiven, hblank]

/-- To leave out a blank value at the end is to lose those behind it. -/
theorem filter_given?_eq_usable?_iff (s : Sources) :
    s.given?.filter (!isBlankText ·) = s.usable? ↔ ¬ s.Hides := by
  constructor
  · intro hsame hhides
    obtain ⟨value, hvalue⟩ := Option.isSome_iff_exists.1 hhides.2
    rw [filter_given?_of_hides hhides, hvalue] at hsame
    contradiction
  · intro hhides
    cases hgiven : s.given? with
    | none => rw [usable?_of_given?_eq_none hgiven, Option.filter_none]
    | some value =>
      cases hblank : isBlankText value with
      | true =>
        have hnone : ¬ s.usable?.isSome := fun hsome => hhides ⟨⟨value, hgiven, hblank⟩, hsome⟩
        rw [Option.not_isSome_iff_eq_none.1 hnone]
        simp [hblank]
      | false =>
        rw [usable?_of_given? hgiven hblank]
        simp [hblank]

end Sources

def Expression.operand? (e : Expression) (flag : String) : Option String :=
  (e.flagValue flag).filter fun value => value.toList.head? != some '-'

open Sources

namespace KeyVault

variable (field : Option String) (e : Expression) (flag : String) (fromEnvironment : Option String)

def sources : Sources :=
  [field, e.operand? flag, fromEnvironment]

theorem credential_eq :
    credential field e flag fromEnvironment =
      (sources field e flag fromEnvironment).given?.filter (!isBlankText ·) := by
  have hfirst : (field.orElse fun _ => e.operand? flag).orElse (fun _ => fromEnvironment) =
      (sources field e flag fromEnvironment).given? := by
    unfold sources given?
    cases field <;> cases e.operand? flag <;> cases fromEnvironment <;> rfl
  rw [← hfirst]
  rfl

def loginArgs (v : KeyVault) (clientId clientSecret tenantId : Option String) : List String :=
  let account :=
    if v.managedIdentity then
      "--identity" :: ((clientId.map fun id => ["--username", id]).getD [])
    else
      match clientId, clientSecret, tenantId with
      | some id, some secret, some tenant =>
        ["--service-principal", "-u", id, "-p", secret, "--tenant", tenant]
      | _, _, _ =>
        (if v.deviceCode then ["--use-device-code"] else []) ++
          ((tenantId.map fun tenant => ["--tenant", tenant]).getD [])
  ["login"] ++ account ++ ["-o", "none"]

theorem loginCommand_eq (v : KeyVault) (e : Expression) (env : Environment) :
    v.loginCommand e env = v.command (v.loginArgs
      (credential v.clientId e "--client-id" (env.get? "AZURE_CLIENT_ID"))
      (credential v.clientSecret e "--client-secret" (env.get? "AZURE_CLIENT_SECRET"))
      (credential v.tenantId e "--tenant-id" (env.get? "AZURE_TENANT_ID"))) := rfl

end KeyVault

namespace SopsEnv

section Pick

variable (e : Expression) (key : String) (field : Option String)

def sources : Sources :=
  [e.operand? ("--" ++ key), queryValue e key, field]

def IsBlankFlag : Prop :=
  ∃ value, e.operand? ("--" ++ key) = some value ∧ value ≠ "" ∧ isBlankText value

theorem pick_eq : pick e key field =
    ((e.operand? ("--" ++ key)).filter (· != "")).orElse fun _ =>
      usable? [queryValue e key, field] := by
  have hoperand : (e.flagValue ("--" ++ key)).filter Expression.isOperand =
      (e.operand? ("--" ++ key)).filter (· != "") := by
    rw [Expression.operand?, Option.filter_filter]
    exact congrArg (Option.filter · _) (funext fun part => Bool.and_comm _ _)
  have hothers : ((queryValue e key).filter (!isBlankText ·)).orElse
      (fun _ => field.filter (!isBlankText ·)) = usable? [queryValue e key, field] := by
    cases hquery : (queryValue e key).filter (!isBlankText ·) <;>
      cases hfield : field.filter (!isBlankText ·) <;> simp [usable?, hquery, hfield]
  rw [pick, hoperand, ← hothers]
  cases (e.operand? ("--" ++ key)).filter (· != "") <;> rfl

variable {e key field}

theorem pick_of_operand {value : String} (h : e.operand? ("--" ++ key) = some value)
    (hvalue : value ≠ "") : pick e key field = some value := by
  rw [pick_eq, h]
  simp [hvalue]

theorem pick_of_not_isBlankFlag (h : ¬ IsBlankFlag e key) :
    pick e key field = (sources e key field).usable? := by
  cases hoperand : e.operand? ("--" ++ key) with
  | none => rw [pick_eq, sources, hoperand, usable?_cons_none]; rfl
  | some value =>
    by_cases hempty : value = ""
    · rw [pick_eq, sources, hoperand, hempty, usable?_cons_of_blank rfl]
      rfl
    · have hblank : isBlankText value = false := by
        simpa using fun hblank => h ⟨value, hoperand, hempty, hblank⟩
      rw [pick_of_operand hoperand hempty, sources, hoperand, usable?_cons_of_not_blank hblank]

theorem pick_eq_usable?_iff :
    pick e key field = (sources e key field).usable? ↔ ¬ IsBlankFlag e key := by
  refine ⟨fun hsame hflag => ?_, pick_of_not_isBlankFlag⟩
  obtain ⟨value, hoperand, hempty, hblank⟩ := hflag
  rw [pick_of_operand hoperand hempty] at hsame
  rw [not_blank_of_usable? hsame.symm] at hblank
  contradiction

end Pick

theorem not_blank_configBeside {m : Machine} {path : Path} {beside : String}
    (h : configBeside m path = some beside) : isBlankText beside = false := by
  have hjoin : ∀ parent : Path, ∃ front, (parent.join ".sops.yaml").bytes =
      front ++ utf8 ".sops.yaml".toList := by
    intro parent
    unfold Path.join
    dsimp only
    split
    · exact ⟨[], rfl⟩
    · split
      · exact ⟨parent.bytes, rfl⟩
      · exact ⟨parent.bytes ++ [Path.slash], by simp⟩
  have hdisplay : ∀ parent : Path, isBlankText (parent.join ".sops.yaml").display = false := by
    intro parent
    obtain ⟨front, hfront⟩ := hjoin parent
    have hdot : ∀ b ∈ (utf8 ".sops.yaml".toList).head?, isFollower b = false := by
      intro b hb
      obtain rfl : _ = b := Option.some.inj hb
      rfl
    rw [Path.display, hfront, isBlankText, ofUtf8, String.toList_ofList,
      decodeUtf8_append front hdot, decodeUtf8_utf8, List.all_append]
    exact Bool.and_false _
  unfold configBeside at h
  split at h
  · contradiction
  · dsimp only at h
    split at h
    · rw [← Option.some.inj h]
      exact hdisplay _
    · contradiction

theorem config_eq_iff (v : SopsEnv) (m : Machine) (e : Expression) (path : Path) :
    (v.settings m e path).config =
        (sources e "sops-config" v.config).usable?.orElse (fun _ => configBeside m path) ↔
      ¬ IsBlankFlag e "sops-config" := by
  change ((pick e "sops-config" v.config).orElse fun _ => configBeside m path) = _ ↔ _
  refine ⟨fun hsame hflag => ?_, fun hflag => by rw [pick_of_not_isBlankFlag hflag]⟩
  obtain ⟨value, hoperand, hempty, hblank⟩ := hflag
  rw [pick_of_operand hoperand hempty, Option.orElse_some] at hsame
  have hnot : isBlankText value = false := by
    cases husable : (sources e "sops-config" v.config).usable? with
    | some used =>
      rw [husable, Option.orElse_some] at hsame
      exact not_blank_of_usable? (husable.trans hsame.symm)
    | none =>
      rw [husable, Option.orElse_none] at hsame
      exact not_blank_configBeside hsame.symm
  rw [hnot] at hblank
  contradiction

section Key

variable (v : SopsEnv) (e : Expression) (env : Environment)

def keySources : Sources :=
  [(e.operand? "--age-key").bind env.get?, (queryValue e "age-key").bind env.get?, v.ageKey]

/-- The variable that is looked up, and what the vault is set up with. -/
def lookedUp : Sources :=
  [((e.operand? "--age-key").orElse fun _ => queryValue e "age-key").bind env.get?, v.ageKey]

/-- The flag names a variable without a usable key, and the key of the query's variable, another
than the vault is set up with, is passed over. -/
def PassesOver : Prop :=
  ∃ holder key, e.operand? "--age-key" = some holder ∧ usable? [env.get? holder] = none ∧
    usable? [(queryValue e "age-key").bind env.get?] = some key ∧ usable? [v.ageKey] ≠ some key

theorem ageKeyOf_eq : v.ageKeyOf e env = (v.lookedUp e env).given?.filter (!isBlankText ·) := by
  have hfirst : (((e.operand? "--age-key").orElse fun _ => queryValue e "age-key").bind
      env.get?).orElse (fun _ => v.ageKey) = (v.lookedUp e env).given? := by
    unfold lookedUp given?
    cases ((e.operand? "--age-key").orElse fun _ => queryValue e "age-key").bind env.get? <;>
      cases v.ageKey <;> rfl
  rw [← hfirst]
  rfl

variable {v e env}

theorem usable?_lookedUp_iff :
    (v.lookedUp e env).usable? = (v.keySources e env).usable? ↔ ¬ v.PassesOver e env := by
  cases hoperand : e.operand? "--age-key" with
  | none =>
    have hnot : ¬ v.PassesOver e env := fun ⟨holder, key, hholder, _⟩ => by
      rw [hoperand] at hholder
      contradiction
    rw [keySources, lookedUp, hoperand, Option.bind_none, usable?_cons_none]
    exact iff_of_true rfl hnot
  | some holder =>
    have hpasses : v.PassesOver e env ↔ usable? [env.get? holder] = none ∧
        ∃ key, usable? [(queryValue e "age-key").bind env.get?] = some key ∧
          usable? [v.ageKey] ≠ some key := by
      simp [PassesOver, hoperand]
    have hlooked : (v.lookedUp e env).usable? =
        (usable? [env.get? holder]).orElse fun _ => usable? [v.ageKey] := by
      rw [lookedUp, hoperand, usable?_cons]
      rfl
    have hsources : (v.keySources e env).usable? = (usable? [env.get? holder]).orElse fun _ =>
        (usable? [(queryValue e "age-key").bind env.get?]).orElse fun _ => usable? [v.ageKey] := by
      rw [keySources, hoperand, usable?_cons,
        usable?_cons ((queryValue e "age-key").bind env.get?)]
      rfl
    rw [hpasses, hlooked, hsources]
    cases usable? [env.get? holder] with
    | some value => simp
    | none =>
      cases usable? [(queryValue e "age-key").bind env.get?] with
      | none => simp
      | some key => simp

theorem isSome_usable?_of_hides (h : (v.lookedUp e env).Hides) :
    (v.keySources e env).usable?.isSome := by
  obtain ⟨⟨blank, hgiven, hblank⟩, husable⟩ := h
  obtain ⟨value, hvalue, hnot⟩ := isSome_usable?_iff.1 husable
  rcases List.mem_pair.1 hvalue with hfirst | hfield
  · rw [lookedUp, ← hfirst] at hgiven
    rw [Option.some.inj hgiven, hblank] at hnot
    contradiction
  · exact isSome_usable?_iff.2 ⟨value, by simp [keySources, hfield], hnot⟩

theorem ageKeyOf_eq_usable?_iff : v.ageKeyOf e env = (v.keySources e env).usable? ↔
    ¬ (v.lookedUp e env).Hides ∧ ¬ v.PassesOver e env := by
  rw [ageKeyOf_eq]
  constructor
  · intro hsame
    have hhides : ¬ (v.lookedUp e env).Hides := fun hhides => by
      have hsome := isSome_usable?_of_hides hhides
      rw [← hsame, filter_given?_of_hides hhides] at hsome
      contradiction
    refine ⟨hhides, usable?_lookedUp_iff.1 ?_⟩
    rw [← hsame, (filter_given?_eq_usable?_iff _).2 hhides]
  · rintro ⟨hhides, hpasses⟩
    rw [(filter_given?_eq_usable?_iff _).2 hhides, usable?_lookedUp_iff.2 hpasses]

end Key

def Settings.value? (s : Settings) (name : String) : Option String :=
  Environment.get? s.overrides name

theorem value?_settings (v : SopsEnv) (m : Machine) (e : Expression) (path : Path) :
    (v.settings m e path).value? "SOPS_AGE_KEY_FILE" = pick e "age-key-file" v.ageKeyFile ∧
      (v.settings m e path).value? "SOPS_AGE_KEY" = v.ageKeyOf e m.environment ∧
      (v.settings m e path).value? "SOPS_AGE_RECIPIENTS" = pick e "age-recipients" v.ageRecipients := by
  unfold Settings.value? settings Environment.get?
  cases pick e "age-key-file" v.ageKeyFile <;> cases v.ageKeyOf e m.environment <;>
    cases pick e "age-recipients" v.ageRecipients <;> simp

end SopsEnv

/-- Every credential is the first usable one of its sources, unless a blank value hides it. The
flags of an encrypted file count whenever their value is not empty. A variable for its key that
is set counts even if it is blank, and the variable that a flag names is the only one that is
looked up. Of the credentials of an account the first that is given counts, and if that one is
blank there is none. -/
theorem first_usable_source (files : SopsEnv) (vault : KeyVault) (m : Machine) (e : Expression)
    (path : Path) :
    let settings := files.settings m e path
    let clientId := KeyVault.sources vault.clientId e "--client-id"
      (m.environment.get? "AZURE_CLIENT_ID")
    let clientSecret := KeyVault.sources vault.clientSecret e "--client-secret"
      (m.environment.get? "AZURE_CLIENT_SECRET")
    let tenantId := KeyVault.sources vault.tenantId e "--tenant-id"
      (m.environment.get? "AZURE_TENANT_ID")
    (∀ name key field, (name, key, field) ∈
        [("SOPS_AGE_KEY_FILE", "age-key-file", files.ageKeyFile),
          ("SOPS_AGE_RECIPIENTS", "age-recipients", files.ageRecipients)] →
      (settings.value? name = (SopsEnv.sources e key field).usable? ↔ ¬ SopsEnv.IsBlankFlag e key) ∧
        ∀ value, e.operand? ("--" ++ key) = some value → value ≠ "" →
          settings.value? name = some value) ∧
    (settings.config = (SopsEnv.sources e "sops-config" files.config).usable?.orElse
        (fun _ => SopsEnv.configBeside m path) ↔
      ¬ SopsEnv.IsBlankFlag e "sops-config") ∧
    (settings.value? "SOPS_AGE_KEY" = (files.keySources e m.environment).usable? ↔
      ¬ (files.lookedUp e m.environment).Hides ∧ ¬ files.PassesOver e m.environment) ∧
    ((files.lookedUp e m.environment).Hides → settings.value? "SOPS_AGE_KEY" = none) ∧
    (¬ clientId.Hides → ¬ clientSecret.Hides → ¬ tenantId.Hides →
      vault.loginCommand e m.environment =
        vault.command (vault.loginArgs clientId.usable? clientSecret.usable? tenantId.usable?)) ∧
    ∀ field flag fromEnvironment,
      let sources := KeyVault.sources field e flag fromEnvironment
      (KeyVault.credential field e flag fromEnvironment = sources.usable? ↔ ¬ sources.Hides) ∧
        (sources.Hides → KeyVault.credential field e flag fromEnvironment = none) := by
  intro settings clientId clientSecret tenantId
  obtain ⟨hfile, hkey, hrecipients⟩ := SopsEnv.value?_settings files m e path
  refine ⟨fun name key field hsetting => ?_, SopsEnv.config_eq_iff files m e path, ?_,
    fun hhides => ?_, fun hid hsecret htenant => ?_, fun field flag fromEnvironment => ⟨?_, ?_⟩⟩
  · have hpick : settings.value? name = SopsEnv.pick e key field := by
      rcases List.mem_pair.1 hsetting with hsame | hsame
      · obtain ⟨rfl, rfl, rfl⟩ : name = _ ∧ key = _ ∧ field = _ := by simpa using hsame
        exact hfile
      · obtain ⟨rfl, rfl, rfl⟩ : name = _ ∧ key = _ ∧ field = _ := by simpa using hsame
        exact hrecipients
    rw [hpick]
    exact ⟨SopsEnv.pick_eq_usable?_iff, fun value => SopsEnv.pick_of_operand⟩
  · rw [hkey, SopsEnv.ageKeyOf_eq_usable?_iff]
  · rw [hkey, SopsEnv.ageKeyOf_eq, filter_given?_of_hides hhides]
  · rw [KeyVault.loginCommand_eq, KeyVault.credential_eq, KeyVault.credential_eq,
      KeyVault.credential_eq, (filter_given?_eq_usable?_iff _).2 hid,
      (filter_given?_eq_usable?_iff _).2 hsecret, (filter_given?_eq_usable?_iff _).2 htenant]
  · rw [KeyVault.credential_eq, filter_given?_eq_usable?_iff]
  · intro hhides
    rw [KeyVault.credential_eq, filter_given?_of_hides hhides]

def keyedRequest (fileFlag keyFlag : String) : Expression where
  uri :=
    { scheme := "sops-env", authority := some {}, route := .segments ["a.env"]
      query := some "age-key-file=/query&age-key=HELD" }
  tokens := ["--age-key-file", fileFlag, "--age-key", keyFlag]

def keyedFile : SopsEnv :=
  { ageKeyFile := some "/field", ageKey := some "field" }

def keyedMachine : Machine :=
  { environment := [("BLANK", " "), ("HELD", "held")] }

def tenantRequest : Expression where
  uri := { scheme := "akv", authority := some { host := some (.name "kv") }, route := .segments ["a"] }
  tokens := ["--tenant-id", "mine"]

/-- An empty flag hides nothing, a blank variable hides the key, and the flag for the tenant
counts where the vault has none. -/
theorem first_usable_source_empty :
    (keyedFile.settings keyedMachine (keyedRequest "" "BLANK") (Path.ofString "/a.env")).value?
        "SOPS_AGE_KEY_FILE" = some "/query" ∧
      (keyedFile.settings keyedMachine (keyedRequest "" "BLANK") (Path.ofString "/a.env")).value?
        "SOPS_AGE_KEY" = none ∧
      (keyedFile.settings keyedMachine (keyedRequest " " "HELD") (Path.ofString "/a.env")).value?
        "SOPS_AGE_KEY_FILE" = some " " ∧
      (({} : KeyVault).loginCommand tenantRequest []).args =
        ["login", "--tenant", "mine", "-o", "none"] := by
  obtain ⟨hempty, -, -, hhidden, -⟩ :=
    first_usable_source keyedFile {} keyedMachine (keyedRequest "" "BLANK") (Path.ofString "/a.env")
  obtain ⟨hblank, -⟩ :=
    first_usable_source keyedFile {} keyedMachine (keyedRequest " " "HELD") (Path.ofString "/a.env")
  obtain ⟨-, -, -, -, hlogin, -⟩ :=
    first_usable_source keyedFile {} {} tenantRequest (Path.ofString "/a.env")
  have hflag : ¬ SopsEnv.IsBlankFlag (keyedRequest "" "BLANK") "age-key-file" := by
    rintro ⟨value, hoperand, hvalue, -⟩
    have hgiven : (keyedRequest "" "BLANK").operand? ("--" ++ "age-key-file") = some "" := by
      decide +kernel
    exact hvalue (Option.some.inj (hoperand.symm.trans hgiven))
  have hkey : (keyedFile.lookedUp (keyedRequest "" "BLANK") keyedMachine.environment).Hides :=
    ⟨⟨" ", by decide +kernel, by decide⟩, by decide +kernel⟩
  have hopen : ∀ {s : Sources}, s.given? = s.usable? → ¬ s.Hides := by
    rintro s hsame ⟨⟨value, hgiven, hblank⟩, -⟩
    rw [not_blank_of_usable? (hsame.symm.trans hgiven)] at hblank
    contradiction
  refine ⟨?_, hhidden hkey, ?_, ?_⟩
  · rw [(hempty "SOPS_AGE_KEY_FILE" "age-key-file" _ (.head _)).1.2 hflag]
    decide +kernel
  · exact (hblank "SOPS_AGE_KEY_FILE" "age-key-file" _ (.head _)).2 " " (by decide +kernel) (by decide)
  · rw [hlogin (hopen (by decide +kernel)) (hopen (by decide +kernel)) (hopen (by decide +kernel))]
    decide +kernel

/-- A blank flag in front of a query, a blank variable in front of the one of the query, and a
blank tenant in front of a flag. -/
theorem blank_hides_usable :
    (Expression.parse "secret" (Path.ofString "/") none ["secret",
          "sops-env:///a.env?age-key-file=/query&age-key=HELD", "--age-key-file", " ",
          "--age-key", "BLANK"] = .ok (keyedRequest " " "BLANK") ∧
      (SopsEnv.sources (keyedRequest " " "BLANK") "age-key-file" keyedFile.ageKeyFile).usable? =
        some "/query" ∧
      (keyedFile.settings keyedMachine (keyedRequest " " "BLANK") (Path.ofString "/a.env")).value?
        "SOPS_AGE_KEY_FILE" = some " " ∧
      (keyedFile.keySources (keyedRequest " " "BLANK") keyedMachine.environment).usable? =
        some "held" ∧
      (keyedFile.settings keyedMachine (keyedRequest " " "BLANK") (Path.ofString "/a.env")).value?
        "SOPS_AGE_KEY" = none) ∧
    Expression.parse "secret" (Path.ofString "/") none ["secret", "akv://kv/a", "--tenant-id",
        "mine"] = .ok tenantRequest ∧
      (KeyVault.sources (some " ") tenantRequest "--tenant-id" none).usable? = some "mine" ∧
      (({ tenantId := some " " } : KeyVault).loginCommand tenantRequest []).args =
        ["login", "-o", "none"] := by
  refine ⟨⟨?_, ?_, ?_, ?_, ?_⟩, ?_, ?_, ?_⟩
  all_goals decide +kernel

end SecretDotenv.Secret
