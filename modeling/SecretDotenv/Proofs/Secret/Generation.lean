import Mathlib.Logic.Basic
import SecretDotenv.Secret.Policy

/-! Random secrets. Each class that a generator requires is a part of its pool, so while there is
room for one character of each, some candidate is accepted; and what is accepted shows every
class. A policy registers its classes, and its secrets are of the size and of the characters that
it names. -/
namespace SecretDotenv.Secret

open SecretDotenv.Text SecretDotenv.Machine

namespace Generator

inductive Registration where
  | plain (chars : List Char)
  | required (chars : List Char)
deriving DecidableEq, Repr

def Registration.chars : Registration → List Char
  | .plain chars => chars
  | .required chars => chars

@[simp] theorem Registration.chars_plain (chars : List Char) :
    (Registration.plain chars).chars = chars := rfl

@[simp] theorem Registration.chars_required (chars : List Char) :
    (Registration.required chars).chars = chars := rfl

def Registration.class? : Registration → Option (List Char)
  | .required (c :: chars) => some (c :: chars)
  | _ => none

def register (g : Generator) : Registration → Generator
  | .plain chars => g.add chars
  | .required chars => g.require chars

def ofRegistrations (rs : List Registration) : Generator :=
  rs.foldl register {}

theorem mem_foldl_addChar {c : Char} (chars pool : List Char) :
    c ∈ chars.foldl addChar pool ↔ c ∈ pool ∨ c ∈ chars := by
  induction chars generalizing pool with
  | nil => simp
  | cons d chars ih =>
    have hadd : c ∈ addChar pool d ↔ c ∈ pool ∨ c = d := by
      unfold addChar
      split
      · next hmem => exact (or_iff_left_of_imp fun h => h ▸ hmem).symm
      · simp
    rw [List.foldl_cons, ih, hadd, List.mem_cons, or_assoc]

theorem mem_pool_register {c : Char} (g : Generator) (r : Registration) :
    c ∈ (g.register r).pool ↔ c ∈ g.pool ∨ c ∈ r.chars := by
  cases r with
  | plain chars => exact mem_foldl_addChar chars g.pool
  | required chars =>
    rw [Registration.chars_required, ← mem_foldl_addChar chars g.pool]
    simp only [register, require, add]
    split <;> rfl

theorem required_register (g : Generator) (r : Registration) :
    (g.register r).required = g.required ++ r.class?.toList := by
  rcases r with chars | _ | ⟨c, chars⟩ <;> simp [register, require, add, Registration.class?]

theorem mem_pool_foldl {c : Char} (rs : List Registration) (g : Generator) :
    c ∈ (rs.foldl register g).pool ↔ c ∈ g.pool ∨ ∃ r ∈ rs, c ∈ r.chars := by
  induction rs generalizing g with
  | nil => simp
  | cons r rs ih =>
    rw [List.foldl_cons, ih, mem_pool_register, or_assoc]
    simp only [List.mem_cons, exists_eq_or_imp]

theorem mem_pool_ofRegistrations {c : Char} (rs : List Registration) :
    c ∈ (ofRegistrations rs).pool ↔ ∃ r ∈ rs, c ∈ r.chars := by
  simp [ofRegistrations, mem_pool_foldl]

theorem required_foldl (rs : List Registration) (g : Generator) :
    (rs.foldl register g).required = g.required ++ rs.filterMap Registration.class? := by
  induction rs generalizing g with
  | nil => simp
  | cons r rs ih =>
    rw [List.foldl_cons, ih, required_register, List.append_assoc]
    cases h : r.class? <;> simp [h]

theorem required_ofRegistrations (rs : List Registration) :
    (ofRegistrations rs).required = rs.filterMap Registration.class? := by
  simp [ofRegistrations, required_foldl]

theorem mem_required_ofRegistrations {rs : List Registration} {cls : List Char} (hne : cls ≠ [])
    (h : .required cls ∈ rs) : cls ∈ (ofRegistrations rs).required := by
  rw [required_ofRegistrations]
  refine List.mem_filterMap.2 ⟨_, h, ?_⟩
  cases cls with
  | nil => exact absurd rfl hne
  | cons c cls => rfl

/-- Every class that is required can be drawn. -/
structure IsSound (g : Generator) : Prop where
  ne_nil : ∀ cls ∈ g.required, cls ≠ []
  subset : ∀ cls ∈ g.required, ∀ c ∈ cls, c ∈ g.pool

theorem IsSound.register {g : Generator} (h : g.IsSound) (r : Registration) :
    (g.register r).IsSound := by
  have hnew : ∀ cls ∈ r.class?, cls ≠ [] ∧ cls = r.chars := by
    rcases r with chars | _ | ⟨c, chars⟩ <;> simp [Registration.class?]
  constructor
  · intro cls hcls
    rw [required_register, List.mem_append, Option.mem_toList] at hcls
    rcases hcls with hcls | hcls
    · exact h.ne_nil cls hcls
    · exact (hnew cls hcls).1
  · intro cls hcls c hc
    rw [required_register, List.mem_append, Option.mem_toList] at hcls
    rw [mem_pool_register]
    rcases hcls with hcls | hcls
    · exact Or.inl (h.subset cls hcls c hc)
    · exact Or.inr ((hnew cls hcls).2 ▸ hc)

theorem isSound_ofRegistrations (rs : List Registration) : (ofRegistrations rs).IsSound :=
  List.foldlRecOn rs register ⟨by simp, by simp⟩ fun _ h r _ => h.register r

/-- What is asked of a secret. -/
structure IsSecret (g : Generator) (size : Nat) (value : List Char) : Prop where
  length : value.length = size
  pool : ∀ c ∈ value, c ∈ g.pool
  classes : g.required.length ≤ size → g.satisfies value

theorem IsSecret.shows {g : Generator} {size : Nat} {value : List Char} (h : g.IsSecret size value)
    (hroom : g.required.length ≤ size) {cls : List Char} (hcls : cls ∈ g.required) :
    ∃ c ∈ cls, c ∈ value := by
  obtain ⟨c, hc, hmem⟩ := List.any_eq_true.1 (List.all_eq_true.1 (h.classes hroom) cls hcls)
  exact ⟨c, of_decide_eq_true hmem, hc⟩

@[simp] theorem length_candidate (g : Generator) (numbers : List Nat) :
    (g.candidate numbers).length = numbers.length :=
  List.length_map _

theorem mem_pool_of_mem_candidate {g : Generator} (hpool : g.pool ≠ []) {numbers : List Nat}
    {c : Char} (h : c ∈ g.candidate numbers) : c ∈ g.pool := by
  obtain ⟨n, -, rfl⟩ := List.mem_map.1 h
  have hlt : n % g.pool.length < g.pool.length := Nat.mod_lt _ (List.length_pos_iff.2 hpool)
  simp [hlt]

theorem exists_candidate {g : Generator} {value : List Char} (h : ∀ c ∈ value, c ∈ g.pool) :
    ∃ numbers, g.candidate numbers = value := by
  refine ⟨value.map g.pool.idxOf, ?_⟩
  rw [candidate, List.map_map]
  refine (List.map_congr_left fun c hc => ?_).trans (List.map_id value)
  have hlt : g.pool.idxOf c < g.pool.length := List.idxOf_lt_length_iff.2 (h c hc)
  simp [Nat.mod_eq_of_lt hlt, hlt]

theorem isSecret_candidate {g : Generator} (hpool : g.pool ≠ []) {numbers : List Nat}
    (h : g.isAcceptable (g.candidate numbers)) :
    g.IsSecret numbers.length (g.candidate numbers) where
  length := length_candidate g numbers
  pool _ hc := mem_pool_of_mem_candidate hpool hc
  classes hroom := by simpa [isAcceptable, Nat.not_lt.2 hroom] using h

theorem satisfies_fallback {g : Generator} (hg : g.IsSound) {size : Nat}
    (hroom : g.required.length ≤ size) : g.satisfies (g.fallback size) := by
  refine List.all_eq_true.2 fun cls hcls =>
    List.any_eq_true.2 ⟨cls.headD (g.pool.headD '\x00'), ?_, ?_⟩
  · rw [fallback, if_neg (Nat.not_lt.2 hroom)]
    exact List.mem_append_left _ (List.mem_map_of_mem hcls)
  · cases cls with
    | nil => exact absurd rfl (hg.ne_nil _ hcls)
    | cons c cls => simp

theorem isSecret_fallback {g : Generator} (hg : g.IsSound) (hpool : g.pool ≠ []) (size : Nat) :
    g.IsSecret size (g.fallback size) where
  length := by
    unfold fallback
    split
    · simp
    · simp
      omega
  pool := by
    have hfirst : g.pool.headD '\x00' ∈ g.pool := by
      cases h : g.pool with
      | nil => exact absurd h hpool
      | cons c pool => simp
    intro c hc
    unfold fallback at hc
    split at hc
    · rwa [(List.mem_replicate.1 hc).2]
    · rcases List.mem_append.1 hc with hc | hc
      · obtain ⟨cls, hcls, rfl⟩ := List.mem_map.1 hc
        cases cls with
        | nil => exact hfirst
        | cons d cls => exact hg.subset _ hcls d List.mem_cons_self
      · rwa [(List.mem_replicate.1 hc).2]
  classes := satisfies_fallback hg

theorem exists_satisfies {g : Generator} (hg : g.IsSound) (hpool : g.pool ≠ []) {size : Nat}
    (hroom : g.required.length ≤ size) :
    ∃ numbers, numbers.length = size ∧ g.satisfies (g.candidate numbers) := by
  have hfallback := isSecret_fallback hg hpool size
  obtain ⟨numbers, hnumbers⟩ := exists_candidate hfallback.pool
  refine ⟨numbers, ?_, ?_⟩
  · rw [← length_candidate g, hnumbers, hfallback.length]
  · rw [hnumbers]
    exact hfallback.classes hroom

/-- Candidates are drawn until one is accepted, however many that takes. -/
inductive Drawn (g : Generator) (size : Nat) : Draws → List Char → Draws → Prop where
  | accepted {draws : Draws} (h : g.isAcceptable (g.candidate (draws.take size).1)) :
      Drawn g size draws (g.candidate (draws.take size).1) (draws.take size).2
  | rejected {draws after : Draws} {value : List Char}
      (h : g.isAcceptable (g.candidate (draws.take size).1) = false)
      (hagain : Drawn g size (draws.take size).2 value after) : Drawn g size draws value after

theorem draw_succ (g : Generator) (size attempts : Nat) (draws : Draws) :
    g.draw size (attempts + 1) draws =
      if g.isAcceptable (g.candidate (draws.take size).1) then
        (g.candidate (draws.take size).1, (draws.take size).2)
      else g.draw size attempts (draws.take size).2 := rfl

theorem draw_of_drawn {g : Generator} {size : Nat} {draws after : Draws} {value : List Char}
    (h : g.Drawn size draws value after) :
    ∃ enough, ∀ attempts, enough ≤ attempts → g.draw size attempts draws = (value, after) := by
  induction h with
  | @accepted draws h =>
    refine ⟨1, fun attempts hattempts => ?_⟩
    obtain ⟨more, rfl⟩ := Nat.exists_eq_add_of_le' hattempts
    rw [draw_succ, if_pos h]
  | @rejected draws after value h _ ih =>
    obtain ⟨enough, hdraw⟩ := ih
    refine ⟨enough + 1, fun attempts hattempts => ?_⟩
    obtain ⟨more, rfl⟩ := Nat.exists_eq_add_of_le' (Nat.le_of_add_left_le hattempts)
    rw [draw_succ, if_neg (by simp [h])]
    exact hdraw more (by omega)

theorem isSecret_draw {g : Generator} (hg : g.IsSound) (hpool : g.pool ≠ []) (size attempts : Nat)
    (draws : Draws) : g.IsSecret size (g.draw size attempts draws).1 := by
  induction attempts generalizing draws with
  | zero => exact isSecret_fallback hg hpool size
  | succ attempts ih =>
    rw [draw_succ]
    split
    · next h =>
      have hlength : (draws.take size).1.length = size := by simp [Draws.take]
      simpa [hlength] using isSecret_candidate hpool h
    · exact ih _

theorem isSecret_generate {g : Generator} (hg : g.IsSound) (hpool : g.pool ≠ []) (size : Nat)
    (draws : Draws) : g.IsSecret size (g.generate size draws).1 := by
  unfold generate
  split
  · next h =>
    obtain rfl : size = 0 := by simpa [hpool] using h
    refine ⟨rfl, by simp, fun hroom => ?_⟩
    rw [satisfies, List.length_eq_zero_iff.1 (Nat.le_zero.1 hroom)]
    rfl
  · exact isSecret_draw hg hpool size _ draws

/-- What a generator may give: the secret that it draws, and what it would draw without a bound
on the attempts. -/
inductive Gives (g : Generator) (size : Nat) (draws : Draws) : List Char → Prop where
  | bounded : Gives g size draws (g.generate size draws).1
  | unbounded {value : List Char} {after : Draws} (h : g.Drawn size draws value after) :
      Gives g size draws value

theorem isSecret_of_gives {g : Generator} (hg : g.IsSound) (hpool : g.pool ≠ []) {size : Nat}
    {draws : Draws} {value : List Char} (h : g.Gives size draws value) : g.IsSecret size value := by
  cases h with
  | bounded => exact isSecret_generate hg hpool size draws
  | unbounded h =>
    obtain ⟨enough, hdraw⟩ := draw_of_drawn h
    have hsecret := isSecret_draw hg hpool size enough draws
    rwa [hdraw enough (Nat.le_refl enough)] at hsecret

theorem filterMap_class? {classes : List (List Char)} (h : ∀ cls ∈ classes, cls ≠ []) :
    (classes.map Registration.required).filterMap Registration.class? = classes := by
  induction classes with
  | nil => rfl
  | cons cls classes ih =>
    obtain ⟨hcls, hclasses⟩ := List.forall_mem_cons.1 h
    cases cls with
    | nil => exact absurd rfl hcls
    | cons c cls => simpa [Registration.class?] using ih hclasses

end Generator

namespace Policy

open Generator

def registrations (p : Policy) : List Registration :=
  match p.pool? with
  | some chars => [.plain chars.toList]
  | none =>
    if p.classes = [] then
      [.plain upperCase.toList, .plain lowerCase.toList, .plain Secret.digits.toList]
    else if p.isOpen then p.classes.map .plain
    else p.classes.map .required

theorem ne_nil_of_mem_classes {p : Policy} {cls : List Char} (h : cls ∈ p.classes) : cls ≠ [] := by
  unfold classes at h
  simp only [List.mem_append, List.mem_ite_nil_right, List.mem_ite_nil_left,
    List.mem_singleton] at h
  rcases h with ((⟨-, rfl⟩ | ⟨-, rfl⟩) | ⟨-, rfl⟩) | ⟨hspecial, rfl⟩
  · decide
  · decide
  · decide
  · intro hnil
    simp [isBlankText, hnil] at hspecial

theorem exists_mem_classes {p : Policy} (h : p.classes ≠ []) : ∃ c, ∃ cls ∈ p.classes, c ∈ cls := by
  obtain ⟨cls, hcls⟩ := List.exists_mem_of_ne_nil _ h
  obtain ⟨c, hc⟩ := List.exists_mem_of_ne_nil _ (ne_nil_of_mem_classes hcls)
  exact ⟨c, cls, hcls, hc⟩

theorem pool?_eq_some_iff {p : Policy} {chars : String} :
    p.pool? = some chars ↔ p.chars = some chars ∧ isBlankText chars = false := by
  simp [pool?]

theorem pool?_eq_none_iff {p : Policy} :
    p.pool? = none ↔ ∀ chars ∈ p.chars, isBlankText chars := by
  simp [pool?]

theorem foldl_classes (p : Policy) :
    (if p.isOpen then p.classes.foldl add {} else p.classes.foldl require {}) =
      ofRegistrations (if p.isOpen then p.classes.map .plain else p.classes.map .required) := by
  split <;> rw [ofRegistrations, List.foldl_map] <;> rfl

theorem mem_pool_classes {p : Policy} {c : Char} :
    c ∈ (ofRegistrations
        (if p.isOpen then p.classes.map .plain else p.classes.map .required)).pool ↔
      ∃ cls ∈ p.classes, c ∈ cls := by
  rw [mem_pool_ofRegistrations]
  split <;> simp only [List.mem_map, exists_exists_and_eq_and, Registration.chars_plain,
    Registration.chars_required]

theorem generator_eq (p : Policy) : p.generator = ofRegistrations p.registrations := by
  unfold generator registrations
  cases p.pool? with
  | some chars => rfl
  | none =>
    by_cases hnone : p.classes = []
    · simp [hnone, ofRegistrations, register]
    · obtain ⟨c, hc⟩ := exists_mem_classes hnone
      have hpool := List.isEmpty_eq_false_iff_exists_mem.2 ⟨c, mem_pool_classes.2 hc⟩
      dsimp only
      rw [foldl_classes, hpool, if_neg hnone]
      rfl

theorem mem_pool_generator {p : Policy} {c : Char} :
    c ∈ p.generator.pool ↔
      match p.pool? with
      | some chars => c ∈ chars.toList
      | none =>
        if p.classes = [] then
          c ∈ upperCase.toList ∨ c ∈ lowerCase.toList ∨ c ∈ Secret.digits.toList
        else ∃ cls ∈ p.classes, c ∈ cls := by
  rw [generator_eq, registrations]
  cases p.pool? with
  | some chars => simp [mem_pool_ofRegistrations]
  | none =>
    dsimp only
    split
    · simp [mem_pool_ofRegistrations]
    · exact mem_pool_classes

theorem pool_generator_ne_nil (p : Policy) : p.generator.pool ≠ [] := by
  have hmem : ∃ c, c ∈ p.generator.pool := by
    simp only [mem_pool_generator]
    cases hpool : p.pool? with
    | some chars =>
      refine List.exists_mem_of_ne_nil _ fun hnil => ?_
      simpa [isBlankText, hnil] using (pool?_eq_some_iff.1 hpool).2
    | none =>
      dsimp only
      split
      · exact ⟨'A', Or.inl (by decide)⟩
      · next hsome => exact exists_mem_classes hsome
  obtain ⟨c, hc⟩ := hmem
  exact List.ne_nil_of_mem hc

theorem required_generator {p : Policy} (hpool : p.pool? = none) (hopen : p.isOpen = false) :
    p.generator.required = p.classes := by
  rw [generator_eq, required_ofRegistrations, registrations, hpool]
  dsimp only
  split
  · next hnone => rw [hnone]; rfl
  · rw [if_neg (by simp [hopen]), filterMap_class? fun _ => ne_nil_of_mem_classes]

theorem isAlphanum_of_mem {c : Char}
    (h : c ∈ upperCase.toList ∨ c ∈ lowerCase.toList ∨ c ∈ Secret.digits.toList) :
    c.isAlphanum := by
  have hall : ∀ chars ∈ [upperCase, lowerCase, Secret.digits],
      chars.toList.all Char.isAlphanum := by
    decide
  rcases h with h | h | h <;> exact List.all_eq_true.1 (hall _ (by decide)) c h

/-- What a policy asks of a secret. -/
structure Permits (p : Policy) (value : List Char) : Prop where
  length : value.length = if p.size = 0 then 16 else p.size
  chars : ∀ chars, p.chars = some chars → isBlankText chars = false → ∀ c ∈ value, c ∈ chars.toList
  classes : (∀ chars ∈ p.chars, isBlankText chars) → p.classes ≠ [] →
    ∀ c ∈ value, ∃ cls ∈ p.classes, c ∈ cls
  usual : (∀ chars ∈ p.chars, isBlankText chars) → p.classes = [] → ∀ c ∈ value, c.isAlphanum
  each : (∀ chars ∈ p.chars, isBlankText chars) → p.isOpen = false →
    p.classes.length ≤ value.length → ∀ cls ∈ p.classes, ∃ c ∈ cls, c ∈ value

theorem permits_of_isSecret {p : Policy} {value : List Char}
    (h : p.generator.IsSecret p.effectiveSize value) : p.Permits value where
  length := h.length
  chars chars hchars hblank c hc := by
    have hmem := mem_pool_generator.1 (h.pool c hc)
    rwa [pool?_eq_some_iff.2 ⟨hchars, hblank⟩] at hmem
  classes hblank hsome c hc := by
    have hmem := mem_pool_generator.1 (h.pool c hc)
    rw [pool?_eq_none_iff.2 hblank] at hmem
    simpa only [if_neg hsome] using hmem
  usual hblank hnone c hc := by
    have hmem := mem_pool_generator.1 (h.pool c hc)
    rw [pool?_eq_none_iff.2 hblank] at hmem
    exact isAlphanum_of_mem (by simpa only [if_pos hnone] using hmem)
  each hblank hopen hroom cls hcls := by
    have hrequired := required_generator (pool?_eq_none_iff.2 hblank) hopen
    exact h.shows (by rwa [hrequired, ← h.length]) (by rwa [hrequired])

end Policy

/-- Whatever is registered, while there is room for one character of each class some numbers make
a candidate that passes, and a value that comes out is of the size asked for, of characters that
were registered, and shows every class; so the secrets of a policy are as it says. -/
theorem generated_as_asked :
    (∀ (rs : List Generator.Registration) (size : Nat), (∃ r ∈ rs, r.chars ≠ []) →
      (rs.filterMap Generator.Registration.class?).length ≤ size →
        (∃ numbers, numbers.length = size ∧
          (Generator.ofRegistrations rs).satisfies
            ((Generator.ofRegistrations rs).candidate numbers)) ∧
        ∀ draws value, (Generator.ofRegistrations rs).Gives size draws value →
          value.length = size ∧ (∀ c ∈ value, ∃ r ∈ rs, c ∈ r.chars) ∧
            ∀ cls, .required cls ∈ rs → cls ≠ [] → ∃ c ∈ cls, c ∈ value) ∧
    ∀ (p : Policy) (draws : Draws),
      p.generator.Gives p.effectiveSize draws (p.generate draws).1.toList ∧
        ∀ value, p.generator.Gives p.effectiveSize draws value → value ≠ [] ∧ p.Permits value := by
  refine ⟨fun rs size hsome hroom => ?_, fun p draws => ⟨?_, fun value hgiven => ?_⟩⟩
  · have hsound := Generator.isSound_ofRegistrations rs
    have hpool : (Generator.ofRegistrations rs).pool ≠ [] := by
      obtain ⟨r, hr, hchars⟩ := hsome
      obtain ⟨c, hc⟩ := List.exists_mem_of_ne_nil _ hchars
      exact List.ne_nil_of_mem ((Generator.mem_pool_ofRegistrations rs).2 ⟨r, hr, hc⟩)
    rw [← Generator.required_ofRegistrations] at hroom
    refine ⟨Generator.exists_satisfies hsound hpool hroom, fun draws value hgiven => ?_⟩
    have hsecret := Generator.isSecret_of_gives hsound hpool hgiven
    refine ⟨hsecret.length, fun c hc => ?_, fun cls hcls hne => ?_⟩
    · exact (Generator.mem_pool_ofRegistrations rs).1 (hsecret.pool c hc)
    · exact hsecret.shows hroom (Generator.mem_required_ofRegistrations hne hcls)
  · rw [Policy.generate, String.toList_ofList]
    exact .bounded
  · have hsound : p.generator.IsSound := p.generator_eq ▸ Generator.isSound_ofRegistrations _
    have hpermits := Policy.permits_of_isSecret
      (Generator.isSecret_of_gives hsound p.pool_generator_ne_nil hgiven)
    refine ⟨?_, hpermits⟩
    rintro rfl
    have hlength := hpermits.length
    split at hlength
    · contradiction
    · next hsize => exact hsize hlength.symm

/-- As many classes as there are characters, and all of them overlap. -/
theorem generated_as_asked_overlapping :
    let rs : List Generator.Registration :=
      [.required ['a', 'b'], .required ['b', 'a'], .plain [' '], .required ['b'], .required []]
    let p : Policy := { size := 2, upper := false, digits := false, special := "a " }
    ((∃ r ∈ rs, r.chars ≠ []) ∧ (rs.filterMap Generator.Registration.class?).length ≤ 3 ∧
        ∀ draws, 'b' ∈ ((Generator.ofRegistrations rs).generate 3 draws).1) ∧
      ∀ draws, (p.generate draws).1.toList.length = 2 ∧
        ∃ c ∈ ['a', ' '], c ∈ (p.generate draws).1.toList := by
  intro rs p
  obtain ⟨hgenerator, hpolicy⟩ := generated_as_asked
  have hsome : ∃ r ∈ rs, r.chars ≠ [] := by decide
  have hroom : (rs.filterMap Generator.Registration.class?).length ≤ 3 := by decide
  refine ⟨⟨hsome, hroom, fun draws => ?_⟩, fun draws => ?_⟩
  · obtain ⟨-, -, hclasses⟩ := (hgenerator rs 3 hsome hroom).2 draws _ .bounded
    obtain ⟨c, hc, hmem⟩ := hclasses ['b'] (by decide) (by decide)
    rwa [List.mem_singleton.1 hc] at hmem
  · obtain ⟨-, hpermits⟩ := (hpolicy p draws).2 _ (hpolicy p draws).1
    have hlength : (p.generate draws).1.toList.length = 2 := hpermits.length
    exact ⟨hlength, hpermits.each (by simp [p]) rfl (by rw [hlength]; decide) _ (by decide)⟩

end SecretDotenv.Secret
