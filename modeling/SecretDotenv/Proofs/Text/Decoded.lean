import Mathlib.Tactic.IntervalCases
import Mathlib.Tactic.SplitIfs
import SecretDotenv.Proofs.Text.Bytes

/-! Bytes read as text. The bytes of a text are read back as that text, and what follows is
read alone unless it goes on with a character that was begun. -/
namespace SecretDotenv.Text

def isFollower (b : UInt8) : Bool :=
  0x80 ≤ b && b ≤ 0xBF

theorem followers_append {low high : UInt8} (hlow : 0x80 ≤ low) (hhigh : high ≤ 0xBF)
    (count : Nat) (a : List UInt8) {b : List UInt8} (hb : ∀ x ∈ b.head?, isFollower x = false) :
    followers low high count (a ++ b) = followers low high count a := by
  induction count generalizing low high a with
  | zero => cases a <;> cases b <;> rfl
  | succ count ih =>
    cases a with
    | nil =>
      cases b with
      | nil => rfl
      | cons x b =>
        have hx := hb x rfl
        simp only [isFollower, Bool.and_eq_false_iff, decide_eq_false_iff_not, UInt8.not_le] at hx
        have hout : ¬ (low ≤ x ∧ x ≤ high) := by
          simp only [UInt8.le_iff_toNat_le, UInt8.lt_iff_toNat_lt] at *
          omega
        simp [followers, hout]
    | cons x a =>
      have hrest : followers 0x80 0xBF count (a ++ b) = followers 0x80 0xBF count a :=
        ih (by decide) (by decide) a
      simp only [List.cons_append, followers, hrest]

theorem length_followers_le (low high : UInt8) (count : Nat) (a : List UInt8) :
    (followers low high count a).length ≤ a.length := by
  fun_induction followers low high count a with
  | case1 => simp_all
  | case2 => simp
  | case3 => simp

theorem bounds_of_lead? {b low high : UInt8} {count : Nat} (h : lead? b = some (low, high, count)) :
    0x80 ≤ low ∧ high ≤ 0xBF := by
  unfold lead? at h
  repeat' split at h
  all_goals
    first
    | contradiction
    | (obtain ⟨rfl, rfl, -⟩ : _ ∧ _ ∧ _ := by simpa using h
       decide)

theorem decodeUtf8_append (a : List UInt8) {b : List UInt8}
    (hb : ∀ x ∈ b.head?, isFollower x = false) :
    decodeUtf8 (a ++ b) = decodeUtf8 a ++ decodeUtf8 b := by
  fun_induction decodeUtf8 a with
  | case1 => rfl
  | case2 x rest hx ih => rw [List.cons_append, decodeUtf8, if_pos hx, ih, List.cons_append]
  | case3 x rest hx hlead ih =>
    rw [List.cons_append, decodeUtf8, if_neg hx, hlead]
    simp only [ih, List.cons_append]
  | case4 x rest hx low high count hlead taken c ih =>
    obtain ⟨hlow, hhigh⟩ := bounds_of_lead? hlead
    have htaken : taken.length ≤ rest.length := length_followers_le low high count rest
    rw [List.cons_append, decodeUtf8, if_neg hx, hlead]
    simp only [followers_append hlow hhigh count rest hb, List.cons_append]
    rw [List.drop_append_of_le_length htaken, ih]
    rfl

theorem not_lt_of_lead? {b low high : UInt8} {count : Nat} (h : lead? b = some (low, high, count)) :
    ¬ b < 0x80 := by
  intro hb
  simp only [UInt8.lt_iff_toNat_lt] at hb
  unfold lead? at h
  repeat' split at h
  all_goals simp_all [UInt8.le_iff_toNat_le]
  all_goals omega

theorem decodeUtf8_lead {b low high : UInt8} {count : Nat} (tail : List UInt8) {rest : List UInt8}
    (hlead : lead? b = some (low, high, count)) (hlength : tail.length = count)
    (htail : followers low high count (tail ++ rest) = tail) :
    decodeUtf8 (b :: (tail ++ rest)) = Char.ofNat (codePoint b tail) :: decodeUtf8 rest := by
  rw [decodeUtf8, if_neg (not_lt_of_lead? hlead), hlead]
  simp only [htail, hlength, if_true]
  rw [← hlength, List.drop_left]

section Lead

variable {n : Nat}

theorem lead?_of_two (h : 0xC2 ≤ n ∧ n ≤ 0xDF) : lead? (UInt8.ofNat n) = some (0x80, 0xBF, 1) := by
  obtain ⟨hlow, hhigh⟩ := h
  interval_cases n <;> rfl

theorem lead?_of_three (h : 0xE0 ≤ n ∧ n ≤ 0xEF) : lead? (UInt8.ofNat n) =
    some (if n = 0xE0 then 0xA0 else 0x80, if n = 0xED then 0x9F else 0xBF, 2) := by
  obtain ⟨hlow, hhigh⟩ := h
  interval_cases n <;> rfl

theorem lead?_of_four (h : 0xF0 ≤ n ∧ n ≤ 0xF4) : lead? (UInt8.ofNat n) =
    some (if n = 0xF0 then 0x90 else 0x80, if n = 0xF4 then 0x8F else 0xBF, 3) := by
  obtain ⟨hlow, hhigh⟩ := h
  interval_cases n <;> rfl

end Lead

theorem followers_cons {low high b : UInt8} (h : low ≤ b ∧ b ≤ high) (count : Nat)
    (rest : List UInt8) :
    followers low high (count + 1) (b :: rest) = b :: followers 0x80 0xBF count rest := by
  simp [followers, h]

theorem followers_zero (low high : UInt8) (rest : List UInt8) : followers low high 0 rest = [] := by
  simp [followers]

theorem decodeUtf8_utf8EncodeChar (c : Char) (rest : List UInt8) :
    decodeUtf8 (String.utf8EncodeChar c ++ rest) = c :: decodeUtf8 rest := by
  have hvalid : c.toNat < 0xD800 ∨ 0xDFFF < c.toNat ∧ c.toNat < 0x110000 := c.valid
  have hlast : ∀ n : Nat, 0x80 ≤ UInt8.ofNat (n % 64 + 128) ∧ UInt8.ofNat (n % 64 + 128) ≤ 0xBF := by
    intro n
    simp only [UInt8.le_iff_toNat_le, UInt8.toNat_ofNat']
    simp
    omega
  have hread : ∀ n, n = c.toNat → Char.ofNat n = c := fun n hn => hn ▸ Char.ofNat_toNat c
  unfold String.utf8EncodeChar
  rw [show c.val.toNat = c.toNat from rfl]
  dsimp only
  split
  · next hone =>
    rw [List.singleton_append, decodeUtf8, if_pos]
    · rw [hread]
      simp
      omega
    · simp only [UInt8.lt_iff_toNat_lt, UInt8.toNat_ofNat']
      simp
      omega
  split
  · next hone htwo =>
    refine (decodeUtf8_lead [_] (lead?_of_two ?_) rfl ?_).trans ?_
    · omega
    · simp only [List.cons_append, List.nil_append, followers_cons (hlast _), followers_zero]
    · rw [hread]
      simp [codePoint]
      omega
  split
  · next hone htwo hthree =>
    refine (decodeUtf8_lead [_, _] (lead?_of_three ?_) rfl ?_).trans ?_
    · omega
    · rw [List.cons_append, followers_cons, List.cons_append, List.nil_append,
        followers_cons (hlast _), followers_zero]
      constructor <;> split_ifs <;> simp [UInt8.le_iff_toNat_le] <;> omega
    · rw [hread]
      simp [codePoint]
      omega
  · next hone htwo hthree =>
    refine (decodeUtf8_lead [_, _, _] (lead?_of_four ?_) rfl ?_).trans ?_
    · omega
    · rw [List.cons_append, followers_cons, List.cons_append, List.cons_append, List.nil_append,
        followers_cons (hlast _), followers_cons (hlast _), followers_zero]
      constructor <;> split_ifs <;> simp [UInt8.le_iff_toNat_le] <;> omega
    · rw [hread]
      simp [codePoint]
      omega

theorem decodeUtf8_utf8 (s : List Char) : decodeUtf8 (utf8 s) = s := by
  induction s with
  | nil => rw [utf8_nil, decodeUtf8]
  | cons c s ih => rw [utf8, List.flatMap_cons, decodeUtf8_utf8EncodeChar, ← utf8, ih]

end SecretDotenv.Text
