import StoredProgram.Text.Decimal

set_option autoImplicit false

namespace StoredProgram.Decimal

/-- The digits are a numeral of the number, with any number of zeros in front. -/
def Denotes (cs : List Char) (n : Nat) : Prop :=
  ∃ zeros, cs = List.replicate zeros '0' ++ Nat.toDigits 10 n

theorem toNat_digit {c : Char} (digit : c.isDigit = true) : 48 ≤ c.toNat ∧ c.toNat ≤ 57 := by
  have bounds : (decide (c.val ≥ '0'.val) && decide (c.val ≤ '9'.val)) = true := digit
  simp only [Bool.and_eq_true, decide_eq_true_eq, ge_iff_le, UInt32.le_iff_toNat_le] at bounds
  exact bounds

theorem digitChar_digit {c : Char} (digit : c.isDigit = true) : Nat.digitChar (c.toNat - 48) = c := by
  obtain ⟨lower, upper⟩ := toNat_digit digit
  apply Char.toNat_inj.mp
  rw [Nat.toNat_digitChar_of_lt_ten (by omega)]
  omega

/-- Digits that follow the numeral of a number make up a longer numeral, unless the number is zero. -/
theorem toDigits_append {cs : List Char} (digits : ∀ c ∈ cs, c.isDigit = true) {n : Nat}
    (positive : 0 < n) :
    Nat.toDigits 10 n ++ cs = Nat.toDigits 10 (Nat.ofDigitChars 10 cs n) := by
  induction cs generalizing n with
  | nil => rw [List.append_nil, Nat.ofDigitChars_nil]
  | cons c cs ih =>
      have digit : c.isDigit = true := digits c (by simp)
      have small : c.toNat - 48 < 10 := by
        have bounds := toNat_digit digit
        omega
      have one : Nat.toDigits 10 n ++ [c] = Nat.toDigits 10 (10 * n + (c.toNat - 48)) := by
        rw [← Nat.toDigits_append_toDigits (by decide) positive small, Nat.toDigits_of_lt_base small,
          digitChar_digit digit]
      have rest := ih (fun d member => digits d (List.mem_cons_of_mem c member))
        (n := 10 * n + (c.toNat - 48)) (by omega)
      rw [Nat.ofDigitChars_cons, ← List.singleton_append, ← List.append_assoc, one]
      exact rest

/-- Any digits at all are a numeral of the number that they make up. -/
theorem denotes_ofDigitChars {cs : List Char} (some_digit : cs ≠ [])
    (digits : ∀ c ∈ cs, c.isDigit = true) : Denotes cs (Nat.ofDigitChars 10 cs 0) := by
  induction cs with
  | nil => exact absurd rfl some_digit
  | cons c cs ih =>
      have digit : c.isDigit = true := digits c (by simp)
      have rest : ∀ d ∈ cs, d.isDigit = true := fun d member => digits d (List.mem_cons_of_mem c member)
      have value : Nat.ofDigitChars 10 (c :: cs) 0 = Nat.ofDigitChars 10 cs (c.toNat - 48) := by
        rw [Nat.ofDigitChars_cons, Nat.mul_zero, Nat.zero_add]
        rfl
      by_cases zero : c = '0'
      · subst zero
        rw [value]
        by_cases last : cs = []
        · subst last
          exact ⟨0, rfl⟩
        · obtain ⟨zeros, whole⟩ := ih last rest
          refine ⟨zeros + 1, ?_⟩
          rw [List.replicate_succ, List.cons_append]
          exact congrArg ('0' :: ·) whole
      · have bounds := toNat_digit digit
        have positive : 0 < c.toNat - 48 := by
          have other : c.toNat ≠ 48 := fun same => zero (Char.toNat_inj.mp same)
          omega
        refine ⟨0, ?_⟩
        rw [value, ← toDigits_append rest positive, Nat.toDigits_of_lt_base (by omega),
          digitChar_digit digit]
        rfl

theorem natural?_eq_some_iff {cs : List Char} {n : Nat} : natural? cs = some n ↔ Denotes cs n := by
  constructor
  · intro read
    unfold natural? at read
    split at read
    · rename_i form
      rw [← Option.some.inj read]
      exact denotes_ofDigitChars form.1 (List.all_eq_true.mp form.2)
    · cases read
  · rintro ⟨zeros, rfl⟩
    have digits : ∀ c ∈ List.replicate zeros '0' ++ Nat.toDigits 10 n, c.isDigit = true := by
      intro c member
      rcases List.mem_append.mp member with zero | digit
      · rw [(List.mem_replicate.mp zero).2]
        rfl
      · exact Nat.isDigit_of_mem_toDigits (by decide) (by decide) digit
    have some_digit : List.replicate zeros '0' ++ Nat.toDigits 10 n ≠ [] := by
      simp [Nat.toDigits_ne_nil]
    rw [natural?, if_pos ⟨some_digit, List.all_eq_true.mpr digits⟩, Nat.ofDigitChars_append,
      Nat.ofDigitChars_replicate_zero, Nat.mul_zero, Nat.ofDigitChars_toDigits (by decide) (by decide)]

theorem natural?_eq_none_iff {cs : List Char} : natural? cs = none ↔ ∀ n, ¬ Denotes cs n := by
  simp only [← natural?_eq_some_iff, Option.eq_none_iff_forall_ne_some, ne_eq]

/-- A numeral denotes one number only. -/
theorem Denotes.unique {cs : List Char} {n k : Nat} (first : Denotes cs n) (second : Denotes cs k) :
    n = k :=
  Option.some.inj ((natural?_eq_some_iff.mpr first).symm.trans (natural?_eq_some_iff.mpr second))

theorem Denotes.isDigit {cs : List Char} {n : Nat} (denotes : Denotes cs n) :
    cs ≠ [] ∧ ∀ c ∈ cs, c.isDigit = true := by
  have read := natural?_eq_some_iff.mpr denotes
  unfold natural? at read
  split at read
  · rename_i form
    exact ⟨form.1, List.all_eq_true.mp form.2⟩
  · cases read

end StoredProgram.Decimal
