import StoredProgram.Proofs.Assembly.Spelling

set_option autoImplicit false

namespace StoredProgram

namespace Decimal

/-- A run of ASCII digits, and at least one of them. -/
def IsNumeral (cs : List Char) : Prop := cs ≠ [] ∧ ∀ c ∈ cs, c.isDigit = true

instance (cs : List Char) : Decidable (IsNumeral cs) :=
  decidable_of_iff (cs ≠ [] ∧ cs.all Char.isDigit = true) (by rw [IsNumeral, List.all_eq_true])

def digit (c : Char) : Nat := c.toNat - 48

/-- The number that digits make up by their places. The last one counts ones. -/
def value : List Char → Nat
  | [] => 0
  | c :: cs => digit c * Nat.pow 10 cs.length + value cs

/-- Reads digits behind the number that was read so far. The first product or sum that does not fit in 64
bits ends the reading. -/
def accumulate (n : BitVec 64) : List Char → Option (BitVec 64)
  | [] => some n
  | c :: cs =>
    let d := BitVec.ofNat 64 (digit c)
    if n.umulOverflow 10#64 || (n * 10#64).uaddOverflow d then none else accumulate (n * 10#64 + d) cs

/-- The numbers below this one have 64 bits. -/
def accumulatorLimit : Nat := 18446744073709551616

variable {cs : List Char}

theorem digit_lt {c : Char} (isDigit : c.isDigit = true) : digit c < 10 := by
  have bounds := toNat_digit isDigit
  simp only [digit]
  omega

/-- Reading from the left, digit after digit, gives the same number as the places of the digits. -/
theorem ofDigitChars_eq (cs : List Char) (n : Nat) :
    Nat.ofDigitChars 10 cs n = n * Nat.pow 10 cs.length + value cs := by
  induction cs generalizing n with
  | nil => simp [value]
  | cons c cs ih =>
      have place : Nat.pow 10 (c :: cs).length = Nat.pow 10 cs.length * 10 := rfl
      have read : Nat.ofDigitChars 10 (c :: cs) n = Nat.ofDigitChars 10 cs (10 * n + digit c) :=
        Nat.ofDigitChars_cons
      rw [read, ih, place, value]
      grind

theorem natural?_eq (cs : List Char) :
    natural? cs = if IsNumeral cs then some (value cs) else none := by
  have number : Nat.ofDigitChars 10 cs 0 = value cs := by
    rw [ofDigitChars_eq, Nat.zero_mul, Nat.zero_add]
  have form : (cs ≠ [] ∧ cs.all Char.isDigit = true) ↔ IsNumeral cs := by
    rw [IsNumeral, List.all_eq_true]
  rw [natural?, number]
  by_cases numeral : IsNumeral cs
  · rw [if_pos (form.mpr numeral), if_pos numeral]
  · rw [if_neg (mt form.mp numeral), if_neg numeral]

theorem isNumeral_zeros (zeros : Nat) (some_char : cs ≠ []) :
    IsNumeral (List.replicate zeros '0' ++ cs) ↔ IsNumeral cs := by
  have zero : ∀ c ∈ List.replicate zeros '0', c.isDigit = true := by
    intro c member
    rw [(List.mem_replicate.mp member).2]
    rfl
  simp only [IsNumeral, ne_eq, List.append_eq_nil_iff, some_char, and_false, not_false_eq_true,
    true_and, List.forall_mem_append]
  exact and_iff_right zero

theorem value_zeros (zeros : Nat) (cs : List Char) :
    value (List.replicate zeros '0' ++ cs) = value cs := by
  induction zeros with
  | zero => rfl
  | succ zeros ih =>
      have nothing : digit '0' = 0 := rfl
      rw [List.replicate_succ, List.cons_append, value, nothing, ih, Nat.zero_mul, Nat.zero_add]

/-- More digits never make a number smaller. -/
theorem le_ofDigitChars (cs : List Char) (n : Nat) : n ≤ Nat.ofDigitChars 10 cs n := by
  have place : 0 < Nat.pow 10 cs.length := Nat.pow_pos (by decide)
  rw [ofDigitChars_eq]
  calc
    n = n * 1 := (Nat.mul_one n).symm
    _ ≤ n * Nat.pow 10 cs.length := Nat.mul_le_mul_left n place
    _ ≤ n * Nat.pow 10 cs.length + value cs := Nat.le_add_right _ _

theorem overflows_iff (n : BitVec 64) {d : Nat} (small : d < 10) :
    (n.umulOverflow 10#64 || (n * 10#64).uaddOverflow (BitVec.ofNat 64 d)) = true ↔
      accumulatorLimit ≤ 10 * n.toNat + d := by
  have bound := n.isLt
  simp only [BitVec.umulOverflow, BitVec.uaddOverflow, BitVec.toNat_mul, BitVec.toNat_ofNat,
    accumulatorLimit, Bool.or_eq_true, decide_eq_true_eq, ge_iff_le]
  omega

theorem toNat_next (n : BitVec 64) {d : Nat} (fits : 10 * n.toNat + d < accumulatorLimit) :
    (n * 10#64 + BitVec.ofNat 64 d).toNat = 10 * n.toNat + d := by
  simp only [accumulatorLimit] at fits
  simp only [BitVec.toNat_add, BitVec.toNat_mul, BitVec.toNat_ofNat]
  omega

/-- An accumulator gives up exactly if the number of all digits is too large for it, however many digits
follow the one at which it gives up. -/
theorem accumulate_eq (digits : ∀ c ∈ cs, c.isDigit = true) (n : BitVec 64) :
    accumulate n cs =
      if Nat.ofDigitChars 10 cs n.toNat < accumulatorLimit then
        some (BitVec.ofNat 64 (Nat.ofDigitChars 10 cs n.toNat))
      else none := by
  -- By induction on the digits that are left, with any number read before them.
  induction cs generalizing n with
  | nil =>
      have whole : n.toNat < accumulatorLimit := n.isLt
      rw [Nat.ofDigitChars_nil, if_pos whole, BitVec.ofNat_toNat, BitVec.setWidth_eq, accumulate]
  | cons c cs ih =>
      have small := digit_lt (digits c (by simp))
      have rest : ∀ other ∈ cs, other.isDigit = true :=
        fun other member => digits other (List.mem_cons_of_mem c member)
      have read : Nat.ofDigitChars 10 (c :: cs) n.toNat =
          Nat.ofDigitChars 10 cs (10 * n.toNat + digit c) := Nat.ofDigitChars_cons
      have exceeds := overflows_iff n small
      have grows := le_ofDigitChars cs (10 * n.toNat + digit c)
      rw [accumulate, read]
      by_cases fits : 10 * n.toNat + digit c < accumulatorLimit
      · rw [if_neg (by rw [exceeds]; omega), ih rest, toNat_next n fits]
      · rw [if_pos (exceeds.mpr (by omega)), if_neg (by omega)]

theorem accumulate_zero (numeral : IsNumeral cs) :
    accumulate 0#64 cs =
      if value cs < accumulatorLimit then some (BitVec.ofNat 64 (value cs)) else none := by
  have number : Nat.ofDigitChars 10 cs (0#64).toNat = value cs := by
    rw [ofDigitChars_eq, BitVec.toNat_zero, Nat.zero_mul, Nat.zero_add]
  rw [accumulate_eq numeral.2, number]

end Decimal

namespace Immediate

open Decimal (IsNumeral value accumulate accumulatorLimit)

def parseChecked (token : String) (width : Nat) : Except LineError Word :=
  if IsNumeral token.toList then
    match accumulate 0#64 token.toList with
    | some n =>
      if n < 1#64 <<< width then .ok (n.setWidth 32) else .error (.immediateOutOfRange token width)
    | none => .error (.immediateOutOfRange token width)
  else .error (.invalidImmediate token)

variable {token : String} {width : Nat}

theorem parse_eq (token : String) (width : Nat) :
    parse token width =
      if IsNumeral token.toList then fit token (value token.toList) width
      else .error (.invalidImmediate token) := by
  rw [parse, Decimal.natural?_eq]
  by_cases numeral : IsNumeral token.toList
  · simp only [if_pos numeral]
  · simp only [if_neg numeral]

theorem parse_eq_ok_iff_value {w : Word} :
    parse token width = .ok w ↔ IsNumeral token.toList ∧ value token.toList < Nat.pow 2 width ∧
      w.toNat = value token.toList % 4294967296 := by
  have number : w.toNat = value token.toList % 4294967296 ↔
      BitVec.ofNat 32 (value token.toList) = w := by
    rw [← BitVec.toNat_inj, BitVec.toNat_ofNat]
    exact eq_comm
  rw [parse_eq, number]
  by_cases numeral : IsNumeral token.toList
  · rw [if_pos numeral, and_iff_right numeral, fit]
    split
    · rename_i within
      simp only [Except.ok.injEq, within, true_and]
    · rename_i large
      simp only [reduceCtorEq, large, false_and]
  · rw [if_neg numeral]
    simp only [reduceCtorEq, numeral, false_and]

theorem parse_eq_error_iff_value {e : LineError} :
    parse token width = .error e ↔
      (IsNumeral token.toList ∧ Nat.pow 2 width ≤ value token.toList ∧
        e = .immediateOutOfRange token width) ∨
      (¬ IsNumeral token.toList ∧ e = .invalidImmediate token) := by
  rw [parse_eq]
  by_cases numeral : IsNumeral token.toList
  · rw [if_pos numeral, fit]
    split
    · rename_i within
      simp only [reduceCtorEq, numeral, Nat.not_le.mpr within, false_and, and_false, not_true_eq_false,
        or_false]
    · rename_i large
      simp only [Except.error.injEq, numeral, Nat.not_lt.mp large, true_and, not_true_eq_false,
        false_and, or_false, eq_comm]
  · rw [if_neg numeral]
    simp only [Except.error.injEq, numeral, false_and, not_false_eq_true, true_and, false_or, eq_comm]

theorem parse_zeros (zeros : Nat) (some_char : token ≠ "") (w : Word) :
    parse (String.ofList (List.replicate zeros '0') ++ token) width = .ok w ↔
      parse token width = .ok w := by
  have some_char : token.toList ≠ [] := by simpa using some_char
  rw [parse_eq_ok_iff_value, parse_eq_ok_iff_value, String.toList_append, String.toList_ofList,
    Decimal.isNumeral_zeros zeros some_char, Decimal.value_zeros]

theorem toNat_shifted_one (narrow : width ≤ 63) : (1#64 <<< width).toNat = Nat.pow 2 width := by
  have bound : Nat.pow 2 width < 18446744073709551616 :=
    Nat.pow_lt_pow_right (n := 64) (by decide) (by omega)
  rw [BitVec.toNat_shiftLeft, Nat.shiftLeft_eq, BitVec.toNat_ofNat]
  have one : 1 % 2 ^ 64 = 1 := rfl
  rw [one, Nat.one_mul]
  exact Nat.mod_eq_of_lt bound

/-- Nothing that the accumulator cannot hold would fit. -/
theorem parseChecked_eq (token : String) (narrow : width ≤ 63) :
    parseChecked token width = parse token width := by
  have limit : Nat.pow 2 width ≤ accumulatorLimit :=
    Nat.pow_le_pow_right (n := 2) (by decide) (show width ≤ 64 by omega)
  rw [parseChecked, parse_eq]
  by_cases numeral : IsNumeral token.toList
  · rw [if_pos numeral, if_pos numeral, Decimal.accumulate_zero numeral]
    by_cases held : value token.toList < accumulatorLimit
    · have number : (BitVec.ofNat 64 (value token.toList)).toNat = value token.toList := by
        rw [BitVec.toNat_ofNat]
        exact Nat.mod_eq_of_lt held
      have low : (BitVec.ofNat 64 (value token.toList)).setWidth 32 =
          BitVec.ofNat 32 (value token.toList) := by
        rw [← BitVec.ofNat_toNat, number]
      simp only [if_pos held, BitVec.lt_def, number, toNat_shifted_one narrow, low, fit]
    · have large : ¬ value token.toList < Nat.pow 2 width := by omega
      simp only [if_neg held, fit, if_neg large]
  · rw [if_neg numeral, if_neg numeral]

/-- An immediate is a run of digits whose number fits in the width, and no other token is one. Its word has
the number modulo the size of a word, which for the widths of instructions is the number itself. A number
that does not fit is refused as such, and a token that is no run of digits is refused for that. Zeros in
front make no difference. To read it in an accumulator of 64 bits that stops at the first overflow comes to
the same. -/
theorem parse_reads_numbers (token : String) {width : Nat} (narrow : width ≤ 63) :
    (∀ w, parse token width = .ok w ↔ IsNumeral token.toList ∧
      value token.toList < Nat.pow 2 width ∧ w.toNat = value token.toList % 4294967296) ∧
    (∀ e, parse token width = .error e ↔
      (IsNumeral token.toList ∧ Nat.pow 2 width ≤ value token.toList ∧
        e = .immediateOutOfRange token width) ∨
      (¬ IsNumeral token.toList ∧ e = .invalidImmediate token)) ∧
    (width ≤ 32 → ∀ w, parse token width = .ok w → w.toNat = value token.toList) ∧
    (∀ zeros, token ≠ "" → ∀ w,
      parse (String.ofList (List.replicate zeros '0') ++ token) width = .ok w ↔
        parse token width = .ok w) ∧
    parseChecked token width = parse token width := by
  refine ⟨fun _ => parse_eq_ok_iff_value, fun _ => parse_eq_error_iff_value, ?_,
    fun zeros some_char w => parse_zeros zeros some_char w, parseChecked_eq token narrow⟩
  intro single w read
  obtain ⟨_, within, number⟩ := parse_eq_ok_iff_value.mp read
  have wide : Nat.pow 2 width ≤ 4294967296 := Nat.pow_le_pow_right (n := 2) (by decide) single
  rw [number, Nat.mod_eq_of_lt (by omega)]

/-- Thirty zeros in front of the largest immediate of 20 bits change nothing, and the next number is too
large for it. A number of 20 digits does not fit in any of these widths, though its low 64 bits are those of
four. -/
theorem parse_reads_numbers_with_zeros :
    let zeros := String.ofList (List.replicate 30 '0')
    (20 ≤ 63 ∧ "1048575" ≠ "" ∧ parse (zeros ++ "1048575") 20 = .ok 1048575 ∧
      parse (zeros ++ "1048576") 20 = .error (.immediateOutOfRange (zeros ++ "1048576") 20)) ∧
    63 ≤ 63 ∧ parse "18446744073709551620" 63 = .error (.immediateOutOfRange "18446744073709551620" 63) ∧
      parseChecked "18446744073709551620" 63 = parse "18446744073709551620" 63 := by
  intro zeros
  obtain ⟨reads, _, _, padded, _⟩ := parse_reads_numbers "1048575" (show 20 ≤ 63 by decide)
  obtain ⟨_, refused, _⟩ := parse_reads_numbers (zeros ++ "1048576") (show 20 ≤ 63 by decide)
  obtain ⟨_, large, _, _, checked⟩ := parse_reads_numbers "18446744073709551620" (Nat.le_refl 63)
  have fits : parse "1048575" 20 = .ok 1048575 := (reads _).mpr (by decide +kernel)
  exact ⟨⟨by decide, by decide, (padded 30 (by decide) _).mpr fits,
      (refused _).mpr (Or.inl ⟨by decide +kernel, by decide +kernel, rfl⟩)⟩, Nat.le_refl 63,
    (large _).mpr (Or.inl ⟨by decide +kernel, by decide +kernel, rfl⟩), checked⟩

end Immediate
end StoredProgram
