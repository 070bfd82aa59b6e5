import StoredProgram.Assembly.Operand
import StoredProgram.Proofs.Text.Blank
import StoredProgram.Proofs.Text.Lines

set_option autoImplicit false

namespace StoredProgram

theorem Blank.isBlank_of_isAlphanum {c : Char} (h : c.isAlphanum = true) :
    Blank.isBlank c = false := by
  have ranges : (decide (c.val ≥ 'A'.val ∧ c.val ≤ 'Z'.val) ||
      (decide (c.val ≥ 'a'.val) && decide (c.val ≤ 'z'.val)) ||
      (decide (c.val ≥ '0'.val) && decide (c.val ≤ '9'.val))) = true := h
  simp only [Bool.or_eq_true, Bool.and_eq_true, decide_eq_true_eq, ge_iff_le,
    UInt32.le_iff_toNat_le] at ranges
  change ((65 ≤ c.toNat ∧ c.toNat ≤ 90) ∨ (97 ≤ c.toNat ∧ c.toNat ≤ 122)) ∨
    (48 ≤ c.toNat ∧ c.toNat ≤ 57) at ranges
  simp only [Blank.isBlank, Blank.ranges, List.any_cons, List.any_nil, Bool.or_false,
    Bool.or_eq_false_iff, Bool.and_eq_false_iff, decide_eq_false_iff_not]
  omega

/-- A mnemonic stands at the start of a line that is no comment. -/
theorem Opcode.mnemonic_form (op : Opcode) :
    Blank.IsWord op.mnemonic ∧ op.mnemonic.toList.head? ≠ some '#' ∧ Lines.IsLine op.mnemonic := by
  rcases op with op | op | op | op | op <;> cases op <;> decide

namespace Reference

/-- The name of a register is what can follow the stars of a reference. -/
theorem name_form (r : Register) :
    r.name.toList ≠ [] ∧ r.name.toList.all Char.isAlphanum = true := by
  revert r
  decide

theorem dropWhile_name (r : Register) : r.name.toList.dropWhile (· = '*') = r.name.toList := by
  revert r
  decide

theorem takeWhile_name (r : Register) : r.name.toList.takeWhile (· = '*') = [] := by
  revert r
  decide

theorem toList_text (r : Reference) :
    r.text.toList = List.replicate r.level.val '*' ++ r.register.name.toList := by
  simp [text]

theorem parse_text (r : Reference) : parse r.text = .ok r := by
  have starred : ∀ c ∈ List.replicate r.level.val '*', decide (c = '*') = true := by
    intro c member
    simpa using (List.mem_replicate.mp member).2
  have stars : r.text.toList.takeWhile (· = '*') = List.replicate r.level.val '*' := by
    rw [toList_text, List.takeWhile_append_of_pos starred, takeWhile_name, List.append_nil]
  have name : r.text.toList.dropWhile (· = '*') = r.register.name.toList := by
    rw [toList_text, List.dropWhile_append_of_pos starred, dropWhile_name]
  obtain ⟨named, alphanumeric⟩ := name_form r.register
  simp only [parse, stars, name, named, alphanumeric, List.length_replicate, String.ofList_toList,
    Register.ofName?_name, r.level.isLt, ne_eq, not_false_eq_true, and_self, if_true, ↓reduceDIte]

theorem solid_text (r : Reference) : Blank.Solid r.text.toList := by
  rw [toList_text]
  apply Blank.Solid.append
  · intro c member
    rw [(List.mem_replicate.mp member).2]
    rfl
  · intro c member
    exact Blank.isBlank_of_isAlphanum (List.all_eq_true.mp (name_form r.register).2 c member)

theorem isWord_text (r : Reference) : Blank.IsWord r.text := by
  refine ⟨r.solid_text, ?_⟩
  rw [toList_text]
  simp [(name_form r.register).1]

end Reference

theorem Word.toList_unsignedText (w : Word) : w.unsignedText.toList = Nat.toDigits 10 w.toNat :=
  Nat.toList_repr

theorem Word.isWord_unsignedText (w : Word) : Blank.IsWord w.unsignedText := by
  unfold Blank.IsWord
  rw [toList_unsignedText]
  refine ⟨?_, Nat.toDigits_ne_nil⟩
  intro c member
  apply Blank.isBlank_of_isAlphanum
  simp [Char.isAlphanum, Nat.isDigit_of_mem_toDigits (by decide) (by decide) member]

namespace Immediate

theorem fit_of_lt {literal : String} {n width : Nat} (within : n < Nat.pow 2 width) :
    fit literal n width = .ok (BitVec.ofNat 32 n) := by
  rw [fit, if_pos within]

theorem parse_unsignedText {w : Word} {width : Nat} (within : w.toNat < Nat.pow 2 width) :
    parse w.unsignedText width = .ok w := by
  rw [parse, Word.toList_unsignedText, Decimal.natural?_toDigits]
  dsimp only
  rw [fit_of_lt within, BitVec.ofNat_toNat, BitVec.setWidth_eq]

/-- An immediate that was read fits in the width that it was read for, if a word has that many bits. -/
theorem toNat_lt_of_parse {token : String} {width : Nat} {w : Word} (narrow : width ≤ 32)
    (success : parse token width = .ok w) : w.toNat < Nat.pow 2 width := by
  unfold parse at success
  split at success
  · rename_i n found
    unfold fit at success
    split at success
    · rename_i within
      have same := Except.ok.inj success
      have wide : n < Nat.pow 2 32 := Nat.lt_of_lt_of_le within (Nat.pow_le_pow_right (by decide) narrow)
      rw [← same, BitVec.toNat_ofNat]
      exact Nat.lt_of_le_of_lt (Nat.mod_le n _) within
    · cases success
  · cases success

end Immediate
end StoredProgram
