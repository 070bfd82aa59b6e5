import StoredProgram.Assembly.Statement
import StoredProgram.Proofs.Assembly.Operand
import StoredProgram.Proofs.Instruction.Codec

set_option autoImplicit false

namespace StoredProgram

namespace Instruction

def operandTexts : Instruction → List String
  | twoRef _ first second => [first.text, second.text]
  | refImm _ first immediate => [first.text, immediate.unsignedText]
  | ref _ first => [first.text]
  | imm _ immediate => [immediate.unsignedText]
  | bare _ => []

theorem isWord_operandTexts (i : Instruction) : ∀ word ∈ i.operandTexts, Blank.IsWord word := by
  cases i <;> simp [operandTexts, Reference.isWord_text, Word.isWord_unsignedText]

theorem toList_text (i : Instruction) :
    i.text.toList = i.opcode.mnemonic.toList ++ Blank.spaced i.operandTexts := by
  cases i <;> simp [text, operandTexts, Blank.spaced, opcode]

theorem trim_text (i : Instruction) : Blank.trim i.text.toList = i.text.toList := by
  obtain ⟨⟨solid, named⟩, _, _⟩ := i.opcode.mnemonic_form
  rw [toList_text]
  exact Blank.trim_of_trimmed (Blank.trimmed_spaced solid.trimmed named i.isWord_operandTexts)

theorem token_text (i : Instruction) :
    Blank.token i.text.toList = i.opcode.mnemonic.toList ∧
      Blank.afterToken i.text.toList = Blank.spaced i.operandTexts := by
  obtain ⟨⟨solid, _⟩, _, _⟩ := i.opcode.mnemonic_form
  rw [toList_text]
  cases i.operandTexts with
  | nil =>
      simp only [Blank.spaced, List.flatMap_nil, List.append_nil]
      exact ⟨Blank.token_of_solid solid, Blank.afterToken_of_solid solid⟩
  | cons word words =>
      simp only [Blank.spaced, List.flatMap_cons, List.cons_append]
      exact ⟨Blank.token_append _ solid (by decide), Blank.afterToken_append _ solid (by decide)⟩

theorem parse_operandTexts {i : Instruction} (fits : i.Fits) : parse i.opcode i.operandTexts = .ok i := by
  cases i with
  | twoRef op first second =>
      simp only [opcode, operandTexts, parse, Reference.parse_text]
      rfl
  | refImm op first immediate =>
      have narrow : immediate.toNat < Nat.pow 2 20 := fits
      simp only [opcode, operandTexts, parse, Reference.parse_text,
        Immediate.parse_unsignedText narrow]
      rfl
  | ref op first =>
      simp only [opcode, operandTexts, parse, Reference.parse_text]
      rfl
  | imm op immediate =>
      have narrow : immediate.toNat < Nat.pow 2 27 := fits
      simp only [opcode, operandTexts, parse, Immediate.parse_unsignedText narrow]
      rfl
  | bare op => rfl

/-- What was read has the operation that was asked for, and an immediate that fits. -/
theorem form_of_parse {op : Opcode} {operands : List String} {i : Instruction}
    (success : parse op operands = .ok i) : i.opcode = op ∧ i.Fits := by
  unfold parse at success
  split at success
  · obtain ⟨first, _, rest⟩ := exists_of_bind_eq_ok success
    obtain ⟨second, _, built⟩ := exists_of_bind_eq_ok rest
    cases built
    exact ⟨rfl, trivial⟩
  · obtain ⟨first, _, rest⟩ := exists_of_bind_eq_ok success
    obtain ⟨immediate, read, built⟩ := exists_of_bind_eq_ok rest
    cases built
    exact ⟨rfl, Immediate.toNat_lt_of_parse (by decide) read⟩
  · obtain ⟨first, _, built⟩ := exists_of_bind_eq_ok success
    cases built
    exact ⟨rfl, trivial⟩
  · obtain ⟨immediate, read, built⟩ := exists_of_bind_eq_ok success
    cases built
    exact ⟨rfl, Immediate.toNat_lt_of_parse (by decide) read⟩
  · cases success
    exact ⟨rfl, trivial⟩
  · cases success

theorem isLine_text (i : Instruction) : Lines.IsLine i.text := by
  obtain ⟨_, _, line⟩ := i.opcode.mnemonic_form
  unfold Lines.IsLine at line ⊢
  rw [toList_text, List.mem_append, not_or]
  refine ⟨line, ?_⟩
  intro member
  obtain ⟨word, listed, inside⟩ := List.mem_flatMap.mp member
  rcases List.mem_cons.mp inside with same | inside
  · exact absurd same (by decide)
  · have blank := (i.isWord_operandTexts word listed).1 '\n' inside
    exact absurd blank (by decide)

end Instruction

namespace Statement

def text : Statement → String
  | instruction i => i.text
  | printLiteral literal => (Opcode.imm .printLiteral).mnemonic ++ " " ++ literal

/-- What a line can say: its immediates fit, and its literal stands on one line, where nothing shows the
blanks after it. -/
def WellFormed : Statement → Prop
  | instruction i => i.Fits ∧ i.opcode ≠ .imm .printLiteral
  | printLiteral literal =>
    Lines.IsLine literal ∧ ∀ c ∈ literal.toList.getLast?, Blank.isBlank c = false

theorem isLine_text {s : Statement} (valid : s.WellFormed) : Lines.IsLine s.text := by
  cases s with
  | instruction i => exact i.isLine_text
  | printLiteral literal => exact Lines.IsLine.append (by decide) valid.1

section
variable {line : String} {op : Opcode}

/-- A line whose first token is a mnemonic is neither blank nor a comment. -/
theorem trim_of_token (named : Blank.token (Blank.trim line.toList) = op.mnemonic.toList) :
    Blank.trim line.toList ≠ [] ∧ ∀ cs, Blank.trim line.toList ≠ '#' :: cs := by
  obtain ⟨⟨_, some_name⟩, plain, _⟩ := op.mnemonic_form
  constructor
  · intro empty
    rw [empty] at named
    exact some_name named.symm
  · intro cs comment
    rw [comment, Blank.token, List.takeWhile_cons_of_pos (by decide)] at named
    exact plain (by rw [← named]; rfl)

theorem parse_of_literal
    (named : Blank.token (Blank.trim line.toList) = (Opcode.imm .printLiteral).mnemonic.toList) :
    parse line =
      .ok (some (printLiteral (String.ofList ((Blank.afterToken (Blank.trim line.toList)).drop 1)))) := by
  obtain ⟨some_text, no_comment⟩ := trim_of_token named
  unfold parse
  split
  · rename_i empty
    exact absurd empty some_text
  · rename_i cs comment
    exact absurd comment (no_comment cs)
  · rw [named, String.ofList_toList]
    dsimp only
    rw [Opcode.ofMnemonic?_mnemonic]

theorem parse_of_mnemonic
    (named : Blank.token (Blank.trim line.toList) = op.mnemonic.toList)
    (ordinary : op ≠ .imm .printLiteral) :
    parse line =
      (Instruction.parse op
        ((Blank.fields (Blank.afterToken (Blank.trim line.toList))).map String.ofList)).map
          fun i => some (instruction i) := by
  obtain ⟨some_text, no_comment⟩ := trim_of_token named
  unfold parse
  split
  · rename_i empty
    exact absurd empty some_text
  · rename_i cs comment
    exact absurd comment (no_comment cs)
  · rw [named, String.ofList_toList]
    dsimp only
    rw [Opcode.ofMnemonic?_mnemonic]
    split
    · rename_i absurd_op
      cases absurd_op
    · rename_i literal
      cases literal
      exact absurd rfl ordinary
    · rename_i found
      cases found
      cases Instruction.parse op
        ((Blank.fields (Blank.afterToken (Blank.trim line.toList))).map String.ofList) <;> rfl

end

/-- A literal may start with blanks. An empty one takes the blank in front of it along. -/
theorem parse_text_literal {literal : String}
    (last : ∀ c ∈ literal.toList.getLast?, Blank.isBlank c = false) :
    parse (text (printLiteral literal)) = .ok (some (printLiteral literal)) := by
  obtain ⟨⟨solid, some_name⟩, _, _⟩ := Opcode.mnemonic_form (.imm .printLiteral)
  have whole : (text (printLiteral literal)).toList =
      (Opcode.imm .printLiteral).mnemonic.toList ++ ' ' :: literal.toList := by
    simp [text]
  by_cases empty : literal = ""
  · subst empty
    have trimmed : Blank.trim (text (printLiteral "")).toList =
        (Opcode.imm .printLiteral).mnemonic.toList := by
      decide
    rw [parse_of_literal (by rw [trimmed, Blank.token_of_solid solid]), trimmed,
      Blank.afterToken_of_solid solid]
    rfl
  · have some_literal : literal.toList ≠ [] := by simpa using empty
    have trimmed : Blank.trim (text (printLiteral literal)).toList =
        (Opcode.imm .printLiteral).mnemonic.toList ++ ' ' :: literal.toList := by
      have ends := Blank.trimmed_append solid.trimmed.1 last [' '] some_name some_literal
      rw [whole]
      exact Blank.trim_of_trimmed (by simpa using ends)
    rw [parse_of_literal (by rw [trimmed, Blank.token_append _ solid (by decide)]), trimmed,
      Blank.afterToken_append _ solid (by decide), List.drop_succ_cons, List.drop_zero,
      String.ofList_toList]

/-- Whatever the literal is, its line prints a literal. -/
theorem parse_text_of_any_literal (literal : String) :
    ∃ other, parse (text (printLiteral literal)) = .ok (some (printLiteral other)) := by
  obtain ⟨⟨solid, some_name⟩, _, _⟩ := Opcode.mnemonic_form (.imm .printLiteral)
  have whole : (text (printLiteral literal)).toList =
      (Opcode.imm .printLiteral).mnemonic.toList ++ ' ' :: literal.toList := by
    simp [text]
  refine ⟨_, parse_of_literal ?_⟩
  rw [whole, Blank.token_trim_append _ solid some_name (by decide)]

theorem parse_text {s : Statement} (valid : s.WellFormed) : parse s.text = .ok (some s) := by
  cases s with
  | printLiteral literal => exact parse_text_literal valid.2
  | instruction i =>
      obtain ⟨fits, ordinary⟩ := valid
      have trimmed : Blank.trim (text (instruction i)).toList = i.text.toList := i.trim_text
      obtain ⟨name, operands⟩ := i.token_text
      rw [parse_of_mnemonic (by rw [trimmed, name]) ordinary, trimmed, operands,
        Blank.fields_spaced i.isWord_operandTexts, Instruction.parse_operandTexts fits]
      rfl

/-- Whatever a line says is well-formed. -/
theorem wellFormed_of_parse {line : String} {s : Statement} (single : Lines.IsLine line)
    (success : parse line = .ok (some s)) : s.WellFormed := by
  unfold parse at success
  split at success
  · cases success
  · cases success
  · dsimp only at success
    split at success
    · cases success
    · cases success
      have part : ∀ c ∈ (Blank.afterToken (Blank.trim line.toList)).drop 1,
          c ∈ Blank.trim line.toList := fun c member =>
        List.dropWhile_subset _ (List.mem_of_mem_drop member)
      constructor
      · intro member
        rw [String.toList_ofList] at member
        exact single (Blank.mem_of_mem_trim (part '\n' member))
      · intro c member
        rw [String.toList_ofList, List.getLast?_drop] at member
        split at member
        · cases member
        · apply (Blank.trimmed_trim line.toList).2 c
          rw [← Blank.token_append_afterToken (Blank.trim line.toList), List.getLast?_append,
            Option.mem_def.mp member]
          rfl
    · rename_i op ordinary found
      split at success
      · rename_i i read
        cases success
        obtain ⟨same, fits⟩ := Instruction.form_of_parse read
        refine ⟨fits, ?_⟩
        rw [same]
        exact ordinary
      · cases success

end Statement
end StoredProgram
