import StoredProgram.Proofs.Assembly.Renumbering

set_option autoImplicit false

namespace StoredProgram

namespace Statement

variable {s : Statement} {line : String}

def opcode : Statement → Opcode
  | instruction i => i.opcode
  | printLiteral _ => .imm .printLiteral

theorem opcode_word (s : Statement) (index : Nat) : Opcode.decode (s.word index) = .ok s.opcode := by
  cases s with
  | instruction i => exact Opcode.decode_of_code (Instruction.code_encode i)
  | printLiteral literal => exact Opcode.decode_of_code (Instruction.code_encode _)

/-- A line that says a statement is assembled to a word of its operation, as long as the pool has room
for a literal if there is one. -/
theorem assembleLine_of_parse {pool : LiteralPool} (said : parse line = .ok (some s))
    (room : s.opcode = .imm .printLiteral → pool.size < maxLiterals) :
    ∃ w pool', assembleLine pool line = (.ok (some w), pool') ∧ Opcode.decode w = .ok s.opcode := by
  have emitted : ∃ pool', s.emit pool = (.ok (s.word pool.size), pool') := by
    cases s with
    | instruction i => exact ⟨pool, rfl⟩
    | printLiteral literal => exact ⟨_, emit_eq (room rfl)⟩
  obtain ⟨pool', emitted⟩ := emitted
  refine ⟨s.word pool.size, pool', ?_, opcode_word s pool.size⟩
  simp only [assembleLine, said, emitted, Except.map]

/-- The newlines in the text of a statement are those of its literal. -/
theorem count_text (s : Statement) : s.text.toList.count '\n' =
    (s.literals.flatMap String.toList).count '\n' := by
  cases s with
  | instruction i => exact List.count_eq_zero.mpr i.isLine_text
  | printLiteral literal =>
      have front : ((Opcode.imm .printLiteral).mnemonic ++ " ").toList.count '\n' = 0 := by decide
      rw [text, String.toList_append, List.count_append, front, Nat.zero_add, literals,
        List.flatMap_singleton]

theorem isLine_text_iff (s : Statement) :
    Lines.IsLine s.text ↔ ∀ literal ∈ s.literals, Lines.IsLine literal := by
  rw [Lines.IsLine, ← List.count_eq_zero, count_text]
  cases s with
  | instruction i => simp [literals]
  | printLiteral literal => simp [literals, Lines.IsLine, List.count_eq_zero]

section
variable (statements : List Statement)

theorem count_texts : ((statements.map text).flatMap String.toList).count '\n' =
    ((statements.flatMap literals).flatMap String.toList).count '\n' := by
  induction statements with
  | nil => rfl
  | cons s statements ih =>
      rw [List.map_cons, List.flatMap_cons, List.count_append, ih, count_text, List.flatMap_cons,
        List.flatMap_append, List.count_append]

theorem isLine_texts_iff : (∀ line ∈ statements.map text, Lines.IsLine line) ↔
    ∀ literal ∈ statements.flatMap literals, Lines.IsLine literal := by
  simp only [List.forall_mem_map, isLine_text_iff, List.mem_flatMap]
  exact ⟨fun each literal ⟨s, member, inside⟩ => each s member literal inside,
    fun each s member literal inside => each literal ⟨s, member, inside⟩⟩

end

end Statement

namespace Word

variable {pool : List Word} {w : Word} {s : Statement}

theorem opcode_of_statement (said : w.statement pool = .ok s) : Opcode.decode w = .ok s.opcode := by
  rcases cases_of_statement said with ⟨index, literal, decoded, _, rfl⟩ | ⟨i, decoded, _, rfl⟩
  · exact Instruction.opcode_of_decode decoded
  · exact Instruction.opcode_of_decode decoded

/-- The line of a word says a statement with the operation of the word. -/
theorem parse_of_statement (said : w.statement pool = .ok s) :
    ∃ s', Statement.parse s.text = .ok (some s') ∧ s'.opcode = s.opcode := by
  rcases cases_of_statement said with ⟨index, literal, _, _, rfl⟩ | ⟨i, decoded, ordinary, rfl⟩
  · obtain ⟨other, parsed⟩ := Statement.parse_text_of_any_literal literal
    exact ⟨_, parsed, rfl⟩
  · exact ⟨_, Statement.parse_text ⟨Instruction.fits_of_decode decoded, ordinary⟩, rfl⟩

end Word

namespace Image

/-- A listing has a line for each instruction, in their order, and each line is assembled to a word with the
operation of its instruction, as long as the pool has room for a literal. The newlines inside of literals
are newlines of the text as well, so the lines are just those of the text if no literal that is printed has
a newline in it. -/
theorem listing_lines {image : Image} {text : String} (success : image.listing = .ok text) :
    ∃ lines : List String, text = Lines.join lines ∧ lines.length = image.code.length ∧
      (∀ (j : Nat) (w : Word), image.code[j]? = some w →
        ∃ line op, lines[j]? = some line ∧ Opcode.decode w = .ok op ∧
          ∀ pool : LiteralPool, (op = .imm .printLiteral → pool.size < 134217728) →
            ∃ w' pool', assembleLine pool line = (.ok (some w'), pool') ∧
              Opcode.decode w' = .ok op) ∧
      text.toList.count '\n' =
        image.code.length + (image.literals.flatMap String.toList).count '\n' ∧
      (Lines.split text = lines ↔ ∀ literal ∈ image.literals, Lines.IsLine literal) := by
  obtain ⟨statements, said, rfl⟩ := statements_of_listing success
  have literals : image.literals = statements.flatMap Statement.literals :=
    (literals_of_statements said).symm
  refine ⟨statements.map Statement.text, rfl, by rw [List.length_map, said.length_eq], ?_, ?_, ?_⟩
  · intro j w listed
    obtain ⟨s, found, own⟩ := exists_getElem?_of_forall₂ said listed
    obtain ⟨s', parsed, same⟩ := Word.parse_of_statement own
    refine ⟨s.text, s.opcode, by rw [List.getElem?_map, found]; rfl, Word.opcode_of_statement own, ?_⟩
    intro pool room
    obtain ⟨w', pool', assembled, decoded⟩ := Statement.assembleLine_of_parse parsed (same ▸ room)
    exact ⟨w', pool', assembled, same ▸ decoded⟩
  · rw [Lines.count_join, List.length_map, said.length_eq, literals, Statement.count_texts]
  · rw [Lines.split_join_iff, Statement.isLine_texts_iff, literals]

/-- A literal that ends in blanks, one of them a line separator. -/
theorem listing_lines_of_blanks :
    let image : Image := ⟨[1744830464, 0], [1, 3, 97, 0x2028, 32]⟩
    let text := "PRINTSTR a\u2028 \nMOV ip ip\n"
    image.listing = .ok text ∧ text.toList.count '\n' = 2 ∧
      Lines.split text = ["PRINTSTR a\u2028 ", "MOV ip ip"] ∧
      ∃ w pool, assembleLine .empty "PRINTSTR a\u2028 " = (.ok (some w), pool) ∧
        Opcode.decode w = .ok (.imm .printLiteral) := by
  intro image text
  have listed : image.listing = .ok text := eq_ok_of_toOption (by decide +kernel)
  have literals : image.literals = ["a\u2028 "] := by decide +kernel
  have split : Lines.split text = ["PRINTSTR a\u2028 ", "MOV ip ip"] := by decide +kernel
  obtain ⟨lines, _, _, assembled, count, found⟩ := listing_lines listed
  rw [literals] at count found
  have lines_eq := split.symm.trans (found.mpr (by decide))
  obtain ⟨line, op, first, decoded, each⟩ := assembled 0 1744830464 rfl
  rw [← lines_eq] at first
  have prints : Opcode.decode 1744830464 = .ok (.imm .printLiteral) := eq_ok_of_toOption (by decide)
  rw [prints] at decoded
  cases first
  cases decoded
  exact ⟨listed, count, split, each .empty fun _ => by decide⟩

/-- A literal with a newline takes two lines of its listing, and the second one need not be an instruction. -/
theorem two_lines_for_one_instruction :
    let image : Image := ⟨[1744830464], [1, 3, 97, 10, 88]⟩
    let text := "PRINTSTR a\nX\n"
    image.listing = .ok text ∧ image.code.length = 1 ∧ text.toList.count '\n' = 2 ∧
      Lines.split text = ["PRINTSTR a", "X"] ∧
      assembleLine .empty "X" = (.error (.unknownInstruction "X"), .empty) ∧
      assemble text = .error ⟨2, .unknownInstruction "X"⟩ :=
  ⟨eq_ok_of_toOption (by decide +kernel), rfl, by decide, by decide +kernel, by decide +kernel,
    eq_error_of_match (by decide +kernel)⟩

end Image
end StoredProgram
