import StoredProgram.Assembly
import StoredProgram.Proofs.Assembly.Statement

set_option autoImplicit false

namespace StoredProgram

namespace Statement

/-- The number of literals that instructions can tell apart. -/
def maxLiterals : Nat := 134217728

/-- What a statement adds to the literals of a program. -/
def literals : Statement → List String
  | instruction _ => []
  | printLiteral literal => [literal]

def word (index : Nat) : Statement → Word
  | instruction i => i.encode
  | printLiteral _ => (Instruction.imm .printLiteral (BitVec.ofNat 32 index)).encode

/-- The words of statements, the first of which stands after `index` literals. -/
def words (index : Nat) : List Statement → List Word
  | [] => []
  | s :: statements => s.word index :: words (index + s.literals.length) statements

/-- A word is numbered by the literals in front of its statement. -/
theorem getElem?_words (index : Nat) (statements : List Statement) (k : Nat) :
    (words index statements)[k]? =
      statements[k]?.map (word (index + ((statements.take k).flatMap literals).length)) := by
  induction statements generalizing index k with
  | nil => rfl
  | cons s statements ih =>
      cases k with
      | zero => rfl
      | succ k =>
          rw [words, List.getElem?_cons_succ, List.getElem?_cons_succ, ih, List.take_succ_cons,
            List.flatMap_cons, List.length_append, Nat.add_assoc]

@[simp] theorem length_words (index : Nat) (statements : List Statement) :
    (words index statements).length = statements.length := by
  induction statements generalizing index with
  | nil => rfl
  | cons s statements ih => rw [words, List.length_cons, List.length_cons, ih]

theorem emit_eq {pool : LiteralPool} {s : Statement}
    (few : pool.size + s.literals.length ≤ maxLiterals) :
    s.emit pool = (.ok (s.word pool.size), ⟨pool.literals ++ s.literals.toArray⟩) := by
  cases s with
  | instruction i => simp [emit, word, literals]
  | printLiteral literal =>
      simp only [literals, List.length_singleton, maxLiterals] at few
      have index : pool.nextIndex.toNat = pool.size := by
        rw [LiteralPool.nextIndex, BitVec.toNat_ofNat]
        omega
      have narrow : pool.size < Nat.pow 2 27 := by
        change pool.size < 134217728
        omega
      simp only [emit, index, Immediate.fit_of_lt narrow, word, literals, LiteralPool.push,
        Array.push_eq_append]
      rfl

theorem few_of_emit {pool pool' : LiteralPool} {s : Statement} {w : Word}
    (few : pool.size ≤ maxLiterals) (success : s.emit pool = (.ok w, pool')) :
    pool.size + s.literals.length ≤ maxLiterals := by
  cases s with
  | instruction i => simpa [literals] using few
  | printLiteral literal =>
      simp only [literals, List.length_singleton, maxLiterals] at few ⊢
      have index : pool.nextIndex.toNat = pool.size := by
        rw [LiteralPool.nextIndex, BitVec.toNat_ofNat]
        omega
      by_cases narrow : pool.size < Nat.pow 2 27
      · change pool.size < 134217728 at narrow
        omega
      · simp only [emit, index, Immediate.fit, narrow, if_false] at success
        cases success

end Statement

namespace Draft

open Statement (maxLiterals)

def add (draft : Draft) (s : Statement) : Draft :=
  ⟨draft.code.push (s.word draft.literals.size), ⟨draft.literals.literals ++ s.literals.toArray⟩⟩

/-- The draft with the words and the literals of further statements. -/
def extend (draft : Draft) (statements : List Statement) : Draft :=
  ⟨draft.code ++ (Statement.words draft.literals.size statements).toArray,
    ⟨draft.literals.literals ++ (statements.flatMap Statement.literals).toArray⟩⟩

@[simp] theorem size_add (draft : Draft) (s : Statement) :
    (draft.add s).literals.size = draft.literals.size + s.literals.length := by
  simp [add, LiteralPool.size]

@[simp] theorem extend_nil (draft : Draft) : draft.extend [] = draft := by
  simp [extend, Statement.words]

theorem extend_cons (draft : Draft) (s : Statement) (statements : List Statement) :
    draft.extend (s :: statements) = (draft.add s).extend statements := by
  simp [extend, Statement.words, add, LiteralPool.size]

section
variable {draft : Draft} {number : Nat} {line : String} {lines : List String} {s : Statement}

theorem addLines_silent (silent : Statement.parse line = .ok none) :
    addLines draft number (line :: lines) = addLines draft (number + 1) lines := by
  simp only [addLines, assembleLine, silent]

theorem addLines_statement (said : Statement.parse line = .ok (some s))
    (few : draft.literals.size + s.literals.length ≤ maxLiterals) :
    addLines draft number (line :: lines) = addLines (draft.add s) (number + 1) lines := by
  simp only [addLines, assembleLine, said, Statement.emit_eq few, Except.map, add]

/-- A line that was added says nothing, or a statement for which there was room. -/
theorem parse_of_addLines {final : Draft} (few : draft.literals.size ≤ maxLiterals)
    (success : addLines draft number (line :: lines) = .ok final) :
    Statement.parse line = .ok none ∨
      ∃ s, Statement.parse line = .ok (some s) ∧
        draft.literals.size + s.literals.length ≤ maxLiterals := by
  cases said : Statement.parse line with
  | error e => simp [addLines, assembleLine, said] at success
  | ok s? =>
      cases s? with
      | none => exact Or.inl rfl
      | some s =>
          refine Or.inr ⟨s, rfl, ?_⟩
          cases emitted : s.emit draft.literals with
          | mk result pool =>
              cases result with
              | error e => simp [addLines, assembleLine, said, emitted, Except.map] at success
              | ok w => exact Statement.few_of_emit few emitted

end

/-- Lines that can be added say well-formed statements, and that is all they add. -/
theorem statements_of_addLines {draft final : Draft} {number : Nat} {lines : List String}
    (single : ∀ line ∈ lines, Lines.IsLine line) (few : draft.literals.size ≤ maxLiterals)
    (success : addLines draft number lines = .ok final) :
    ∃ statements : List Statement, (∀ s ∈ statements, s.WellFormed) ∧
      final = draft.extend statements ∧ final.literals.size ≤ maxLiterals := by
  induction lines generalizing draft number with
  | nil =>
      cases success
      exact ⟨[], by simp, (extend_nil _).symm, few⟩
  | cons line lines ih =>
      have head := single line (by simp)
      have tail : ∀ other ∈ lines, Lines.IsLine other :=
        fun other member => single other (List.mem_cons_of_mem line member)
      rcases parse_of_addLines few success with silent | ⟨s, said, room⟩
      · rw [addLines_silent silent] at success
        exact ih tail few success
      · rw [addLines_statement said room] at success
        obtain ⟨statements, valid, same, bound⟩ := ih tail (by rwa [size_add]) success
        refine ⟨s :: statements, ?_, by rw [extend_cons, same], bound⟩
        intro other member
        rcases List.mem_cons.mp member with rfl | member
        · exact Statement.wellFormed_of_parse head said
        · exact valid other member

theorem addLines_texts {draft : Draft} {number : Nat} {statements : List Statement}
    (valid : ∀ s ∈ statements, s.WellFormed)
    (few : (draft.extend statements).literals.size ≤ maxLiterals) :
    addLines draft number (statements.map Statement.text) = .ok (draft.extend statements) := by
  induction statements generalizing draft number with
  | nil => rw [extend_nil, List.map_nil, addLines]
  | cons s statements ih =>
      have head := valid s (by simp)
      have tail : ∀ other ∈ statements, other.WellFormed :=
        fun other member => valid other (List.mem_cons_of_mem s member)
      rw [extend_cons] at few ⊢
      have room : draft.literals.size + s.literals.length ≤ maxLiterals := by
        have bound := few
        simp only [extend, add, LiteralPool.size, Array.size_append, List.size_toArray] at bound ⊢
        omega
      rw [List.map_cons, addLines_statement (Statement.parse_text head) room]
      exact ih tail few

end Draft

def Image.ofStatements (statements : List Statement) : Image :=
  ⟨Statement.words 0 statements,
    LiteralPool.pack ⟨(statements.flatMap Statement.literals).toArray⟩⟩

theorem statements_of_assemble {text : String} {image : Image} (success : assemble text = .ok image) :
    ∃ statements : List Statement, (∀ s ∈ statements, s.WellFormed) ∧
      (statements.flatMap Statement.literals).length ≤ Statement.maxLiterals ∧
      image = Image.ofStatements statements := by
  unfold assemble at success
  obtain ⟨final, added, built⟩ := exists_of_bind_eq_ok success
  have single : ∀ line ∈ Lines.split text, Lines.IsLine line := fun line => Lines.isLine_of_mem_split
  obtain ⟨statements, valid, rfl, bound⟩ :=
    Draft.statements_of_addLines single (Nat.zero_le _) added
  refine ⟨statements, valid, ?_, ?_⟩
  · simpa [Draft.extend, LiteralPool.size, LiteralPool.empty] using bound
  · cases built
    simp [Draft.image, Draft.extend, Image.ofStatements, LiteralPool.size, LiteralPool.empty]

/-- A text whose lines are the texts of statements says these statements. -/
theorem assemble_of_lines {text : String} {statements : List Statement}
    (lines : Lines.split text = statements.map Statement.text) (valid : ∀ s ∈ statements, s.WellFormed)
    (few : (statements.flatMap Statement.literals).length ≤ Statement.maxLiterals) :
    assemble text = .ok (Image.ofStatements statements) := by
  have room : (Draft.extend {} statements).literals.size ≤ Statement.maxLiterals := by
    simpa [Draft.extend, LiteralPool.size, LiteralPool.empty] using few
  rw [assemble, lines, Draft.addLines_texts valid room]
  simp only [bind, Except.bind, pure, Except.pure, Draft.image, Draft.extend, Image.ofStatements,
    LiteralPool.size, LiteralPool.empty]
  simp

theorem assemble_texts {statements : List Statement} (valid : ∀ s ∈ statements, s.WellFormed)
    (few : (statements.flatMap Statement.literals).length ≤ Statement.maxLiterals) :
    assemble (Lines.join (statements.map Statement.text)) = .ok (Image.ofStatements statements) := by
  have single : ∀ line ∈ statements.map Statement.text, Lines.IsLine line := by
    intro line member
    obtain ⟨s, listed, rfl⟩ := List.mem_map.mp member
    exact Statement.isLine_text (valid s listed)
  exact assemble_of_lines (Lines.split_join single) valid few

end StoredProgram
