import StoredProgram.Proofs.Assembly.Renumbering

set_option autoImplicit false

namespace StoredProgram

def AssemblyError.later (count : Nat) (e : AssemblyError) : AssemblyError := ⟨e.line + count, e.cause⟩

def lineLiterals (line : String) : List String :=
  match Statement.parse line with
  | .ok (some s) => s.literals
  | _ => []

/-- The literals of a source text, one for each line that prints one. -/
def sourceLiterals (text : String) : List String := (Lines.split text).flatMap lineLiterals

/-- The word, with the number of the literal that it prints increased. -/
def Word.renumbered (count : Nat) (w : Word) : Word :=
  match w.literalIndex? with
  | some index => (Instruction.imm .printLiteral (BitVec.ofNat 32 (index.toNat + count))).encode
  | none => w

theorem Word.literalIndex?_renumbered {w index : Word} {count : Nat}
    (prints : w.literalIndex? = some index) (narrow : index.toNat + count < Statement.maxLiterals) :
    ∃ index', (w.renumbered count).literalIndex? = some index' ∧
      index'.toNat = index.toNat + count := by
  have small : index.toNat + count < 134217728 := narrow
  have number : (BitVec.ofNat 32 (index.toNat + count)).toNat = index.toNat + count := by
    rw [BitVec.toNat_ofNat]
    omega
  rw [renumbered, prints]
  exact ⟨_, literalIndex?_encode (by omega), number⟩

namespace Draft

variable {draft : Draft} {number : Nat} {line : String} {lines : List String}

def addLine (draft : Draft) (line : String) : Except LineError Draft :=
  match assembleLine draft.literals line with
  | (.error cause, _) => .error cause
  | (.ok none, literals) => .ok ⟨draft.code, literals⟩
  | (.ok (some word), literals) => .ok ⟨draft.code.push word, literals⟩

theorem addLines_cons (draft : Draft) (number : Nat) (line : String) (lines : List String) :
    draft.addLines number (line :: lines) =
      match draft.addLine line with
      | .error cause => .error ⟨number, cause⟩
      | .ok next => next.addLines (number + 1) lines := by
  obtain ⟨code, literals⟩ := draft
  cases assembled : assembleLine literals line with
  | mk result pool =>
      cases result with
      | error cause => simp only [addLines, addLine, assembled]
      | ok word? => cases word? <;> simp only [addLines, addLine, assembled]

theorem addLines_append (draft : Draft) (number : Nat) (front back : List String) :
    draft.addLines number (front ++ back) =
      draft.addLines number front >>= fun next => next.addLines (number + front.length) back := by
  induction front generalizing draft number with
  | nil => rfl
  | cons line front ih =>
      rw [List.cons_append, addLines_cons, addLines_cons]
      cases draft.addLine line with
      | error cause => rfl
      | ok next =>
          dsimp only
          rw [ih, List.length_cons, Nat.add_right_comm, Nat.add_assoc]

theorem addLines_later (draft : Draft) (number count : Nat) (lines : List String) :
    draft.addLines (number + count) lines =
      (draft.addLines number lines).mapError (AssemblyError.later count) := by
  induction lines generalizing draft number with
  | nil => rfl
  | cons line lines ih =>
      rw [addLines_cons, addLines_cons]
      cases draft.addLine line with
      | error cause => rfl
      | ok next =>
          dsimp only
          rw [Nat.add_right_comm, ih]

theorem line_of_addLines_error {e : AssemblyError} (failed : draft.addLines number lines = .error e) :
    number ≤ e.line ∧ e.line < number + lines.length := by
  induction lines generalizing draft number with
  | nil => cases failed
  | cons line lines ih =>
      rw [addLines_cons] at failed
      rw [List.length_cons]
      cases added : draft.addLine line with
      | error cause =>
          rw [added] at failed
          cases failed
          dsimp only
          omega
      | ok next =>
          rw [added] at failed
          have bounds := ih failed
          omega

end Draft

/-- What the lines say, or the first one that says nothing that can be read. -/
def readLines : Nat → List String → Except AssemblyError (List Statement)
  | _, [] => .ok []
  | number, line :: lines =>
    match Statement.parse line with
    | .error cause => .error ⟨number, cause⟩
    | .ok said => (readLines (number + 1) lines).map (said.toList ++ ·)

section
variable {number : Nat} {lines : List String} {statements : List Statement}

theorem readLines_append (number : Nat) (front back : List String) :
    readLines number (front ++ back) = readLines number front >>= fun said =>
      (readLines (number + front.length) back).map (said ++ ·) := by
  induction front generalizing number with
  | nil =>
      cases read : readLines number back <;> simp [readLines, read, bind, Except.bind, Except.map]
  | cons line front ih =>
      rw [List.cons_append, readLines, readLines]
      cases Statement.parse line with
      | error cause => rfl
      | ok said =>
          dsimp only
          rw [ih, List.length_cons, Nat.add_right_comm, Nat.add_assoc]
          cases readLines (number + 1) front with
          | error e => rfl
          | ok first =>
              simp only [bind, Except.bind, Except.map]
              cases readLines (number + (front.length + 1)) back with
              | error e => rfl
              | ok second => simp

theorem readLines_later (number count : Nat) (lines : List String) :
    readLines (number + count) lines =
      (readLines number lines).mapError (AssemblyError.later count) := by
  induction lines generalizing number with
  | nil => rfl
  | cons line lines ih =>
      rw [readLines, readLines]
      cases Statement.parse line with
      | error cause => rfl
      | ok said =>
          dsimp only
          rw [Nat.add_right_comm, ih]
          cases readLines (number + 1) lines <;> rfl

/-- Lines that can be read say what the first one says, and then what the others say. -/
theorem cases_of_readLines {line : String} (read : readLines number (line :: lines) = .ok statements) :
    ∃ said others, Statement.parse line = .ok said ∧ readLines (number + 1) lines = .ok others ∧
      statements = said.toList ++ others := by
  rw [readLines] at read
  cases parsed : Statement.parse line with
  | error cause =>
      rw [parsed] at read
      cases read
  | ok said =>
      cases later : readLines (number + 1) lines with
      | error e =>
          rw [parsed, later] at read
          cases read
      | ok others =>
          rw [parsed, later] at read
          cases read
          exact ⟨said, others, rfl, rfl, rfl⟩

theorem readLines_texts (valid : ∀ s ∈ statements, s.WellFormed) (number : Nat) :
    readLines number (statements.map Statement.text) = .ok statements := by
  induction statements generalizing number with
  | nil => rfl
  | cons s statements ih =>
      have tail : ∀ other ∈ statements, other.WellFormed :=
        fun other member => valid other (List.mem_cons_of_mem s member)
      rw [List.map_cons, readLines, Statement.parse_text (valid s List.mem_cons_self), ih tail]
      rfl

theorem literals_of_readLines (read : readLines number lines = .ok statements) :
    statements.flatMap Statement.literals = lines.flatMap lineLiterals := by
  induction lines generalizing number statements with
  | nil =>
      cases read
      rfl
  | cons line lines ih =>
      obtain ⟨said, others, parsed, later, rfl⟩ := cases_of_readLines read
      rw [List.flatMap_cons, lineLiterals, parsed, List.flatMap_append, ih later]
      cases said with
      | none => rfl
      | some s => simp

theorem wellFormed_of_readLines (single : ∀ line ∈ lines, Lines.IsLine line)
    (read : readLines number lines = .ok statements) : ∀ s ∈ statements, s.WellFormed := by
  induction lines generalizing number statements with
  | nil =>
      cases read
      exact fun s member => absurd member List.not_mem_nil
  | cons line lines ih =>
      obtain ⟨said, others, parsed, later, rfl⟩ := cases_of_readLines read
      intro s member
      rcases List.mem_append.mp member with own | other
      · have same : said = some s := Option.mem_toList.mp own
        rw [same] at parsed
        exact Statement.wellFormed_of_parse (single line List.mem_cons_self) parsed
      · exact ih (fun line member => single line (List.mem_cons_of_mem _ member)) later s other

/-- As long as there are numbers for all literals, lines are added just as they are read. -/
theorem addLines_eq {draft : Draft} (number : Nat)
    (few : draft.literals.size + (lines.flatMap lineLiterals).length ≤ Statement.maxLiterals) :
    draft.addLines number lines = (readLines number lines).map draft.extend := by
  induction lines generalizing draft number with
  | nil => exact congrArg Except.ok (Draft.extend_nil draft).symm
  | cons line lines ih =>
      rw [List.flatMap_cons, List.length_append] at few
      cases said : Statement.parse line with
      | error cause => simp [Draft.addLines, assembleLine, said, readLines, Except.map]
      | ok said? =>
          cases said? with
          | none =>
              rw [Draft.addLines_silent said, ih _ (by omega), readLines, said]
              cases readLines (number + 1) lines <;> rfl
          | some s =>
              have own : lineLiterals line = s.literals := by rw [lineLiterals, said]
              rw [own] at few
              rw [Draft.addLines_statement said (by omega), ih _ (by rw [Draft.size_add]; omega), readLines,
                said]
              cases readLines (number + 1) lines with
              | error e => rfl
              | ok others => exact congrArg Except.ok (Draft.extend_cons draft s others).symm

end

namespace Statement

variable {statements : List Statement} {index : Nat}

theorem words_append (index : Nat) (front back : List Statement) :
    words index (front ++ back) =
      words index front ++ words (index + (front.flatMap literals).length) back := by
  induction front generalizing index with
  | nil => rfl
  | cons s front ih =>
      rw [List.cons_append, words, words, ih, List.flatMap_cons, List.length_append, List.cons_append,
        Nat.add_assoc]

theorem literalIndex?_of_instruction {i : Instruction} (valid : (instruction i).WellFormed) (index : Nat) :
    ((instruction i).word index).literalIndex? = none :=
  Word.literalIndex?_of_ordinary (Instruction.decode_encode_of_fits valid.1) valid.2

theorem literalIndex?_of_printLiteral (literal : String) (narrow : index < maxLiterals) :
    ∃ number, ((printLiteral literal).word index).literalIndex? = some number ∧ number.toNat = index := by
  have small : index < 134217728 := narrow
  have number : (BitVec.ofNat 32 index).toNat = index := by
    rw [BitVec.toNat_ofNat]
    omega
  exact ⟨_, Word.literalIndex?_encode (by omega), number⟩

/-- Literals in front of a statement only count for its number. -/
theorem word_renumbered {s : Statement} (valid : s.WellFormed)
    (few : index + s.literals.length ≤ maxLiterals) (count : Nat) :
    s.word (index + count) = (s.word index).renumbered count := by
  cases s with
  | instruction i =>
      rw [Word.renumbered, literalIndex?_of_instruction valid]
      rfl
  | printLiteral literal =>
      obtain ⟨number, found, same⟩ := literalIndex?_of_printLiteral literal few
      rw [Word.renumbered, found]
      dsimp only
      rw [same, word]

theorem words_renumbered (valid : ∀ s ∈ statements, s.WellFormed)
    (few : index + (statements.flatMap literals).length ≤ maxLiterals) (count : Nat) :
    words (index + count) statements = (words index statements).map (Word.renumbered count) := by
  induction statements generalizing index with
  | nil => rfl
  | cons s statements ih =>
      rw [List.flatMap_cons, List.length_append] at few
      have later : ∀ other ∈ statements, other.WellFormed := fun other member =>
        valid other (List.mem_cons_of_mem s member)
      have room : index + s.literals.length + (statements.flatMap literals).length ≤ maxLiterals := by
        omega
      rw [words, words, List.map_cons, word_renumbered (valid s List.mem_cons_self) (by omega),
        Nat.add_right_comm, ih later room]

/-- The literals that words print have numbers from those in front of them on. -/
theorem literalIndex?_bounds (valid : ∀ s ∈ statements, s.WellFormed)
    (few : index + (statements.flatMap literals).length ≤ maxLiterals) :
    ∀ w ∈ words index statements, ∀ number, w.literalIndex? = some number →
      number.toNat < index + (statements.flatMap literals).length := by
  induction statements generalizing index with
  | nil => exact fun w member => absurd member List.not_mem_nil
  | cons s statements ih =>
      rw [List.flatMap_cons, List.length_append] at few ⊢
      intro w member number prints
      rcases List.mem_cons.mp member with rfl | later
      · cases s with
        | instruction i =>
            rw [literalIndex?_of_instruction (valid _ List.mem_cons_self)] at prints
            cases prints
        | printLiteral literal =>
            have own : (printLiteral literal).literals.length = 1 := rfl
            have narrow : index < maxLiterals := by omega
            obtain ⟨same, found, value⟩ := literalIndex?_of_printLiteral literal narrow
            rw [found] at prints
            cases prints
            omega
      · have room : index + s.literals.length + (statements.flatMap literals).length ≤ maxLiterals := by
          omega
        have bound := ih (fun other member => valid other (List.mem_cons_of_mem s member)) room w later
          number prints
        omega

end Statement

/-- A source text is assembled from what its lines say, as long as there are numbers for its literals. -/
theorem assemble_eq {text : String} (few : (sourceLiterals text).length ≤ Statement.maxLiterals) :
    assemble text = (readLines 1 (Lines.split text)).map Image.ofStatements := by
  have empty : (({} : Draft).literals).size = 0 := rfl
  rw [assemble, addLines_eq 1 (by rwa [empty, Nat.zero_add])]
  cases readLines 1 (Lines.split text) with
  | error e => rfl
  | ok statements => simp [Except.map, bind, Except.bind, pure, Except.pure, Draft.image, Draft.extend,
      Image.ofStatements, LiteralPool.size, LiteralPool.empty]

/-- A blank line or a comment. -/
def IsSilent (line : String) : Prop :=
  Blank.trim line.toList = [] ∨ ∃ rest, Blank.trim line.toList = '#' :: rest

theorem parse_of_silent {line : String} (silent : IsSilent line) : Statement.parse line = .ok none := by
  unfold Statement.parse
  rcases silent with blank | ⟨rest, comment⟩
  · rw [blank]
  · rw [comment]
    rfl

theorem addLines_silent_append {silent : List String} (all : ∀ line ∈ silent, IsSilent line)
    (draft : Draft) (number : Nat) (lines : List String) :
    draft.addLines number (silent ++ lines) = draft.addLines (number + silent.length) lines := by
  induction silent generalizing number with
  | nil => rfl
  | cons line silent ih =>
      rw [List.cons_append, Draft.addLines_silent (parse_of_silent (all line List.mem_cons_self)),
        ih fun other member => all other (List.mem_cons_of_mem line member), List.length_cons,
        Nat.add_right_comm, Nat.add_assoc]

/-- Lines that say nothing, wherever they are put in, only move the lines behind them. -/
theorem assemble_insert {a b c : String} (whole : Lines.Whole a)
    (silent : ∀ line ∈ Lines.split c, IsSilent line) (apart : Lines.Whole c ∨ b = "") :
    assemble (a ++ c ++ b) = (assemble (a ++ b)).mapError fun e =>
      if e.line ≤ (Lines.split a).length then e else e.later (Lines.split c).length := by
  have behind : Lines.split (c ++ b) = Lines.split c ++ Lines.split b := by
    rcases apart with closed | none
    · exact Lines.split_append closed b
    · rw [none, String.append_empty]
      exact (List.append_nil _).symm
  rw [String.append_assoc, assemble, assemble, Lines.split_append whole, Lines.split_append whole, behind,
    Draft.addLines_append, Draft.addLines_append]
  cases first : Draft.addLines {} 1 (Lines.split a) with
  | error e =>
      have above := Draft.line_of_addLines_error first
      have kept : e.line ≤ (Lines.split a).length := by omega
      simp only [bind, Except.bind, Except.mapError, kept, if_true]
  | ok next =>
      simp only [bind, Except.bind]
      rw [addLines_silent_append silent, Draft.addLines_later]
      cases second : next.addLines (1 + (Lines.split a).length) (Lines.split b) with
      | error e =>
          have below := Draft.line_of_addLines_error second
          have moved : ¬ e.line ≤ (Lines.split a).length := by omega
          simp only [Except.mapError, moved, if_false]
      | ok final => rfl

theorem sourceLiterals_append {a : String} (whole : Lines.Whole a) (b : String) :
    sourceLiterals (a ++ b) = sourceLiterals a ++ sourceLiterals b := by
  rw [sourceLiterals, Lines.split_append whole, List.flatMap_append, sourceLiterals, sourceLiterals]

/-- A text that is refused is refused before anything that follows it. -/
theorem assemble_append_of_error {a : String} {e : AssemblyError} (whole : Lines.Whole a)
    (failed : assemble a = .error e) (b : String) : assemble (a ++ b) = .error e := by
  rw [assemble] at failed ⊢
  rw [Lines.split_append whole, Draft.addLines_append]
  cases first : Draft.addLines {} 1 (Lines.split a) with
  | error other =>
      rw [first] at failed
      cases failed
      rfl
  | ok next =>
      rw [first] at failed
      cases failed

/-- The statements of a text that is assembled. -/
theorem readLines_of_assemble {text : String} {image : Image}
    (few : (sourceLiterals text).length ≤ Statement.maxLiterals) (success : assemble text = .ok image) :
    ∃ statements, readLines 1 (Lines.split text) = .ok statements ∧
      (∀ s ∈ statements, s.WellFormed) ∧ statements.flatMap Statement.literals = sourceLiterals text ∧
      image = Image.ofStatements statements := by
  rw [assemble_eq few] at success
  cases read : readLines 1 (Lines.split text) with
  | error e =>
      rw [read] at success
      cases success
  | ok statements =>
      rw [read] at success
      cases success
      exact ⟨statements, rfl, wellFormed_of_readLines (fun _ => Lines.isLine_of_mem_split) read,
        literals_of_readLines read, rfl⟩

section
variable {a b : String} {first : Image} (whole : Lines.Whole a)
  (few : (sourceLiterals a).length + (sourceLiterals b).length ≤ Statement.maxLiterals)
  (success : assemble a = .ok first)
include whole few success

/-- Behind a text that is assembled, another one is read from the line after it on. -/
theorem readLines_behind : ∃ statements, first = Image.ofStatements statements ∧
    statements.flatMap Statement.literals = sourceLiterals a ∧
    assemble (a ++ b) = ((readLines 1 (Lines.split b)).mapError
      (AssemblyError.later (Lines.split a).length)).map fun said =>
        Image.ofStatements (statements ++ said) := by
  have together : (sourceLiterals (a ++ b)).length ≤ Statement.maxLiterals := by
    rwa [sourceLiterals_append whole, List.length_append]
  obtain ⟨statements, read, _, literals, same⟩ :=
    readLines_of_assemble (Nat.le_of_add_right_le few) success
  refine ⟨statements, same, literals, ?_⟩
  rw [assemble_eq together, Lines.split_append whole, readLines_append, read, readLines_later]
  cases readLines 1 (Lines.split b) <;> rfl

theorem assemble_append_of_refused {e : AssemblyError} (failed : assemble b = .error e) :
    assemble (a ++ b) = .error (e.later (Lines.split a).length) := by
  obtain ⟨statements, _, _, joined⟩ := readLines_behind whole few success
  rw [assemble_eq (Nat.le_of_add_left_le few)] at failed
  rw [joined]
  cases read : readLines 1 (Lines.split b) with
  | ok said =>
      rw [read] at failed
      cases failed
  | error other =>
      rw [read] at failed
      cases failed
      rfl

theorem assemble_append_of_ok {second : Image} (successSecond : assemble b = .ok second) :
    ∃ image, assemble (a ++ b) = .ok image ∧
      image.code = first.code ++ second.code.map (Word.renumbered (sourceLiterals a).length) ∧
      image.static = LiteralPool.pack ⟨(sourceLiterals a ++ sourceLiterals b).toArray⟩ ∧
      ∀ w ∈ second.code, ∀ index, w.literalIndex? = some index →
        index.toNat + (sourceLiterals a).length < Statement.maxLiterals := by
  obtain ⟨statements, rfl, literals, joined⟩ := readLines_behind whole few success
  obtain ⟨said, read, valid, saidLiterals, rfl⟩ :=
    readLines_of_assemble (Nat.le_of_add_left_le few) successSecond
  have front : (statements.flatMap Statement.literals).length = (sourceLiterals a).length :=
    congrArg List.length literals
  have back : (said.flatMap Statement.literals).length = (sourceLiterals b).length :=
    congrArg List.length saidLiterals
  refine ⟨Image.ofStatements (statements ++ said), ?_, ?_, ?_, ?_⟩
  · rw [joined, read]
    rfl
  · rw [Image.ofStatements, Statement.words_append, front, Statement.words_renumbered valid (by omega)]
    rfl
  · rw [← literals, ← saidLiterals, ← List.flatMap_append]
    rfl
  · intro w member index prints
    have bound := Statement.literalIndex?_bounds valid (by omega) w member index prints
    omega

end

/-- Source texts are assembled line by line. If the first text ends with a whole line, what is refused in it
is refused all the same in front of a second text; else what is refused in the second text is refused with
its line counted from the start of the first; else the images are joined, with the literals of the second
text behind those of the first, and numbered accordingly. Lines that say nothing can be put in between. -/
theorem assemble_append {a b : String} (whole : Lines.Whole a) :
    let count := (sourceLiterals a).length
    (∀ e, assemble a = .error e → assemble (a ++ b) = .error e) ∧
    (count + (sourceLiterals b).length ≤ 134217728 →
      (∀ first e, assemble a = .ok first → assemble b = .error e →
        assemble (a ++ b) = .error ⟨(Lines.split a).length + e.line, e.cause⟩) ∧
      ∀ first second, assemble a = .ok first → assemble b = .ok second →
        ∃ image, assemble (a ++ b) = .ok image ∧
          image.code = first.code ++ second.code.map (Word.renumbered count) ∧
          image.static = LiteralPool.pack ⟨(sourceLiterals a ++ sourceLiterals b).toArray⟩ ∧
          ∀ w ∈ second.code, ∀ index, w.literalIndex? = some index →
            ∃ index', (w.renumbered count).literalIndex? = some index' ∧
              index'.toNat = index.toNat + count) ∧
    ∀ c, (∀ line ∈ Lines.split c, IsSilent line) → Lines.Whole c ∨ b = "" →
      assemble (a ++ c ++ b) = (assemble (a ++ b)).mapError fun e =>
        if e.line ≤ (Lines.split a).length then e else e.later (Lines.split c).length := by
  intro count
  refine ⟨fun e failed => assemble_append_of_error whole failed b, ?_,
    fun c silent apart => assemble_insert whole silent apart⟩
  intro few
  constructor
  · intro first e success failed
    rw [assemble_append_of_refused whole few success failed, AssemblyError.later, Nat.add_comm]
  · intro first second success successSecond
    obtain ⟨image, joined, code, static, narrow⟩ :=
      assemble_append_of_ok whole few success successSecond
    refine ⟨image, joined, code, static, ?_⟩
    intro w member index prints
    exact Word.literalIndex?_renumbered prints (narrow w member index prints)

/-- A literal in front of a text that prints another one, and in front of one that is refused, with and
without a comment in between. -/
theorem assemble_append_of_two_literals :
    let a := "PRINTSTR x\n"
    let b := "\nPRINTSTR y\nTERM"
    Lines.Whole a ∧ assemble a = .ok ⟨[0x68000000], [1, 1, 120]⟩ ∧
      assemble b = .ok ⟨[0x68000000, 0x40000000], [1, 1, 121]⟩ ∧
      assemble (a ++ b) = .ok ⟨[0x68000000, 0x68000001, 0x40000000], [2, 4, 1, 120, 1, 121]⟩ ∧
      assemble (a ++ "TERM\nNOPE") = .error ⟨3, .unknownInstruction "NOPE"⟩ ∧
      assemble (a ++ "\n # note\n" ++ "TERM\nNOPE") = .error ⟨5, .unknownInstruction "NOPE"⟩ ∧
      assemble ("NOPE\n" ++ a) = .error ⟨1, .unknownInstruction "NOPE"⟩ := by
  intro a b
  have whole : Lines.Whole a := by decide +kernel
  have first : assemble a = .ok ⟨[0x68000000], [1, 1, 120]⟩ := eq_ok_of_toOption (by decide +kernel)
  have second : assemble b = .ok ⟨[0x68000000, 0x40000000], [1, 1, 121]⟩ :=
    eq_ok_of_toOption (by decide +kernel)
  have refused : assemble "TERM\nNOPE" = .error ⟨2, .unknownInstruction "NOPE"⟩ :=
    eq_error_of_match (by decide +kernel)
  have atOnce : assemble "NOPE\n" = .error ⟨1, .unknownInstruction "NOPE"⟩ :=
    eq_error_of_match (by decide +kernel)
  obtain ⟨_, join, _⟩ := assemble_append (b := b) whole
  obtain ⟨_, refuse, insert⟩ := assemble_append (b := "TERM\nNOPE") whole
  obtain ⟨fail, _, _⟩ := assemble_append (a := "NOPE\n") (b := a) (by decide +kernel)
  obtain ⟨image, joined, code, static, _⟩ := (join (by decide +kernel)).2 _ _ first second
  have error : assemble (a ++ "TERM\nNOPE") = .error ⟨3, .unknownInstruction "NOPE"⟩ := by
    rw [(refuse (by decide +kernel)).1 _ _ first refused]
    decide +kernel
  refine ⟨whole, first, second, joined.trans (congrArg Except.ok ?_), error, ?_, fail _ atOnce⟩
  · cases image
    refine congrArg₂ Image.mk (code.trans ?_) (static.trans ?_)
    · decide +kernel
    · decide +kernel
  · have silent : ∀ line ∈ Lines.split "\n # note\n", IsSilent line := by
      intro line member
      have lines : Lines.split "\n # note\n" = ["", " # note"] := by decide +kernel
      rw [lines] at member
      rcases List.mem_pair.mp member with rfl | rfl
      · exact Or.inl (by decide +kernel)
      · exact Or.inr ⟨[' ', 'n', 'o', 't', 'e'], by decide +kernel⟩
    rw [insert _ silent (Or.inl (by decide +kernel)), error]
    decide +kernel

end StoredProgram
