import Mathlib.Data.List.Basic
import StoredProgram.Proofs.Assembly.Program
import StoredProgram.Proofs.Assembly.Spelling
import StoredProgram.Proofs.Text.Cut

set_option autoImplicit false

namespace StoredProgram

theorem map_eq_ok_iff {ε α β : Type} {x : Except ε α} {f : α → β} {b : β} :
    x.map f = .ok b ↔ ∃ a, x = .ok a ∧ f a = b := by
  cases x <;> simp [Except.map]

theorem map_eq_error_iff {ε α β : Type} {x : Except ε α} {f : α → β} {e : ε} :
    x.map f = .error e ↔ x = .error e := by
  cases x <;> simp [Except.map]

/-- What has to stand in the place of an operand. -/
inductive OperandKind where
  | reference
  | immediate (width : Nat)
  deriving DecidableEq, Repr

/-- An operand of an instruction. -/
inductive Operand where
  | reference (r : Reference)
  | immediate (value : Word)
  deriving DecidableEq, Repr

namespace OperandKind

/-- The token is a spelling of the operand. -/
inductive Accepts : OperandKind → String → Operand → Prop where
  | reference {token : String} {r : Reference} (spells : Reference.Spells token.toList r) :
      Accepts .reference token (.reference r)
  | immediate {token : String} {width : Nat} {value : Word}
      (spells : Immediate.Spells token.toList width value) :
      Accepts (.immediate width) token (.immediate value)

/-- The token is no operand of this kind, for the given reason. -/
inductive Refuses : OperandKind → String → LineError → Prop where
  | tooDeep {token : String} (deep : Reference.TooDeep token.toList) :
      Refuses .reference token (.tooManyIndirections token)
  | noRegister {token : String} (shallow : ¬ Reference.TooDeep token.toList)
      (unspelled : ∀ r, ¬ Reference.Spells token.toList r) :
      Refuses .reference token (.invalidRegister token)
  | tooLarge {token : String} {width n : Nat} (denotes : Decimal.Denotes token.toList n)
      (large : Nat.pow 2 width ≤ n) :
      Refuses (.immediate width) token (.immediateOutOfRange token width)
  | noNumeral {token : String} {width : Nat} (undenoted : ∀ n, ¬ Decimal.Denotes token.toList n) :
      Refuses (.immediate width) token (.invalidImmediate token)

def read : OperandKind → String → Except LineError Operand
  | reference, token => (Reference.parse token).map .reference
  | immediate width, token => (Immediate.parse token width).map .immediate

variable {kind : OperandKind} {token : String}

theorem read_eq_ok_iff {operand : Operand} :
    kind.read token = .ok operand ↔ kind.Accepts token operand := by
  cases kind with
  | reference =>
      rw [read, map_eq_ok_iff]
      constructor
      · rintro ⟨r, parsed, rfl⟩
        exact .reference (Reference.parse_eq_ok_iff.mp parsed)
      · intro accepts
        cases accepts with
        | reference spells => exact ⟨_, Reference.parse_eq_ok_iff.mpr spells, rfl⟩
  | immediate width =>
      rw [read, map_eq_ok_iff]
      constructor
      · rintro ⟨w, parsed, rfl⟩
        exact .immediate (Immediate.parse_eq_ok_iff.mp parsed)
      · intro accepts
        cases accepts with
        | immediate spells => exact ⟨_, Immediate.parse_eq_ok_iff.mpr spells, rfl⟩

theorem read_eq_error_iff {e : LineError} : kind.read token = .error e ↔ kind.Refuses token e := by
  cases kind with
  | reference =>
      rw [read, map_eq_error_iff, Reference.parse_eq_error_iff]
      constructor
      · rintro (⟨deep, rfl⟩ | ⟨shallow, unspelled, rfl⟩)
        · exact .tooDeep deep
        · exact .noRegister shallow unspelled
      · intro refuses
        cases refuses with
        | tooDeep deep => exact Or.inl ⟨deep, rfl⟩
        | noRegister shallow unspelled => exact Or.inr ⟨shallow, unspelled, rfl⟩
  | immediate width =>
      rw [read, map_eq_error_iff, Immediate.parse_eq_error_iff]
      constructor
      · rintro (⟨n, denotes, large, rfl⟩ | ⟨undenoted, rfl⟩)
        · exact .tooLarge denotes large
        · exact .noNumeral undenoted
      · intro refuses
        cases refuses with
        | tooLarge denotes large => exact Or.inl ⟨_, denotes, large, rfl⟩
        | noNumeral undenoted => exact Or.inr ⟨undenoted, rfl⟩

/-- Every token is an operand of its kind. -/
inductive AcceptsAll : List OperandKind → List String → List Operand → Prop where
  | nil : AcceptsAll [] [] []
  | cons {kind : OperandKind} {kinds : List OperandKind} {token : String} {tokens : List String}
      {operand : Operand} {operands : List Operand} (first : kind.Accepts token operand)
      (rest : AcceptsAll kinds tokens operands) :
      AcceptsAll (kind :: kinds) (token :: tokens) (operand :: operands)

/-- The leftmost token that is no operand of its kind is refused for the given reason. -/
inductive RefusesFirst : List OperandKind → List String → LineError → Prop where
  | here {kind : OperandKind} {kinds : List OperandKind} {token : String} {tokens : List String}
      {e : LineError} (refuses : kind.Refuses token e) :
      RefusesFirst (kind :: kinds) (token :: tokens) e
  | later {kind : OperandKind} {kinds : List OperandKind} {token : String} {tokens : List String}
      {operand : Operand} {e : LineError} (accepts : kind.Accepts token operand)
      (rest : RefusesFirst kinds tokens e) : RefusesFirst (kind :: kinds) (token :: tokens) e

def readAll : List OperandKind → List String → Except LineError (List Operand)
  | kind :: kinds, token :: tokens => do
    let operand ← kind.read token
    return operand :: (← readAll kinds tokens)
  | _, _ => .ok []

theorem readAll_cons_of_ok {kinds : List OperandKind} {tokens : List String} {operand : Operand}
    (success : kind.read token = .ok operand) :
    readAll (kind :: kinds) (token :: tokens) = (readAll kinds tokens).map (operand :: ·) := by
  rw [readAll, success]
  cases readAll kinds tokens <;> rfl

theorem readAll_cons_of_error {kinds : List OperandKind} {tokens : List String} {e : LineError}
    (failed : kind.read token = .error e) : readAll (kind :: kinds) (token :: tokens) = .error e := by
  rw [readAll, failed]
  rfl

theorem readAll_eq_ok_iff {kinds : List OperandKind} {tokens : List String} {operands : List Operand}
    (matched : tokens.length = kinds.length) :
    readAll kinds tokens = .ok operands ↔ AcceptsAll kinds tokens operands := by
  induction kinds generalizing tokens operands with
  | nil =>
      obtain rfl := List.eq_nil_of_length_eq_zero matched
      constructor
      · intro success
        cases success
        exact .nil
      · intro accepts
        cases accepts
        rfl
  | cons kind kinds ih =>
      cases tokens with
      | nil => cases matched
      | cons token tokens =>
          have rest (others : List Operand) : readAll kinds tokens = .ok others ↔
              AcceptsAll kinds tokens others := ih (Nat.succ.inj matched)
          constructor
          · intro success
            cases read : kind.read token with
            | error e =>
                rw [readAll_cons_of_error read] at success
                cases success
            | ok operand =>
                rw [readAll_cons_of_ok read] at success
                obtain ⟨others, readOthers, rfl⟩ := map_eq_ok_iff.mp success
                exact .cons (read_eq_ok_iff.mp read) ((rest others).mp readOthers)
          · intro accepts
            cases accepts with
            | cons first others =>
                rw [readAll_cons_of_ok (read_eq_ok_iff.mpr first), (rest _).mpr others]
                rfl

theorem readAll_eq_error_iff {kinds : List OperandKind} {tokens : List String} {e : LineError} :
    readAll kinds tokens = .error e ↔ RefusesFirst kinds tokens e := by
  constructor
  · intro failed
    induction kinds generalizing tokens with
    | nil => cases failed
    | cons kind kinds ih =>
        cases tokens with
        | nil => cases failed
        | cons token tokens =>
            cases read : kind.read token with
            | error other =>
                rw [readAll_cons_of_error read] at failed
                exact .here (read_eq_error_iff.mp (Except.error.inj failed ▸ read))
            | ok operand =>
                rw [readAll_cons_of_ok read] at failed
                exact .later (read_eq_ok_iff.mp read) (ih (map_eq_error_iff.mp failed))
  · intro refuses
    induction refuses with
    | here refuses => exact readAll_cons_of_error (read_eq_error_iff.mpr refuses)
    | later accepts _ ih =>
        rw [readAll_cons_of_ok (read_eq_ok_iff.mpr accepts), ih]
        rfl

end OperandKind

def Shape.operandKinds : Shape → List OperandKind
  | twoRef => [.reference, .reference]
  | refImm => [.reference, .immediate 20]
  | ref => [.reference]
  | imm => [.immediate 27]
  | bare => []

theorem Shape.length_operandKinds (shape : Shape) : shape.operandKinds.length = shape.arity := by
  cases shape <;> rfl

namespace Instruction

def operands : Instruction → List Operand
  | twoRef _ first second => [.reference first, .reference second]
  | refImm _ first immediate => [.reference first, .immediate immediate]
  | ref _ first => [.reference first]
  | imm _ immediate => [.immediate immediate]
  | bare _ => []

/-- An instruction is its operation with its operands. -/
theorem eq_of_operands {i j : Instruction} (operation : i.opcode = j.opcode)
    (same : i.operands = j.operands) : i = j := by
  cases i <;> cases j <;> simp_all [opcode, operands]

theorem parse_of_wrong_arity {op : Opcode} {tokens : List String}
    (unequal : tokens.length ≠ op.shape.arity) :
    parse op tokens = .error (.wrongArity op tokens.length) := by
  unfold parse
  split
  · exact absurd rfl unequal
  · exact absurd rfl unequal
  · exact absurd rfl unequal
  · exact absurd rfl unequal
  · exact absurd rfl unequal
  · rfl

theorem operands_parse {op : Opcode} {tokens : List String} (matched : tokens.length = op.shape.arity) :
    (parse op tokens).map operands = OperandKind.readAll op.shape.operandKinds tokens := by
  cases op with
  | twoRef op =>
      obtain ⟨first, second, rfl⟩ := List.length_eq_two.mp matched
      change (parse (.twoRef op) [first, second]).map operands =
        OperandKind.readAll [.reference, .reference] [first, second]
      simp only [parse, OperandKind.readAll, OperandKind.read]
      cases Reference.parse first with
      | error e => rfl
      | ok r => cases Reference.parse second <;> rfl
  | refImm op =>
      obtain ⟨first, second, rfl⟩ := List.length_eq_two.mp matched
      change (parse (.refImm op) [first, second]).map operands =
        OperandKind.readAll [.reference, .immediate 20] [first, second]
      simp only [parse, OperandKind.readAll, OperandKind.read]
      cases Reference.parse first with
      | error e => rfl
      | ok r => cases Immediate.parse second 20 <;> rfl
  | ref op =>
      obtain ⟨first, rfl⟩ := List.length_eq_one_iff.mp matched
      change (parse (.ref op) [first]).map operands = OperandKind.readAll [.reference] [first]
      simp only [parse, OperandKind.readAll, OperandKind.read]
      cases Reference.parse first <;> rfl
  | imm op =>
      obtain ⟨first, rfl⟩ := List.length_eq_one_iff.mp matched
      change (parse (.imm op) [first]).map operands = OperandKind.readAll [.immediate 27] [first]
      simp only [parse, OperandKind.readAll, OperandKind.read]
      cases Immediate.parse first 27 <;> rfl
  | bare op =>
      obtain rfl := List.eq_nil_of_length_eq_zero matched
      rfl

theorem parse_eq_ok_iff {op : Opcode} {tokens : List String} {i : Instruction}
    (matched : tokens.length = op.shape.arity) :
    parse op tokens = .ok i ↔
      i.opcode = op ∧ OperandKind.AcceptsAll op.shape.operandKinds tokens i.operands := by
  rw [← OperandKind.readAll_eq_ok_iff (matched.trans op.shape.length_operandKinds.symm),
    ← operands_parse matched, map_eq_ok_iff]
  constructor
  · intro success
    exact ⟨(form_of_parse success).1, i, success, rfl⟩
  · rintro ⟨operation, j, success, same⟩
    rw [success, eq_of_operands ((form_of_parse success).1.trans operation.symm) same]

theorem parse_eq_error_iff {op : Opcode} {tokens : List String} {e : LineError}
    (matched : tokens.length = op.shape.arity) :
    parse op tokens = .error e ↔ OperandKind.RefusesFirst op.shape.operandKinds tokens e := by
  rw [← OperandKind.readAll_eq_error_iff, ← operands_parse matched, map_eq_error_iff]

end Instruction

/-- What a line becomes with a given pool of literals, and the pool that follows: the rules are on the text of
the line without the blanks around it. -/
inductive Assembles (pool : LiteralPool) :
    List Char → Except LineError (Option Word) → LiteralPool → Prop where
  /-- There is nothing on the line. -/
  | nothing : Assembles pool [] (.ok none) pool
  | comment (cs : List Char) : Assembles pool ('#' :: cs) (.ok none) pool
  /-- The first word is no mnemonic. -/
  | unknown {text name rest : List Char} (leads : Blank.Leads text name rest)
      (plain : text.head? ≠ some '#') (unnamed : ∀ op : Opcode, op.mnemonic.toList ≠ name) :
      Assembles pool text (.error (.unknownInstruction (String.ofList name))) pool
  /-- A literal is all that follows the one character behind the mnemonic. It gets the next number. -/
  | literal {text rest : List Char} {word : Word}
      (leads : Blank.Leads text (Opcode.imm .printLiteral).mnemonic.toList rest)
      (decoded : Instruction.decode word = .ok (.imm .printLiteral (BitVec.ofNat 32 pool.size))) :
      Assembles pool text (.ok (some word)) (pool.push (String.ofList (rest.drop 1)))
  /-- The number of operands is wrong, whatever they are. -/
  | arity {text rest : List Char} {words : List (List Char)} {op : Opcode}
      (leads : Blank.Leads text op.mnemonic.toList rest) (ordinary : op ≠ .imm .printLiteral)
      (separates : Blank.Separates rest words) (unequal : words.length ≠ op.shape.arity) :
      Assembles pool text (.error (.wrongArity op words.length)) pool
  /-- There are as many operands as there have to be, and one of them is refused. -/
  | operand {text rest : List Char} {words : List (List Char)} {op : Opcode} {e : LineError}
      (leads : Blank.Leads text op.mnemonic.toList rest) (ordinary : op ≠ .imm .printLiteral)
      (separates : Blank.Separates rest words) (matched : words.length = op.shape.arity)
      (refuses : OperandKind.RefusesFirst op.shape.operandKinds (words.map String.ofList) e) :
      Assembles pool text (.error e) pool
  /-- The operands are those of the one instruction that the word decodes to. -/
  | instruction {text rest : List Char} {words : List (List Char)} {i : Instruction} {word : Word}
      (leads : Blank.Leads text i.opcode.mnemonic.toList rest)
      (ordinary : i.opcode ≠ .imm .printLiteral) (separates : Blank.Separates rest words)
      (matched : words.length = i.opcode.shape.arity)
      (accepts :
        OperandKind.AcceptsAll i.opcode.shape.operandKinds (words.map String.ofList) i.operands)
      (decoded : Instruction.decode word = .ok i) : Assembles pool text (.ok (some word)) pool

namespace Assembles

variable {pool after : LiteralPool} {line : String} {text : List Char}
  {result : Except LineError (Option Word)}

theorem trimmed_leads {word rest : List Char} (trims : Blank.Trims line.toList text)
    (leads : Blank.Leads text word rest) :
    Blank.token (Blank.trim line.toList) = word ∧ Blank.afterToken (Blank.trim line.toList) = rest := by
  rw [← Blank.trims_iff.mp trims]
  exact ⟨leads.eq.1.symm, leads.eq.2.symm⟩

/-- A line that names an ordinary operation is read as its operands are. -/
theorem parse_of_separates {rest : List Char} {words : List (List Char)} {op : Opcode}
    (trims : Blank.Trims line.toList text) (leads : Blank.Leads text op.mnemonic.toList rest)
    (ordinary : op ≠ .imm .printLiteral) (separates : Blank.Separates rest words) :
    Statement.parse line =
      (Instruction.parse op (words.map String.ofList)).map fun i => some (.instruction i) := by
  obtain ⟨named, follows⟩ := trimmed_leads trims leads
  rw [Statement.parse_of_mnemonic named ordinary, follows, ← separates.eq]

theorem parse_of_unknown {name rest : List Char} (trims : Blank.Trims line.toList text)
    (leads : Blank.Leads text name rest) (plain : text.head? ≠ some '#')
    (unnamed : ∀ op : Opcode, op.mnemonic.toList ≠ name) :
    Statement.parse line = .error (.unknownInstruction (String.ofList name)) := by
  obtain ⟨named, _⟩ := trimmed_leads trims leads
  have free : Opcode.ofMnemonic? (String.ofList name) = none := by
    apply List.find?_eq_none.mpr
    intro op _ same
    exact unnamed op (by rw [of_decide_eq_true same, String.toList_ofList])
  unfold Statement.parse
  rw [Blank.trims_iff.mp trims] at leads plain
  split
  · rename_i empty
    rw [empty] at leads
    exact absurd (List.append_eq_nil_iff.mp leads.whole.symm).1 leads.some_word
  · rename_i cs comment
    rw [comment] at plain
    exact absurd rfl plain
  · dsimp only
    rw [named, free]

/-- A line has the result that a rule gives it. -/
theorem assembleLine_eq (few : pool.size < 134217728) (trims : Blank.Trims line.toList text)
    (rule : Assembles pool text result after) : assembleLine pool line = (result, after) := by
  cases rule with
  | nothing =>
      have silent : Statement.parse line = .ok none := by
        unfold Statement.parse
        rw [← Blank.trims_iff.mp trims]
      rw [assembleLine, silent]
  | comment cs =>
      have silent : Statement.parse line = .ok none := by
        unfold Statement.parse
        rw [← Blank.trims_iff.mp trims]
        rfl
      rw [assembleLine, silent]
  | unknown leads plain unnamed => rw [assembleLine, parse_of_unknown trims leads plain unnamed]
  | @literal _ rest word leads decoded =>
      obtain ⟨named, follows⟩ := trimmed_leads trims leads
      rw [assembleLine, Statement.parse_of_literal named, follows,
        ← Instruction.encode_of_decode decoded]
      have room : pool.size + (Statement.printLiteral (String.ofList (rest.drop 1))).literals.length ≤
          Statement.maxLiterals := few
      simp only [Statement.emit_eq room, Except.map, LiteralPool.push, Array.push_eq_append]
      rfl
  | @arity _ _ words op leads ordinary separates unequal =>
      have counted : (words.map String.ofList).length ≠ op.shape.arity := by rwa [List.length_map]
      rw [assembleLine, parse_of_separates trims leads ordinary separates,
        Instruction.parse_of_wrong_arity counted, List.length_map]
      rfl
  | @operand _ _ words op e leads ordinary separates matched refuses =>
      have counted : (words.map String.ofList).length = op.shape.arity := by rwa [List.length_map]
      rw [assembleLine, parse_of_separates trims leads ordinary separates,
        (Instruction.parse_eq_error_iff counted).mpr refuses]
      rfl
  | @instruction _ _ words i word leads ordinary separates matched accepts decoded =>
      have counted : (words.map String.ofList).length = i.opcode.shape.arity := by
        rwa [List.length_map]
      rw [assembleLine, parse_of_separates trims leads ordinary separates,
        (Instruction.parse_eq_ok_iff counted).mpr ⟨rfl, accepts⟩,
        ← Instruction.encode_of_decode decoded]
      rfl

/-- Some rule applies to every line. -/
theorem exists_rule (few : pool.size < 134217728) (trimmed : Blank.Trimmed text) :
    ∃ result after, Assembles pool text result after := by
  by_cases empty : text = []
  · subst empty
    exact ⟨_, _, .nothing⟩
  by_cases comment : text.head? = some '#'
  · obtain ⟨cs, rfl⟩ := List.head?_eq_some_iff.mp comment
    exact ⟨_, _, .comment cs⟩
  have leads := Blank.leads_token empty trimmed.1
  by_cases named : ∃ op : Opcode, op.mnemonic.toList = Blank.token text
  · obtain ⟨op, name⟩ := named
    rw [← name] at leads
    by_cases literal : op = .imm .printLiteral
    · subst literal
      have fits : (Instruction.imm .printLiteral (BitVec.ofNat 32 pool.size)).Fits := by
        change (BitVec.ofNat 32 pool.size).toNat < 134217728
        rw [BitVec.toNat_ofNat]
        omega
      exact ⟨_, _, .literal leads (Instruction.decode_encode_of_fits fits)⟩
    have separates := Blank.separates_fields (Blank.afterToken text)
    by_cases matched : (Blank.fields (Blank.afterToken text)).length = op.shape.arity
    · have counted : ((Blank.fields (Blank.afterToken text)).map String.ofList).length =
          op.shape.arity := by rwa [List.length_map]
      cases parsed : Instruction.parse op ((Blank.fields (Blank.afterToken text)).map String.ofList) with
      | error e =>
          exact ⟨_, _, .operand leads literal separates matched
            ((Instruction.parse_eq_error_iff counted).mp parsed)⟩
      | ok i =>
          obtain ⟨rfl, accepts⟩ := (Instruction.parse_eq_ok_iff counted).mp parsed
          exact ⟨_, _, .instruction leads literal separates matched accepts
            (Instruction.decode_encode_of_fits (Instruction.form_of_parse parsed).2)⟩
    · exact ⟨_, _, .arity leads literal separates matched⟩
  · exact ⟨_, _, .unknown leads comment fun op same => named ⟨op, same⟩⟩

end Assembles

/-- Assembling a line follows its grammar, in which each line has one result: the one that is computed. -/
theorem assembleLine_follows_grammar {pool : LiteralPool} (few : pool.size < 134217728) (line : String)
    (result : Except LineError (Option Word)) (after : LiteralPool) :
    assembleLine pool line = (result, after) ↔
      ∃ text, Blank.Trims line.toList text ∧ Assembles pool text result after := by
  constructor
  · intro assembled
    obtain ⟨other, otherAfter, rule⟩ := Assembles.exists_rule few (Blank.trimmed_trim line.toList)
    have trims : Blank.Trims line.toList (Blank.trim line.toList) := Blank.trims_iff.mpr rfl
    have same := (rule.assembleLine_eq few trims).symm.trans assembled
    cases same
    exact ⟨_, trims, rule⟩
  · rintro ⟨text, trims, rule⟩
    exact rule.assembleLine_eq few trims

/-- The line separator in front of a literal is dropped and the space behind it is kept. Of two bad operands
the first one is named. -/
theorem assembleLine_follows_grammar_on_two_lines :
    let pool : LiteralPool := ⟨#["x"]⟩
    pool.size < 134217728 ∧
      assembleLine pool " PRINTSTR\u2028 a\t" =
        (.ok (some (Instruction.imm .printLiteral 1).encode), ⟨#["x", " a"]⟩) ∧
      assembleLine pool "MOV\u00A0********r1 99" =
        (.error (.tooManyIndirections "********r1"), pool) := by
  intro pool
  have few : pool.size < 134217728 := by decide
  refine ⟨few, ?_, ?_⟩
  · apply (assembleLine_follows_grammar few _ _ _).mpr
    refine ⟨"PRINTSTR\u2028 a".toList, Blank.trims_iff.mpr (by decide +kernel), ?_⟩
    have leads : Blank.Leads "PRINTSTR\u2028 a".toList (Opcode.imm .printLiteral).mnemonic.toList
        ['\u2028', ' ', 'a'] := Blank.leads_token (by decide) (by decide +kernel)
    exact .literal leads (Instruction.decode_encode_of_fits (show 1 < 134217728 by decide))
  · apply (assembleLine_follows_grammar few _ _ _).mpr
    refine ⟨"MOV\u00A0********r1 99".toList, Blank.trims_iff.mpr (by decide +kernel), ?_⟩
    have leads : Blank.Leads "MOV\u00A0********r1 99".toList (Opcode.twoRef .mov).mnemonic.toList
        "\u00A0********r1 99".toList := Blank.leads_token (by decide) (by decide +kernel)
    have separates : Blank.Separates "\u00A0********r1 99".toList ["********r1".toList, "99".toList] :=
      Blank.separates_iff.mpr (by decide +kernel)
    have deep : Reference.TooDeep "********r1".toList :=
      ⟨8, ['r', '1'], by decide, rfl, List.cons_ne_nil _ _, List.all_eq_true.mp rfl⟩
    exact .operand leads (by decide) separates rfl (.here (.tooDeep deep))

end StoredProgram
