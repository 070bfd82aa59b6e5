import StoredProgram.Main.Table
import StoredProgram.Proofs.Assembly.Program
import StoredProgram.Proofs.Image.Bytes
import StoredProgram.Proofs.Machine.Printing
import StoredProgram.Proofs.Machine.Run

set_option autoImplicit false

namespace StoredProgram

namespace Statement

variable {literals : List String} {k : Nat}

/-- A program that prints literals, and halts. -/
def printing (literals : List String) : List Statement :=
  literals.map printLiteral ++ [instruction (.bare .halt)]

theorem literals_map_printLiteral (literals : List String) :
    (literals.map printLiteral).flatMap Statement.literals = literals := by
  induction literals with
  | nil => rfl
  | cons literal literals ih => exact congrArg (literal :: ·) ih

theorem literals_printing (literals : List String) :
    (printing literals).flatMap Statement.literals = literals := by
  rw [printing, List.flatMap_append, literals_map_printLiteral]
  exact List.append_nil literals

@[simp] theorem length_printing (literals : List String) :
    (printing literals).length = literals.length + 1 := by
  simp [printing]

theorem wellFormed_printing (plain : ∀ literal ∈ literals, Lines.IsLine literal)
    (closed : ∀ literal ∈ literals, ∀ c ∈ literal.toList.getLast?, Blank.isBlank c = false) :
    ∀ s ∈ printing literals, s.WellFormed := by
  intro s member
  rcases List.mem_append.mp member with prints | halts
  · obtain ⟨literal, listed, rfl⟩ := List.mem_map.mp prints
    exact ⟨plain literal listed, closed literal listed⟩
  · rw [List.mem_singleton.mp halts]
    exact ⟨trivial, by decide⟩

/-- The source text of the program. Its last line may or may not end with a newline. -/
theorem lines_printing {ending : String} (ended : ending = "" ∨ ending = "\n")
    (plain : ∀ literal ∈ literals, Lines.IsLine literal) :
    Lines.split (Lines.join (literals.map ("PRINTSTR " ++ ·)) ++ "TERM" ++ ending) =
      (printing literals).map text := by
  have single : ∀ line ∈ literals.map ("PRINTSTR " ++ ·), Lines.IsLine line := by
    intro line member
    obtain ⟨literal, listed, rfl⟩ := List.mem_map.mp member
    exact Lines.IsLine.append (by decide) (plain literal listed)
  have last : Lines.split ("TERM" ++ ending) = ["TERM"] := by
    rcases ended with rfl | rfl <;> decide
  rw [String.append_assoc, Lines.split_join_append single, last, printing, List.map_append,
    List.map_map]
  rfl

/-- The literals are numbered as they come. -/
theorem word_of_literal (before : k < literals.length) :
    (words 0 (printing literals))[k]? =
      some (Instruction.imm .printLiteral (BitVec.ofNat 32 k)).encode := by
  have within : k < (literals.map printLiteral).length := by rwa [List.length_map]
  have earlier : ((printing literals).take k).flatMap Statement.literals = literals.take k := by
    rw [printing, List.take_append_of_le_length (Nat.le_of_lt within), ← List.map_take,
      literals_map_printLiteral]
  rw [getElem?_words, earlier, List.length_take, Nat.min_eq_left (Nat.le_of_lt before), Nat.zero_add,
    printing, List.getElem?_append_left within, List.getElem?_map, List.getElem?_eq_getElem before]
  rfl

theorem word_of_halt (literals : List String) :
    (words 0 (printing literals))[literals.length]? = some (Instruction.bare .halt).encode := by
  have last : (printing literals)[literals.length]? = some (instruction (.bare .halt)) := by
    rw [printing, List.getElem?_append_right (by simp), List.length_map, Nat.sub_self]
    rfl
  rw [getElem?_words, last]
  rfl

end Statement

def Image.printing (literals : List String) : Image :=
  ⟨Statement.words 0 (Statement.printing literals), LiteralPool.pack ⟨literals.toArray⟩⟩

theorem Image.ofStatements_printing (literals : List String) :
    ofStatements (Statement.printing literals) = printing literals := by
  rw [ofStatements, Statement.literals_printing]
  rfl

@[simp] theorem Image.length_code_printing (literals : List String) :
    (printing literals).code.length = literals.length + 1 := by
  rw [printing, Statement.length_words, Statement.length_printing]

theorem Image.length_static_printing (literals : List String) :
    (printing literals).static.length = 2 * literals.length + (literals.flatMap String.toList).length :=
  LiteralPool.length_pack literals

namespace Machine

open Statement (maxLiterals)

variable {literals : List String} {m : Machine} {k : Nat}

/-- The machine after the first `k` literals: they have been printed, the program is in memory as it was
loaded, and the instruction at number `k` is next. -/
structure HasPrinted (literals : List String) (k : Nat) (m : Machine) : Prop where
  small : m.memory.size < 2147483648
  holds : m.memory.Holds Register.count
    ((Image.printing literals).code ++ (Image.printing literals).static)
  base : m.staticBase = Register.count + (Image.printing literals).code.length
  next : m.register .ip = BitVec.ofNat 32 (Register.count + k)
  outside : m.inBody = false
  untraced : m.trace = false
  output : m.output = Lines.join (literals.take k)

namespace HasPrinted

/-- The instruction that is next is the one that the source has there. -/
theorem fetched (at_k : m.HasPrinted literals k) {w : Word} {i : Instruction}
    (listed : (Image.printing literals).code[k]? = some w)
    (decoded : Instruction.decode w = .ok i) : Action.fetch.outcome m = .ok i := by
  obtain ⟨within, _⟩ := List.getElem?_eq_some_iff.mp listed
  have present := at_k.holds.read at_k.small ((List.getElem?_append_left within).trans listed)
  rw [← at_k.next] at present
  exact Action.fetch_of_read present decoded

theorem step (at_k : m.HasPrinted literals k) (few : literals.length ≤ maxLiterals)
    (before : k < literals.length) :
    Action.step.outcome m = .ok .next ∧ (Action.step.after m).HasPrinted literals (k + 1) := by
  have number : (Instruction.imm .printLiteral (BitVec.ofNat 32 k)).Fits := by
    simp only [maxLiterals] at few
    simp only [Instruction.Fits, BitVec.toNat_ofNat]
    omega
  have fetched := at_k.fetched (Statement.word_of_literal before)
    (Instruction.decode_encode_of_fits number)
  have static : m.memory.Holds m.staticBase (Image.printing literals).static := by
    rw [at_k.base]
    exact at_k.holds.back
  have short : (Image.printing literals).static.length < 4294967296 := by
    have fits := static.fits
    have small := at_k.small
    omega
  have found : LiteralPool.lookup (Image.printing literals).static (BitVec.ofNat 32 k) =
      .ok literals[k] :=
    LiteralPool.lookup_pack short (List.getElem?_eq_getElem before)
  have read : m.memory.literal (BitVec.ofNat 32 m.staticBase) (BitVec.ofNat 32 k) = .ok literals[k] := by
    rw [Memory.literal_of_lookup static at_k.small (by simp [found]), found]
    rfl
  obtain ⟨gives, leaves⟩ := Action.step_of_literal at_k.outside fetched at_k.untraced read
  have within : Register.ip.val < m.memory.size := by
    have fits := at_k.holds.fits
    have positive : 0 < Register.count := by decide
    change 0 < m.memory.size
    omega
  refine ⟨gives, ?_⟩
  rw [leaves]
  refine { at_k with holds := ?_, next := ?_, output := ?_, .. }
  · exact at_k.holds.put_before (by decide) _
  · rw [register_ip_printed _ within, at_k.next, Word.ofNat_add_one, Nat.add_assoc]
  · change m.output ++ literals[k] ++ "\n" = _
    rw [at_k.output, List.take_add_one, List.getElem?_eq_getElem before, Lines.join_append]
    simp [Lines.join_cons, String.append_assoc]

theorem halt (at_end : m.HasPrinted literals literals.length) :
    Action.step.outcome m = .ok .halt ∧ Action.step.after m = m := by
  have fetched := at_end.fetched (Statement.word_of_halt literals)
    (Instruction.decode_encode_of_fits trivial)
  obtain ⟨gives, leaves⟩ := Action.step_of_dispatched fetched (Or.inl at_end.outside)
  rw [gives, leaves, Action.after_fetch_of_off at_end.untraced]
  exact ⟨rfl, rfl⟩

/-- The machine prints what is left, and halts. -/
theorem runFrom (few : literals.length ≤ maxLiterals) {rest limit : Nat} (enough : rest < limit)
    (at_k : m.HasPrinted literals k) (count : k + rest = literals.length) (done : Nat) :
    ∃ last, Machine.runFrom done limit m = ⟨.halted, last, done + rest + 1⟩ ∧
      last.HasPrinted literals literals.length := by
  -- By induction on the number of literals that are left.
  induction rest generalizing k done m limit with
  | zero =>
      obtain ⟨limit, rfl⟩ := Nat.exists_eq_add_one.mpr enough
      obtain rfl : k = literals.length := count
      obtain ⟨gives, leaves⟩ := at_k.halt
      rw [runFrom_succ, gives, leaves]
      exact ⟨m, rfl, at_k⟩
  | succ rest ih =>
      obtain ⟨limit, rfl⟩ := Nat.exists_eq_add_one.mpr (Nat.zero_lt_of_lt enough)
      obtain ⟨gives, later⟩ := at_k.step few (by omega)
      obtain ⟨last, ends, printed⟩ := ih (Nat.lt_of_succ_lt_succ enough) later (by omega) (done + 1)
      rw [runFrom_succ, gives]
      refine ⟨last, ?_, printed⟩
      rw [show done + (rest + 1) + 1 = done + 1 + rest + 1 by omega]
      exact ends

end HasPrinted

/-- A load puts the program in place, with nothing printed yet. -/
theorem hasPrinted_of_load {config : Config} (input : List UInt8) (untraced : config.trace = false)
    (small : config.memorySize < 2147483648)
    (room : 16 + (literals.length + 1) + 2 * literals.length + (literals.flatMap String.toList).length ≤
      config.memorySize) :
    ∃ m, withImage (Image.printing literals) config input = .ok m ∧ m.HasPrinted literals 0 := by
  have large : Register.count < config.memorySize := by
    change 16 < config.memorySize
    omega
  have fits : Register.count + (Image.printing literals).code.length +
      (Image.printing literals).static.length ≤ config.memorySize := by
    rw [Image.length_code_printing, Image.length_static_printing, ← Nat.add_assoc]
    exact room
  refine ⟨_, withImage_of_fits large small fits input, ?_⟩
  rw [logged_of_off untraced]
  exact
    { small := by rwa [Action.loaded, Action.size_loadedMemory]
      holds := Action.holds_loadedMemory fits
      base := rfl
      next := (Action.cell_loadedMemory _ large).1
      outside := rfl
      untraced
      output := by simp [Action.loaded] }

/-- Literals come out of a run as they went into the source. For literals that stand on one line and do not
end in a blank, and a memory that holds the program, the source text is assembled, the image file holds the
whole program, and its untraced run halts with every literal printed on a line of its own. -/
theorem run_prints_literals_of_source {literals : List String} {config : Config} {ending : String}
    (few : literals.length ≤ 134217728) (plain : ∀ literal ∈ literals, Lines.IsLine literal)
    (closed : ∀ literal ∈ literals, ∀ c ∈ literal.toList.getLast?, Blank.isBlank c = false)
    (room : 16 + (literals.length + 1) + 2 * literals.length + (literals.flatMap String.toList).length ≤
      config.memorySize)
    (small : config.memorySize < 2147483648) (untraced : config.trace = false)
    (ended : ending = "" ∨ ending = "\n") (input : List UInt8) {limit : Nat}
    (enough : literals.length < limit) :
    ∃ image m,
      assemble (Lines.join (literals.map ("PRINTSTR " ++ ·)) ++ "TERM" ++ ending) = .ok image ∧
      Image.ofBytes image.toBytes = .ok image ∧ withImage image config input = .ok m ∧
      ∀ draw, (m.run draw limit).ending = .halted ∧
        (m.run draw limit).machine.output = Lines.join literals := by
  have assembled : assemble (Lines.join (literals.map ("PRINTSTR " ++ ·)) ++ "TERM" ++ ending) =
      .ok (Image.printing literals) := by
    rw [← Image.ofStatements_printing]
    apply assemble_of_lines (Statement.lines_printing ended plain)
      (Statement.wellFormed_printing plain closed)
    rwa [Statement.literals_printing]
  have counted : (Image.printing literals).code.length < 4294967296 := by
    rw [Image.length_code_printing]
    omega
  obtain ⟨m, loaded, start⟩ := hasPrinted_of_load input untraced small room
  obtain ⟨last, ends, printed⟩ := start.runFrom few enough (Nat.zero_add _) 0
  have ran (draw : Table → String) : m.run draw limit = ⟨.halted, last, 0 + literals.length + 1⟩ := by
    rw [run, ends]
    dsimp only
    rw [close, printed.untraced, if_neg Bool.false_ne_true]
  refine ⟨_, m, assembled, Image.ofBytes_toBytes counted, loaded, fun draw => ⟨?_, ?_⟩⟩
  · rw [ran]
  · rw [ran, printed.output, List.take_length]

/-- An empty literal, one that starts with blanks and a hash, and one with characters of several sizes, in
the smallest memory that holds them. -/
theorem run_prints_literals_of_source_in_small_memory :
    let literals := ["", " \t#a\rb", "é😀"]
    ∃ image m,
      assemble (Lines.join (literals.map ("PRINTSTR " ++ ·)) ++ "TERM" ++ "") = .ok image ∧
      Image.ofBytes image.toBytes = .ok image ∧ withImage image ⟨34, false⟩ [] = .ok m ∧
      (m.run Table.text 4).ending = .halted ∧ (m.run Table.text 4).machine.output = "\n \t#a\rb\né😀\n" := by
  intro literals
  obtain ⟨image, m, assembled, written, loaded, runs⟩ := @run_prints_literals_of_source literals
    ⟨34, false⟩ "" (by decide) (by decide) (by decide) (by decide) (by decide) rfl (Or.inl rfl) [] 4
    (by decide)
  exact ⟨image, m, assembled, written, loaded, runs Table.text⟩

end Machine
end StoredProgram
