import StoredProgram.Assembly.Operand
import StoredProgram.Instruction.Codec
import StoredProgram.LiteralPool
import StoredProgram.Text.Blank

set_option autoImplicit false

namespace StoredProgram

/-- Reads the operands of an operation, from left to right, after their number. -/
def Instruction.parse (op : Opcode) (operands : List String) : Except LineError Instruction :=
  match op, operands with
  | .twoRef op, [first, second] => do
    return .twoRef op (← Reference.parse first) (← Reference.parse second)
  | .refImm op, [first, immediate] => do
    return .refImm op (← Reference.parse first) (← Immediate.parse immediate 20)
  | .ref op, [first] => do return .ref op (← Reference.parse first)
  | .imm op, [immediate] => do return .imm op (← Immediate.parse immediate 27)
  | .bare op, [] => .ok (.bare op)
  | op, operands => .error (.wrongArity op operands.length)

/-- What a line says: an instruction, or to print a literal that has no number yet. -/
inductive Statement where
  | instruction (i : Instruction)
  | printLiteral (literal : String)
  deriving DecidableEq, Repr

namespace Statement

/-- Reads a line. A blank line and a comment say nothing. The literal to print is all that follows the
single blank after the mnemonic, as it stands. -/
def parse (line : String) : Except LineError (Option Statement) :=
  match Blank.trim line.toList with
  | [] => .ok none
  | '#' :: _ => .ok none
  | cs =>
    let name := String.ofList (Blank.token cs)
    let rest := Blank.afterToken cs
    match Opcode.ofMnemonic? name with
    | none => .error (.unknownInstruction name)
    | some (.imm .printLiteral) => .ok (some (printLiteral (String.ofList (rest.drop 1))))
    | some op =>
      match Instruction.parse op ((Blank.fields rest).map String.ofList) with
      | .ok i => .ok (some (instruction i))
      | .error e => .error e

/-- The word of a statement, and the pool after it. A literal joins the pool even if its number turns
out too large for the instruction. -/
def emit (pool : LiteralPool) : Statement → Except LineError Word × LiteralPool
  | instruction i => (.ok i.encode, pool)
  | printLiteral literal =>
    let index := pool.nextIndex
    ((Immediate.fit index.unsignedText index.toNat 27).map fun immediate =>
      (Instruction.imm .printLiteral immediate).encode, pool.push literal)

end Statement

/-- Assembles one line: its word, if it says anything, and the pool after it. -/
def assembleLine (pool : LiteralPool) (line : String) :
    Except LineError (Option Word) × LiteralPool :=
  match Statement.parse line with
  | .error e => (.error e, pool)
  | .ok none => (.ok none, pool)
  | .ok (some statement) =>
    let (word, pool) := statement.emit pool
    (word.map some, pool)

end StoredProgram
