import StoredProgram.Opcode
import StoredProgram.Register
import StoredProgram.Word

set_option autoImplicit false

namespace StoredProgram

/-- An operation applied to its operands. An immediate is a whole word here; how much of it fits in an
encoded instruction is for the encoding to say. -/
inductive Instruction where
  | twoRef (op : TwoRefOp) (first second : Reference)
  | refImm (op : RefImmOp) (first : Reference) (immediate : Word)
  | ref (op : RefOp) (first : Reference)
  | imm (op : ImmOp) (immediate : Word)
  | bare (op : BareOp)
  deriving DecidableEq, Repr

namespace Instruction

def opcode : Instruction → Opcode
  | twoRef op _ _ => .twoRef op
  | refImm op _ _ => .refImm op
  | ref op _ => .ref op
  | imm op _ => .imm op
  | bare op => .bare op

/-- The instruction that takes the operands it needs out of all the operands that there can be. -/
def ofFields (op : Opcode) (first second : Reference) (immediate : Word) : Instruction :=
  match op with
  | .twoRef op => twoRef op first second
  | .refImm op => refImm op first immediate
  | .ref op => ref op first
  | .imm op => imm op immediate
  | .bare op => bare op

/-- The instruction as a line of assembly. A literal shows as its number. -/
def text : Instruction → String
  | i@(twoRef _ first second) => i.opcode.mnemonic ++ " " ++ first.text ++ " " ++ second.text
  | i@(refImm _ first immediate) =>
    i.opcode.mnemonic ++ " " ++ first.text ++ " " ++ immediate.unsignedText
  | i@(ref _ first) => i.opcode.mnemonic ++ " " ++ first.text
  | i@(imm _ immediate) => i.opcode.mnemonic ++ " " ++ immediate.unsignedText
  | i@(bare _) => i.opcode.mnemonic

/-- Whether the instruction opens or closes a function body. Only such an instruction takes effect
while a body is passed over. -/
def marksBody : Instruction → Bool
  | imm .beginFunction _ | bare .endFunction => true
  | _ => false

end Instruction
end StoredProgram
