import StoredProgram.Instruction

set_option autoImplicit false

namespace StoredProgram

namespace Reference

/-- Three bits of level, then four bits of register number. -/
def bits (r : Reference) : BitVec 7 :=
  BitVec.ofNat 3 r.level.val ++ BitVec.ofNat 4 r.register.val

def ofBits (b : BitVec 7) : Reference :=
  ⟨(b.extractLsb' 4 3).toFin, (b.extractLsb' 0 4).toFin⟩

@[simp] theorem ofBits_bits (r : Reference) : ofBits r.bits = r := by
  obtain ⟨level, register⟩ := r
  revert level register
  decide

@[simp] theorem bits_ofBits (b : BitVec 7) : (ofBits b).bits = b := by
  revert b
  decide

end Reference

inductive DecodeError where
  /-- The top five bits name no operation. -/
  | unknownOpcode (word : Word)
  /-- A bit is set that no operand of the operation uses. -/
  | nonZeroPadding (op : Opcode) (word : Word)
  deriving DecidableEq, Repr

def DecodeError.message : DecodeError → String
  | unknownOpcode word => "unknown instruction: " ++ word.binary
  | nonZeroPadding op word =>
    op.mnemonic ++ " instruction has non-zero padding bits: " ++ word.binary

/-- The opcode in the top five bits of a word, whatever follows it. -/
def Opcode.decode (w : Word) : Except DecodeError Opcode :=
  match Opcode.ofCode? (w.extractLsb' 27 5).toNat with
  | some op => .ok op
  | none => .error (.unknownOpcode w)

namespace Instruction

/-- The instruction as a word: five bits of opcode, seven for each reference, and the immediate, with zeros
in what is left. Of an immediate only the low bits that have a place are kept. -/
def encode : Instruction → Word
  | i@(twoRef _ first second) => i.opcode.code ++ first.bits ++ second.bits ++ 0#13
  | i@(refImm _ first immediate) => i.opcode.code ++ first.bits ++ immediate.setWidth 20
  | i@(ref _ first) => i.opcode.code ++ first.bits ++ 0#20
  | i@(imm _ immediate) => i.opcode.code ++ immediate.setWidth 27
  | i@(bare _) => i.opcode.code ++ 0#27

/-- The reference in the seven bits after the opcode. -/
def firstField (w : Word) : Reference := Reference.ofBits (w.extractLsb' 20 7)

/-- The reference in the seven bits after those. -/
def secondField (w : Word) : Reference := Reference.ofBits (w.extractLsb' 13 7)

/-- The operands of an operation, out of the fields of its layout. -/
def ofWord (op : Opcode) (w : Word) : Instruction :=
  match op with
  | .twoRef op => twoRef op (firstField w) (secondField w)
  | .refImm op => refImm op (firstField w) ((w.setWidth 20).setWidth 32)
  | .ref op => ref op (firstField w)
  | .imm op => imm op ((w.setWidth 27).setWidth 32)
  | .bare op => bare op

/-- The instruction that a word encodes. An unknown opcode is found before a reserved bit. -/
def decode (w : Word) : Except DecodeError Instruction := do
  let op ← Opcode.decode w
  if w.setWidth op.shape.reservedBits = 0 then
    pure (ofWord op w)
  else
    throw (.nonZeroPadding op w)

@[simp] theorem opcode_ofWord (op : Opcode) (w : Word) : (ofWord op w).opcode = op := by
  cases op <;> rfl

end Instruction
end StoredProgram
