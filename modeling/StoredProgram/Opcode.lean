set_option autoImplicit false

namespace StoredProgram

inductive Shape where
  | twoRef
  | refImm
  | ref
  | imm
  | bare
  deriving DecidableEq, Repr

namespace Shape

def arity : Shape → Nat
  | twoRef | refImm => 2
  | ref | imm => 1
  | bare => 0

/-- The width in bits of the immediate operand, if there is one. -/
def immediateWidth? : Shape → Option Nat
  | refImm => some 20
  | imm => some 27
  | _ => none

/-- The number of low bits of the word that no operand uses. -/
def reservedBits : Shape → Nat
  | twoRef => 13
  | ref => 20
  | bare => 27
  | refImm | imm => 0

end Shape

/-- Operations on a destination and a source. -/
inductive TwoRefOp where
  | mov
  | add
  | sub
  deriving DecidableEq, Repr

/-- Operations on a reference and a 20-bit immediate. -/
inductive RefImmOp where
  | jumpIfPositive
  | loadLow
  | loadHigh
  | addImm
  | subImm
  deriving DecidableEq, Repr

inductive RefOp where
  | push
  | jump
  | print
  | read
  | callIndirect
  deriving DecidableEq, Repr

/-- Operations on a 27-bit immediate. -/
inductive ImmOp where
  | call
  | beginFunction
  | printLiteral
  deriving DecidableEq, Repr

inductive BareOp where
  | pop
  | endFunction
  | halt
  deriving DecidableEq, Repr

/-- An operation, under the shape of its operands. -/
inductive Opcode where
  | twoRef (op : TwoRefOp)
  | refImm (op : RefImmOp)
  | ref (op : RefOp)
  | imm (op : ImmOp)
  | bare (op : BareOp)
  deriving DecidableEq, Repr

namespace Opcode

def shape : Opcode → Shape
  | twoRef _ => .twoRef
  | refImm _ => .refImm
  | ref _ => .ref
  | imm _ => .imm
  | bare _ => .bare

def mnemonic : Opcode → String
  | twoRef .mov => "MOV"
  | twoRef .add => "ADD"
  | twoRef .sub => "SUB"
  | bare .pop => "POP"
  | ref .push => "PUSH"
  | imm .call => "CALL"
  | imm .beginFunction => "FBEGIN"
  | bare .endFunction => "FEND"
  | bare .halt => "TERM"
  | ref .jump => "JUMP"
  | refImm .jumpIfPositive => "JUMP_IF_GZ"
  | ref .print => "PRINT"
  | ref .read => "READ"
  | imm .printLiteral => "PRINTSTR"
  | refImm .loadLow => "LOADL"
  | refImm .loadHigh => "LOADH"
  | refImm .addImm => "ADDI"
  | refImm .subImm => "SUBI"
  | ref .callIndirect => "INDIR_CALL"

/-- The five bits that name the operation in a word. -/
def code : Opcode → BitVec 5
  | twoRef .mov => 0
  | twoRef .add => 1
  | twoRef .sub => 2
  | bare .pop => 3
  | ref .push => 4
  | imm .call => 5
  | imm .beginFunction => 6
  | bare .endFunction => 7
  | bare .halt => 8
  | ref .jump => 9
  | refImm .jumpIfPositive => 10
  | ref .print => 11
  | ref .read => 12
  | imm .printLiteral => 13
  | refImm .loadLow => 14
  | refImm .loadHigh => 15
  | refImm .addImm => 16
  | refImm .subImm => 17
  | ref .callIndirect => 18

/-- Every operation, in the order of the codes. -/
def all : List Opcode :=
  [twoRef .mov, twoRef .add, twoRef .sub, bare .pop, ref .push, imm .call, imm .beginFunction,
    bare .endFunction, bare .halt, ref .jump, refImm .jumpIfPositive, ref .print, ref .read,
    imm .printLiteral, refImm .loadLow, refImm .loadHigh, refImm .addImm, refImm .subImm,
    ref .callIndirect]

/-- The operation with a given code. The codes from 19 on are free. -/
def ofCode? (n : Nat) : Option Opcode := all[n]?

/-- The operation with a given mnemonic, in exactly this spelling. -/
def ofMnemonic? (name : String) : Option Opcode := all.find? fun op => op.mnemonic = name

theorem ofCode?_code (op : Opcode) : ofCode? op.code.toNat = some op := by
  rcases op with op | op | op | op | op <;> cases op <;> rfl

theorem code_of_ofCode? {n : Nat} {op : Opcode} (h : ofCode? n = some op) : op.code.toNat = n := by
  have bound : n < 19 := by
    obtain ⟨within, _⟩ := List.getElem?_eq_some_iff.mp h
    exact within
  have each : ∀ i : Fin 19, ∀ op ∈ ofCode? i.val, op.code.toNat = i.val := by decide
  exact each ⟨n, bound⟩ op h

theorem ofMnemonic?_mnemonic (op : Opcode) : ofMnemonic? op.mnemonic = some op := by
  rcases op with op | op | op | op | op <;> cases op <;> decide

end Opcode
end StoredProgram
