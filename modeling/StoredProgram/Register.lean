import StoredProgram.Text.Decimal

set_option autoImplicit false

namespace StoredProgram

/-- A register by its number, which is also the address of its cell. -/
abbrev Register := Fin 16

namespace Register

/-- The size of the register file, and so the address of the first instruction. -/
def count : Nat := 16

/-- The instruction pointer. -/
def ip : Register := 0

/-- The stack pointer. -/
def sp : Register := 1

/-- The register for return values. -/
def rv : Register := 2

/-- The name of cell `index` seen as a register: three names of their own, then `r1`, `r2`, and so on. -/
def nameAt : Nat → String
  | 0 => "ip"
  | 1 => "sp"
  | 2 => "rv"
  | k + 3 => "r" ++ Nat.repr (k + 1)

def name (r : Register) : String := nameAt r.val

/-- The general register `r` followed by the numeral `digits`, which runs from 1 to 13. -/
def general? (digits : List Char) : Option Register :=
  match Decimal.natural? digits with
  | some k => if h : 1 ≤ k ∧ k ≤ 13 then some ⟨k + 2, by omega⟩ else none
  | none => none

/-- The register that a name denotes. The numeral of a general register may have leading zeros. -/
def ofName? (name : String) : Option Register :=
  match name.toList with
  | ['i', 'p'] => some ip
  | ['s', 'p'] => some sp
  | ['r', 'v'] => some rv
  | 'r' :: digits => general? digits
  | _ => none

theorem ofName?_name (r : Register) : ofName? r.name = some r := by
  revert r
  decide

end Register

/-- A register operand: the register, and how often its contents are followed as an address. At level
zero the operand is the register's own number. -/
structure Reference where
  level : Fin 8
  register : Register
  deriving DecidableEq, Repr

namespace Reference

def direct (r : Register) : Reference := ⟨0, r⟩

/-- One star for each level, then the register's name. -/
def text (r : Reference) : String :=
  String.ofList (List.replicate r.level.val '*') ++ r.register.name

end Reference
end StoredProgram
