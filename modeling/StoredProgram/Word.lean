set_option autoImplicit false

namespace StoredProgram

/-- One cell of memory. Its bits are an unsigned number where they stand for an instruction, a count or a
code point, and are read in two's complement where they stand for data or an address. -/
abbrev Word := BitVec 32

namespace Word

/-- The numbers below this one are the same in both readings. -/
def signedLimit : Nat := 2147483648

/-- All 32 binary digits, the most significant one first. -/
def binary (w : Word) : String :=
  String.ofList ((List.range 32).map fun i => if w.getMsbD i then '1' else '0')

def unsignedText (w : Word) : String := Nat.repr w.toNat

def signedText (w : Word) : String := Int.repr w.toInt

end Word
end StoredProgram
