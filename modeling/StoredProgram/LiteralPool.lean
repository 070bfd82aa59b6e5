import StoredProgram.Word

set_option autoImplicit false

namespace StoredProgram

/-- The literals met so far. Equal literals are kept apart. -/
structure LiteralPool where
  literals : Array String := #[]
  deriving DecidableEq, Repr

inductive LiteralError where
  /-- The words have no literal of this number, or break off within it. -/
  | outOfRange (index : Word)
  /-- The word where a character should be is not a Unicode scalar value. -/
  | invalidCodePoint (value : Word)
  deriving DecidableEq, Repr

def LiteralError.message : LiteralError → String
  | outOfRange index => "string " ++ index.unsignedText ++ " is outside of the string pool"
  | invalidCodePoint value => value.signedText ++ " is not a valid code point"

/-- The character that a word stands for, if it is a Unicode scalar value. -/
def Word.char (w : Word) : Except LiteralError Char :=
  if w.toNat.isValidChar then .ok (Char.ofNat w.toNat) else .error (.invalidCodePoint w)

namespace LiteralPool

def empty : LiteralPool := {}

def size (pool : LiteralPool) : Nat := pool.literals.size

def nextIndex (pool : LiteralPool) : Word := BitVec.ofNat 32 pool.size

def push (pool : LiteralPool) (literal : String) : LiteralPool := ⟨pool.literals.push literal⟩

/-- A literal as words: its length, then its code points. -/
def block (literal : String) : List Word :=
  BitVec.ofNat 32 literal.length :: literal.toList.map fun c => BitVec.ofNat 32 c.toNat

/-- Where each of the blocks starts, if the first one starts at `start`. -/
def offsets (start : Nat) : List (List Word) → List Word
  | [] => []
  | block :: blocks => BitVec.ofNat 32 start :: offsets (start + block.length) blocks

/-- The pool as words: the offset of each literal, and then the literals. Offsets count from the start of
the pool, so `"abc"` and `"d"` become `[2, 6, 3, 'a', 'b', 'c', 1, 'd']`. -/
def pack (pool : LiteralPool) : List Word :=
  let blocks := pool.literals.toList.map block
  offsets blocks.length blocks ++ blocks.flatten

/-- Reads literal `index` out of packed words. The first offset points just past the offsets, so it is
also their number, and an offset below it would point back among them. -/
def lookup (packed : List Word) (index : Word) : Except LiteralError String := do
  let some count := packed[0]? | throw (.outOfRange index)
  if count ≤ index then throw (.outOfRange index)
  let some offset := packed[index.toNat]? | throw (.outOfRange index)
  if offset < count then throw (.outOfRange index)
  let some length := packed[offset.toNat]? | throw (.outOfRange index)
  let start := offset.toNat + 1
  if packed.length < start + length.toNat then throw (.outOfRange index)
  let chars ← ((packed.drop start).take length.toNat).mapM Word.char
  return String.ofList chars

end LiteralPool
end StoredProgram
