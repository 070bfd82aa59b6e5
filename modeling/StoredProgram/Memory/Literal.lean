import StoredProgram.Memory

set_option autoImplicit false

namespace StoredProgram.Memory

def char (m : Memory) (address : Word) : Except Fault Char := do
  match (← m.read address).char with
  | .ok c => return c
  | .error e => throw (.literal e)

/-- The characters in the cells from `address` on, behind those that were read before, in reverse. -/
def charsFrom (m : Memory) (done : List Char) (address : Word) :
    Nat → Except Fault (List Char)
  | 0 => .ok done.reverse
  | count + 1 =>
    match m.char address with
    | .ok c => m.charsFrom (c :: done) (address + 1) count
    | .error fault => .error fault

/-- Literal `index` of the pool that starts at `base`. Counts, offsets and lengths are read as signed
words, and a negative length is that of an empty literal. -/
def literal (m : Memory) (base index : Word) : Except Fault String := do
  let count ← m.read base
  if count.toInt ≤ index.toNat then throw (.literal (.outOfRange index))
  let offset ← m.read (base + index)
  if offset.toInt < count.toInt then throw (.literal (.outOfRange index))
  let start := base + offset
  let length ← m.read start
  let chars ← m.charsFrom [] (start + 1) length.toInt.toNat
  return String.ofList chars

end StoredProgram.Memory
