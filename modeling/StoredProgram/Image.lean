import StoredProgram.Word

set_option autoImplicit false

namespace StoredProgram

/-- A program: its instructions and its static data. -/
structure Image where
  /-- Encoded instructions. -/
  code : List Word
  /-- The packed literal pool, in an image that the assembler made. -/
  static : List Word
  deriving DecidableEq, Repr

inductive ImageError where
  /-- There is no count of instructions. -/
  | empty
  /-- So many bytes do not make up whole words. -/
  | misaligned (bytes : Nat)
  /-- The count of instructions is larger than the number of words that follow it. -/
  | truncated (declared available : Nat)
  deriving DecidableEq, Repr

def ImageError.message : ImageError → String
  | empty => "image file is empty"
  | misaligned bytes =>
    "image length of " ++ Nat.repr bytes ++ " bytes is not a multiple of the word size"
  | truncated declared available =>
    "image declares " ++ Nat.repr declared ++ " instructions but only holds " ++
      Nat.repr available ++ " words"

namespace Image

/-- The number of words that the image takes in memory. -/
def loadedSize (image : Image) : Nat := image.code.length + image.static.length

/-- The count of instructions, the instructions, and the static data. -/
def toWords (image : Image) : List Word :=
  BitVec.ofNat 32 image.code.length :: (image.code ++ image.static)

/-- Splits words after as many instructions as the first word says. -/
def ofWords : List Word → Except ImageError Image
  | [] => .error .empty
  | count :: words =>
    if count.toNat ≤ words.length then
      .ok ⟨words.take count.toNat, words.drop count.toNat⟩
    else .error (.truncated count.toNat words.length)

end Image
end StoredProgram
