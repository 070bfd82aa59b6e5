import StoredProgram.Image

set_option autoImplicit false

namespace StoredProgram

namespace Word

/-- Byte `i` of a word, where byte 0 is the least significant one. -/
def byte (w : Word) (i : Nat) : UInt8 := ⟨w.extractLsb' (8 * i) 8⟩

/-- The four bytes of a word, the least significant one first. -/
def toBytes (w : Word) : List UInt8 := [w.byte 0, w.byte 1, w.byte 2, w.byte 3]

/-- The word with the given bytes, from the least significant one on. -/
def ofBytes (b₀ b₁ b₂ b₃ : UInt8) : Word :=
  b₃.toBitVec ++ b₂.toBitVec ++ b₁.toBitVec ++ b₀.toBitVec

/-- Groups bytes into words, given the words found so far in reverse. Fewer than four bytes at the end
are left out. -/
def groupFrom (done : List Word) : List UInt8 → List Word
  | b₀ :: b₁ :: b₂ :: b₃ :: bytes => groupFrom (ofBytes b₀ b₁ b₂ b₃ :: done) bytes
  | _ => done.reverse

/-- The words that bytes make up, four bytes each. -/
def group (bytes : List UInt8) : List Word := groupFrom [] bytes

theorem ofBytes_byte (w : Word) : ofBytes (w.byte 0) (w.byte 1) (w.byte 2) (w.byte 3) = w := by
  apply BitVec.eq_of_getLsbD_eq
  intro i within
  simp only [ofBytes, byte, BitVec.getLsbD_append, BitVec.getLsbD_extractLsb']
  by_cases h₀ : i < 8
  · simp [h₀]
  by_cases h₁ : i < 16
  · simp [h₀, show i - 8 < 8 by omega, show 8 + (i - 8) = i by omega]
  by_cases h₂ : i < 24
  · simp [h₀, show ¬i - 8 < 8 by omega, show i - 8 - 8 < 8 by omega,
      show 16 + (i - 8 - 8) = i by omega]
  · simp [h₀, show ¬i - 8 < 8 by omega, show ¬i - 8 - 8 < 8 by omega,
      show i - 8 - 8 - 8 < 8 by omega, show 24 + (i - 8 - 8 - 8) = i by omega]

theorem groupFrom_flatMap_toBytes (done words : List Word) :
    groupFrom done (words.flatMap toBytes) = done.reverse ++ words := by
  induction words generalizing done with
  | nil => simp [groupFrom]
  | cons w words ih =>
    rw [List.flatMap_cons]
    simp only [toBytes, List.cons_append, List.nil_append, groupFrom, ofBytes_byte]
    rw [ih]
    simp

/-- No word is lost or changed on the way through bytes. -/
theorem group_flatMap_toBytes (words : List Word) : group (words.flatMap toBytes) = words := by
  simp [group, groupFrom_flatMap_toBytes]

end Word

namespace Image

def toBytes (image : Image) : List UInt8 := image.toWords.flatMap Word.toBytes

/-- Reads an image file. Its length is looked at before its contents. -/
def ofBytes (bytes : List UInt8) : Except ImageError Image :=
  if bytes.length % 4 = 0 then ofWords (Word.group bytes) else .error (.misaligned bytes.length)

end Image
end StoredProgram
