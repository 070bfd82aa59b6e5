import StoredProgram.Image.Bytes
import StoredProgram.Proofs.Instruction.Codec

set_option autoImplicit false

namespace StoredProgram

namespace Word

theorem length_flatMap_toBytes (words : List Word) :
    (words.flatMap toBytes).length = 4 * words.length := by
  induction words with
  | nil => rfl
  | cons w words ih =>
      rw [List.flatMap_cons, List.length_append, ih, List.length_cons]
      change 4 + 4 * words.length = 4 * (words.length + 1)
      omega

/-- The number that bytes denote, from the least significant one on. -/
def littleEndian : List UInt8 → Nat
  | [] => 0
  | b :: bytes => b.toNat + 256 * littleEndian bytes

theorem toNat_ofBytes (b₀ b₁ b₂ b₃ : UInt8) :
    (ofBytes b₀ b₁ b₂ b₃).toNat = littleEndian [b₀, b₁, b₂, b₃] := by
  have low (high : Nat) (b : UInt8) : high <<< 8 ||| b.toBitVec.toNat = 256 * high + b.toNat := by
    rw [← Nat.shiftLeft_add_eq_or_of_lt b.toBitVec.isLt, Nat.shiftLeft_eq, Nat.mul_comm]
    rfl
  simp only [ofBytes, BitVec.toNat_append, low, littleEndian]
  rw [UInt8.toNat_toBitVec]
  omega

theorem littleEndian_toBytes (w : Word) : littleEndian w.toBytes = w.toNat := by
  rw [toBytes, ← toNat_ofBytes, ofBytes_byte]

section
open BitVec

theorem toBytes_ofBytes (b₀ b₁ b₂ b₃ : UInt8) : (ofBytes b₀ b₁ b₂ b₃).toBytes = [b₀, b₁, b₂, b₃] := by
  have zeroth : (ofBytes b₀ b₁ b₂ b₃).byte 0 = b₀ :=
    congrArg UInt8.ofBitVec extractLsb'_append_eq_right
  have first : (ofBytes b₀ b₁ b₂ b₃).byte 1 = b₁ :=
    congrArg UInt8.ofBitVec ((extractLsb'_append_eq_of_le (show 8 ≤ 8 by decide)).trans
      extractLsb'_append_eq_right)
  have second : (ofBytes b₀ b₁ b₂ b₃).byte 2 = b₂ :=
    congrArg UInt8.ofBitVec ((extractLsb'_append_eq_of_le (show 8 ≤ 16 by decide)).trans
      ((extractLsb'_append_eq_of_le (show 8 ≤ 8 by decide)).trans extractLsb'_append_eq_right))
  have third : (ofBytes b₀ b₁ b₂ b₃).byte 3 = b₃ :=
    congrArg UInt8.ofBitVec ((extractLsb'_append_eq_of_le (show 8 ≤ 24 by decide)).trans
      ((extractLsb'_append_eq_of_le (show 8 ≤ 16 by decide)).trans extractLsb'_append_eq_left))
  rw [toBytes, zeroth, first, second, third]

end

theorem flatMap_toBytes_groupFrom {done : List Word} {bytes : List UInt8}
    (whole : bytes.length % 4 = 0) :
    (groupFrom done bytes).flatMap toBytes = done.reverse.flatMap toBytes ++ bytes := by
  induction done, bytes using groupFrom.induct with
  | case1 done b₀ b₁ b₂ b₃ bytes ih =>
      simp only [List.length_cons] at whole
      rw [groupFrom, ih (by omega), List.reverse_cons, List.flatMap_append]
      simp [toBytes_ofBytes]
  | case2 bytes done short =>
      have none : bytes = [] := by
        rcases bytes with _ | ⟨b₀, _ | ⟨b₁, _ | ⟨b₂, _ | ⟨b₃, bytes⟩⟩⟩⟩
        · rfl
        · cases whole
        · cases whole
        · cases whole
        · exact absurd rfl (short b₀ b₁ b₂ b₃ bytes)
      rw [none] at short ⊢
      rw [groupFrom, List.append_nil]
      exact short

/-- No byte is lost or changed on the way through words, if the bytes are whole words. -/
theorem flatMap_toBytes_group {bytes : List UInt8} (whole : bytes.length % 4 = 0) :
    (group bytes).flatMap toBytes = bytes :=
  flatMap_toBytes_groupFrom whole

end Word

namespace Image

theorem ofWords_toWords {image : Image} (few : image.code.length < 4294967296) :
    ofWords image.toWords = .ok image := by
  have count : (BitVec.ofNat 32 image.code.length).toNat = image.code.length := by
    rw [BitVec.toNat_ofNat]
    omega
  have room : image.code.length ≤ (image.code ++ image.static).length := by
    rw [List.length_append]
    omega
  simp only [toWords, ofWords, count, room, if_true]
  rw [List.take_left, List.drop_left]

theorem ofBytes_toBytes {image : Image} (few : image.code.length < 4294967296) :
    ofBytes image.toBytes = .ok image := by
  have whole : image.toBytes.length % 4 = 0 := by
    rw [toBytes, Word.length_flatMap_toBytes]
    omega
  rw [ofBytes, if_pos whole, toBytes, Word.group_flatMap_toBytes, ofWords_toWords few]

theorem ofWords_cons_eq_error_iff {count : Word} {words : List Word} {e : ImageError} :
    ofWords (count :: words) = .error e ↔
      words.length < count.toNat ∧ e = .truncated count.toNat words.length := by
  rw [ofWords]
  split
  · rename_i room
    constructor
    · intro failed
      cases failed
    · exact fun few => absurd room (Nat.not_le.mpr few.1)
  · rename_i few
    constructor
    · exact fun failed => ⟨Nat.not_le.mp few, (Except.error.inj failed).symm⟩
    · rintro ⟨_, rfl⟩
      rfl

theorem toWords_of_ofWords {words : List Word} {image : Image} (success : ofWords words = .ok image) :
    image.toWords = words := by
  unfold ofWords at success
  split at success
  · cases success
  · rename_i count words
    split at success
    · rename_i room
      cases success
      rw [toWords, List.take_append_drop, List.length_take, Nat.min_eq_left room, BitVec.ofNat_toNat,
        BitVec.setWidth_eq]
    · cases success

theorem toBytes_of_ofBytes {bytes : List UInt8} {image : Image} (success : ofBytes bytes = .ok image) :
    image.toBytes = bytes := by
  unfold ofBytes at success
  split at success
  · rename_i whole
    rw [toBytes, toWords_of_ofWords success, Word.flatMap_toBytes_group whole]
  · cases success

theorem ofBytes_of_whole {bytes : List UInt8} (whole : bytes.length % 4 = 0) :
    ofBytes bytes = ofWords (Word.group bytes) :=
  if_pos whole

/-- The first four bytes declare the number of instructions, and every four bytes after them are a word
that is there. -/
theorem count_of_group {bytes : List UInt8} {count : Word} {words : List Word}
    (whole : bytes.length % 4 = 0) (grouped : Word.group bytes = count :: words) :
    bytes ≠ [] ∧ Word.littleEndian (bytes.take 4) = count.toNat ∧
      bytes.length / 4 - 1 = words.length := by
  have parts := Word.flatMap_toBytes_group whole
  rw [grouped, List.flatMap_cons] at parts
  have four : count.toBytes.length = 4 := rfl
  rw [← parts, List.take_left' four, Word.littleEndian_toBytes, List.length_append, four,
    Word.length_flatMap_toBytes]
  refine ⟨?_, rfl, by omega⟩
  intro none
  have length := congrArg List.length none
  rw [List.length_append, four, List.length_nil] at length
  omega

/-- Bytes are refused for their number, for having no count, or for a count of more words than follow. -/
theorem ofBytes_eq_error_iff {bytes : List UInt8} {e : ImageError} : ofBytes bytes = .error e ↔
    (bytes.length % 4 ≠ 0 ∧ e = .misaligned bytes.length) ∨ (bytes = [] ∧ e = .empty) ∨
      (bytes.length % 4 = 0 ∧ bytes ≠ [] ∧
        bytes.length / 4 - 1 < Word.littleEndian (bytes.take 4) ∧
        e = .truncated (Word.littleEndian (bytes.take 4)) (bytes.length / 4 - 1)) := by
  by_cases whole : bytes.length % 4 = 0
  · rw [ofBytes_of_whole whole]
    cases grouped : Word.group bytes with
    | nil =>
        have none : bytes = [] := by rw [← Word.flatMap_toBytes_group whole, grouped, List.flatMap_nil]
        simp [none, ofWords, eq_comm]
    | cons count words =>
        obtain ⟨some_bytes, declared, available⟩ := count_of_group whole grouped
        rw [ofWords_cons_eq_error_iff, declared, available]
        simp [whole, some_bytes]
  · have some_bytes : bytes ≠ [] := by
      rintro rfl
      exact whole rfl
    rw [ofBytes, if_neg whole]
    simp [whole, some_bytes, eq_comm]

/-- Images and image files match one to one. An image whose count of instructions fits in a word is read
back from its file; a file that is read is the file of the image that it gives; and a file is refused if
its bytes are not whole words, or else if there are none, or else if the count at its start is larger than
the number of words behind it. -/
theorem file_round_trip :
    (∀ image : Image, image.code.length < 4294967296 → ofBytes image.toBytes = .ok image) ∧
    (∀ (bytes : List UInt8) (image : Image), ofBytes bytes = .ok image → image.toBytes = bytes) ∧
    ∀ (bytes : List UInt8) (e : ImageError), ofBytes bytes = .error e ↔
      (bytes.length % 4 ≠ 0 ∧ e = .misaligned bytes.length) ∨ (bytes = [] ∧ e = .empty) ∨
        (bytes.length % 4 = 0 ∧ bytes ≠ [] ∧
          bytes.length / 4 - 1 < Word.littleEndian (bytes.take 4) ∧
          e = .truncated (Word.littleEndian (bytes.take 4)) (bytes.length / 4 - 1)) :=
  ⟨fun _ few => ofBytes_toBytes few, fun _ _ success => toBytes_of_ofBytes success,
    fun _ _ => ofBytes_eq_error_iff⟩

/-- An instruction and a word of static data, and a count of one word too many. -/
theorem file_round_trip_of_one_instruction :
    let image : Image := ⟨[1073741824], [7]⟩
    let bytes : List UInt8 := [1, 0, 0, 0, 0, 0, 0, 64, 7, 0, 0, 0]
    image.code.length < 4294967296 ∧ ofBytes image.toBytes = .ok image ∧
      ofBytes bytes = .ok image ∧ image.toBytes = bytes ∧
      ofBytes (3 :: bytes.tail) = .error (.truncated 3 2) := by
  intro image bytes
  have few : image.code.length < 4294967296 := by decide
  have found : ofBytes bytes = .ok image := eq_ok_of_toOption (by decide)
  obtain ⟨written, read, refused⟩ := file_round_trip
  exact ⟨few, written image few, found, read bytes image found,
    (refused _ _).mpr (Or.inr (Or.inr (by decide)))⟩

end Image
end StoredProgram
