import StoredProgram.Proofs.Assembly.Program
import StoredProgram.Proofs.Listing
import StoredProgram.Proofs.LiteralPool

set_option autoImplicit false

namespace StoredProgram

namespace Statement

/-- The word of a statement is listed as the text of the statement. -/
theorem listing_word {packed : List Word} {index : Nat} {s : Statement} (valid : s.WellFormed)
    (few : index + s.literals.length ≤ maxLiterals)
    (found : ∀ literal ∈ s.literals,
      LiteralPool.lookup packed (BitVec.ofNat 32 index) = .ok literal) :
    Word.listing packed (s.word index) = .ok s.text := by
  cases s with
  | instruction i =>
      simp only [Word.listing, word, Instruction.decode_encode_of_fits valid.1,
        Instruction.listing_of_ordinary packed valid.2, text]
  | printLiteral literal =>
      have fits : (Instruction.imm .printLiteral (BitVec.ofNat 32 index)).Fits := by
        simp only [literals, List.length_singleton, maxLiterals] at few
        simp only [Instruction.Fits, BitVec.toNat_ofNat]
        omega
      have read := found literal (by simp [literals])
      simp only [Word.listing, word, Instruction.decode_encode_of_fits fits, Instruction.listing, read]
      rfl

theorem listing_words {packed : List Word} {index : Nat} {statements : List Statement}
    (valid : ∀ s ∈ statements, s.WellFormed)
    (few : index + (statements.flatMap literals).length ≤ maxLiterals)
    (found : ∀ k literal, (statements.flatMap literals)[k]? = some literal →
      LiteralPool.lookup packed (BitVec.ofNat 32 (index + k)) = .ok literal) :
    (words index statements).mapM (Word.listing packed) = .ok (statements.map text) := by
  induction statements generalizing index with
  | nil => rfl
  | cons s statements ih =>
      rw [List.flatMap_cons, List.length_append] at few
      have head : Word.listing packed (s.word index) = .ok s.text := by
        apply listing_word (valid s (by simp)) (by omega)
        intro literal member
        apply found 0 literal
        cases s with
        | instruction i => cases member
        | printLiteral other =>
            rw [List.mem_singleton.mp member]
            rfl
      have tail : (words (index + s.literals.length) statements).mapM (Word.listing packed) =
          .ok (statements.map text) := by
        apply ih
        · intro other member
          exact valid other (List.mem_cons_of_mem s member)
        · omega
        · intro k literal listed
          rw [Nat.add_assoc]
          apply found
          rw [List.flatMap_cons, List.getElem?_append_right (by omega), Nat.add_sub_cancel_left, listed]
      rw [words, List.mapM_cons, head, tail]
      rfl

end Statement

theorem Image.listing_ofStatements {statements : List Statement}
    (valid : ∀ s ∈ statements, s.WellFormed)
    (few : (statements.flatMap Statement.literals).length ≤ Statement.maxLiterals)
    (short : (Image.ofStatements statements).static.length < 4294967296) :
    (Image.ofStatements statements).listing = .ok (Lines.join (statements.map Statement.text)) := by
  have lines : (Image.ofStatements statements).code.mapM
      (Word.listing (Image.ofStatements statements).static) = .ok (statements.map Statement.text) := by
    apply Statement.listing_words valid (by omega)
    intro k literal listed
    rw [Nat.zero_add]
    exact LiteralPool.lookup_pack short listed
  rw [Image.listing, lines]
  rfl

/-- An image that was assembled has a listing, the listing is assembled to an image with the same code
and the same static data, and that image has the same listing again. -/
theorem assemble_listing {text : String} {image : Image} (success : assemble text = .ok image)
    (short : image.static.length < 4294967296) :
    ∃ listing again, image.listing = .ok listing ∧ assemble listing = .ok again ∧
      again.code = image.code ∧ again.static = image.static ∧ again.listing = .ok listing := by
  obtain ⟨statements, valid, few, rfl⟩ := statements_of_assemble success
  have listed := Image.listing_ofStatements valid few short
  exact ⟨_, _, listed, assemble_texts valid few, rfl, rfl, listed⟩

/-- Blanks of all kinds, leading zeros, an empty literal, and one that starts with a blank and a hash and
has a carriage return inside. -/
theorem assemble_listing_of_blanks :
    let text := " # two literals\n\tLOADL  **r02 007\r\nPRINTSTR\nPRINTSTR\u2003 #a\rb \nTERM"
    let image : Image :=
      ⟨[0x72400007, 0x68000000, 0x68000001, 0x40000000], [2, 3, 0, 5, 32, 35, 97, 13, 98]⟩
    let listing := "LOADL **r2 7\nPRINTSTR \nPRINTSTR  #a\rb\nTERM\n"
    assemble text = .ok image ∧ image.static.length < 4294967296 ∧ image.listing = .ok listing ∧
      assemble listing = .ok image := by
  intro text image listing
  have assembled : assemble text = .ok image := eq_ok_of_toOption (by decide +kernel)
  have short : image.static.length < 4294967296 := by decide
  have listed : image.listing = .ok listing := eq_ok_of_toOption (by decide +kernel)
  obtain ⟨other, again, same, reassembled, code, static, _⟩ := assemble_listing assembled short
  obtain rfl : listing = other := Except.ok.inj (listed.symm.trans same)
  obtain rfl : again = image := by
    cases again
    exact congrArg₂ Image.mk code static
  exact ⟨assembled, short, listed, reassembled⟩

end StoredProgram
