import StoredProgram.Proofs.Assembly.Program
import StoredProgram.Proofs.Listing

set_option autoImplicit false

namespace StoredProgram

namespace Word

variable {pool : List Word} {w : Word} {s : Statement}

/-- The number of the literal that a word prints, if it prints one. -/
def literalIndex? (w : Word) : Option Word :=
  match Instruction.decode w with
  | .ok (.imm .printLiteral index) => some index
  | _ => none

/-- The literal that a word prints, if the pool has it. -/
def literal? (pool : List Word) (w : Word) : Option String :=
  w.literalIndex?.bind fun index => (LiteralPool.lookup pool index).toOption

theorem literalIndex?_of_ordinary {i : Instruction} (decoded : Instruction.decode w = .ok i)
    (ordinary : i.opcode ≠ .imm .printLiteral) : w.literalIndex? = none := by
  unfold literalIndex?
  rw [decoded]
  split
  · rename_i same
    cases same
    exact absurd rfl ordinary
  · rfl

theorem literalIndex?_encode {index : Word} (small : index.toNat < 134217728) :
    (Instruction.imm .printLiteral index).encode.literalIndex? = some index := by
  have decoded := Instruction.decode_encode_of_fits (i := .imm .printLiteral index) small
  simp only [literalIndex?, decoded]

/-- A statement has the literal of the word that it comes from. -/
theorem literals_of_statement (said : w.statement pool = .ok s) :
    s.literals = (w.literal? pool).toList ∧ (w.literal? pool).isSome = w.literalIndex?.isSome := by
  rcases cases_of_statement said with ⟨index, literal, decoded, found, rfl⟩ | ⟨i, decoded, ordinary, rfl⟩
  · have number : w.literalIndex? = some index := by simp only [literalIndex?, decoded]
    rw [literal?, number, Option.bind_some, found]
    exact ⟨rfl, rfl⟩
  · rw [literal?, literalIndex?_of_ordinary decoded ordinary]
    exact ⟨rfl, rfl⟩

/-- A word that prints no literal is the word of its statement again. -/
theorem word_of_silent (said : w.statement pool = .ok s) (silent : w.literalIndex? = none) (k : Nat) :
    s.word k = w := by
  rcases cases_of_statement said with ⟨index, literal, decoded, found, rfl⟩ | ⟨i, decoded, ordinary, rfl⟩
  · simp only [literalIndex?, decoded] at silent
    cases silent
  · exact Instruction.encode_of_decode decoded

/-- A word that prints a literal gets a new number. -/
theorem literalIndex?_of_printing (said : w.statement pool = .ok s) (prints : w.literalIndex?.isSome)
    {k : Nat} (few : k < Statement.maxLiterals) :
    (s.word k).literalIndex? = some (BitVec.ofNat 32 k) := by
  rcases cases_of_statement said with ⟨index, literal, decoded, found, rfl⟩ | ⟨i, decoded, ordinary, rfl⟩
  · apply literalIndex?_encode
    simp only [Statement.maxLiterals] at few
    rw [BitVec.toNat_ofNat]
    omega
  · rw [literalIndex?_of_ordinary decoded ordinary] at prints
    cases prints

theorem wellFormed_of_statement (said : w.statement pool = .ok s)
    (plain : ∀ literal ∈ s.literals, Lines.IsLine literal)
    (closed : ∀ literal ∈ s.literals, ∀ c ∈ literal.toList.getLast?, Blank.isBlank c = false) :
    s.WellFormed := by
  rcases cases_of_statement said with ⟨index, literal, decoded, found, rfl⟩ | ⟨i, decoded, ordinary, rfl⟩
  · exact ⟨plain literal (List.mem_singleton.mpr rfl), closed literal (List.mem_singleton.mpr rfl)⟩
  · exact ⟨Instruction.fits_of_decode decoded, ordinary⟩

end Word

theorem countP_take_lt {α : Type} {p : α → Bool} {xs : List α} {k : Nat} {x : α}
    (listed : xs[k]? = some x) (counts : p x = true) : (xs.take k).countP p < xs.countP p := by
  have next : (xs.take (k + 1)).countP p = (xs.take k).countP p + 1 := by
    rw [List.take_add_one, listed, List.countP_append]
    simp [counts]
  have part := (List.take_sublist (k + 1) xs).countP_le (p := p)
  omega

section
variable {pool code : List Word} {statements : List Statement}
  (said : List.Forall₂ (fun w s => Word.statement pool w = .ok s) code statements)
include said

theorem literals_of_statements :
    statements.flatMap Statement.literals = code.filterMap (Word.literal? pool) := by
  induction said with
  | nil => rfl
  | cons first _ ih =>
      rw [List.flatMap_cons, ih, (Word.literals_of_statement first).1, List.filterMap_cons]
      cases Word.literal? pool _ <;> rfl

theorem length_literals_of_statements :
    (statements.flatMap Statement.literals).length = code.countP (·.literalIndex?.isSome) := by
  induction said with
  | nil => rfl
  | cons first _ ih =>
      obtain ⟨same, present⟩ := Word.literals_of_statement first
      rw [List.flatMap_cons, List.length_append, ih, same, List.countP_cons, ← present]
      cases Word.literal? pool _ <;> simp [Nat.add_comm]

theorem wellFormed_of_statements
    (plain : ∀ literal ∈ code.filterMap (Word.literal? pool), Lines.IsLine literal)
    (closed : ∀ literal ∈ code.filterMap (Word.literal? pool),
      ∀ c ∈ literal.toList.getLast?, Blank.isBlank c = false) :
    ∀ s ∈ statements, s.WellFormed := by
  rw [← literals_of_statements said] at plain closed
  intro s member
  obtain ⟨k, listed⟩ := List.mem_iff_getElem?.mp member
  obtain ⟨w, _, own⟩ := exists_getElem?_of_forall₂ said.flip listed
  have part (literal : String) (inside : literal ∈ s.literals) :
      literal ∈ statements.flatMap Statement.literals :=
    List.mem_flatMap.mpr ⟨s, member, inside⟩
  exact Word.wellFormed_of_statement own (fun literal inside => plain literal (part literal inside))
    fun literal inside => closed literal (part literal inside)

/-- A word is renumbered by the words in front of it that print literals. -/
theorem getElem?_words_of_statements {j : Nat} {w : Word} (listed : code[j]? = some w) :
    ∃ s, w.statement pool = .ok s ∧
      (Statement.words 0 statements)[j]? =
        some (s.word ((code.take j).countP (·.literalIndex?.isSome))) := by
  obtain ⟨s, found, own⟩ := exists_getElem?_of_forall₂ said listed
  refine ⟨s, own, ?_⟩
  rw [Statement.getElem?_words, found, length_literals_of_statements (List.forall₂_take j said),
    Nat.zero_add]
  rfl

end

namespace Image

/-- The literals that the instructions of an image print, in the order of the instructions. -/
def literals (image : Image) : List String := image.code.filterMap (Word.literal? image.static)

/-- The listing of an image, whoever made the image, is assembled to as many instructions, as long as its
literals can stand in a source text. Words that print no literal stay as they are, those that print one
are numbered in their order, and the static data holds just the literals that are printed. An image has no
listing exactly if one of its words does not decode or has no literal in the pool, and then the first such
word is to blame. -/
theorem assemble_listing_of_any (image : Image) :
    (∀ text, image.listing = .ok text →
      image.code.countP (·.literalIndex?.isSome) ≤ 134217728 →
      (∀ literal ∈ image.literals, Lines.IsLine literal) →
      (∀ literal ∈ image.literals, ∀ c ∈ literal.toList.getLast?, Blank.isBlank c = false) →
      ∃ again, assemble text = .ok again ∧ again.code.length = image.code.length ∧
        (∀ (j : Nat) (w : Word), image.code[j]? = some w → w.literalIndex? = none →
          again.code[j]? = some w) ∧
        (∀ (j : Nat) (w : Word), image.code[j]? = some w → w.literalIndex?.isSome →
          ∃ w', again.code[j]? = some w' ∧ w'.literalIndex? =
            some (BitVec.ofNat 32 ((image.code.take j).countP (·.literalIndex?.isSome)))) ∧
        again.static = LiteralPool.pack ⟨image.literals.toArray⟩) ∧
    ((∃ e, image.listing = .error e) ↔ ∃ w ∈ image.code, ∃ e, w.Fails image.static e) ∧
    ∀ e, image.listing = .error e ↔
      ∃ front w back, image.code = front ++ w :: back ∧
        (∀ other ∈ front, ∀ e, ¬ other.Fails image.static e) ∧ w.Fails image.static e := by
  refine ⟨?_, exists_listing_error_iff, fun e => listing_eq_error_iff⟩
  intro text success few plain closed
  obtain ⟨statements, said, rfl⟩ := statements_of_listing success
  have assembled := assemble_texts (wellFormed_of_statements said plain closed)
    (by rwa [length_literals_of_statements said])
  refine ⟨_, assembled, ?_, ?_, ?_, ?_⟩
  · rw [ofStatements, Statement.length_words, said.length_eq]
  · intro j w listed silent
    obtain ⟨s, own, found⟩ := getElem?_words_of_statements said listed
    rw [Word.word_of_silent own silent] at found
    exact found
  · intro j w listed prints
    obtain ⟨s, own, found⟩ := getElem?_words_of_statements said listed
    have earlier : (image.code.take j).countP (·.literalIndex?.isSome) < Statement.maxLiterals :=
      Nat.lt_of_lt_of_le (countP_take_lt listed prints) few
    exact ⟨_, found, Word.literalIndex?_of_printing own prints earlier⟩
  · rw [ofStatements, literals_of_statements said]
    rfl

/-- Indexes out of order and repeated, two literals that share words, and a word that no literal uses. -/
theorem assemble_listing_of_any_with_shared_words :
    let image : Image :=
      ⟨[0x68000001, 0, 0x68000000, 0x68000001, 0x40000000], [2, 3, 2, 1, 97, 9]⟩
    let text := "PRINTSTR a\nMOV ip ip\nPRINTSTR \u0001a\nPRINTSTR a\nTERM\n"
    image.literals = ["a", "\u0001a", "a"] ∧ image.listing = .ok text ∧
      assemble text = .ok
        ⟨[0x68000000, 0, 0x68000001, 0x68000002, 0x40000000], [3, 5, 8, 1, 97, 2, 1, 97, 1, 97]⟩ := by
  intro image text
  have literals : image.literals = ["a", "\u0001a", "a"] := by decide +kernel
  have listed : image.listing = .ok text := eq_ok_of_toOption (by decide +kernel)
  obtain ⟨again, assembled, _, _, _, packed⟩ :=
    (assemble_listing_of_any image).1 _ listed (by decide +kernel) (by rw [literals]; decide)
      (by rw [literals]; decide)
  have code : (assemble text).toOption.map (·.code) =
      some [0x68000000, 0, 0x68000001, 0x68000002, 0x40000000] := by decide +kernel
  rw [assembled] at code
  rw [literals] at packed
  refine ⟨literals, listed, assembled.trans (congrArg Except.ok ?_)⟩
  cases again
  refine congrArg₂ Image.mk (Option.some.inj code) (packed.trans ?_)
  decide +kernel

end Image
end StoredProgram
