import Mathlib.Data.List.Forall2
import StoredProgram.Listing
import StoredProgram.Proofs.Assembly.Statement

set_option autoImplicit false

namespace StoredProgram

section
variable {ε α β γ : Type} {f : α → Except ε β} {xs : List α}

/-- A walk along a list stops at the first element that fails. -/
theorem mapM_of_first_error {front back : List α} {x : α} {e : ε}
    (passed : ∀ y ∈ front, ∃ b, f y = .ok b) (failed : f x = .error e) :
    (front ++ x :: back).mapM f = .error e := by
  induction front with
  | nil =>
      rw [List.nil_append, List.mapM_cons, failed]
      rfl
  | cons y front ih =>
      obtain ⟨b, success⟩ := passed y (by simp)
      rw [List.cons_append, List.mapM_cons, success,
        ih fun z member => passed z (List.mem_cons_of_mem y member)]
      rfl

theorem exists_first_error {e : ε} (failed : xs.mapM f = .error e) :
    ∃ front x back, xs = front ++ x :: back ∧ (∀ y ∈ front, ∃ b, f y = .ok b) ∧ f x = .error e := by
  induction xs with
  | nil => cases failed
  | cons x xs ih =>
      rw [List.mapM_cons] at failed
      cases first : f x with
      | error e' =>
          rw [first] at failed
          cases failed
          exact ⟨[], x, xs, rfl, by simp, first⟩
      | ok b =>
          have rest : xs.mapM f = .error e := by
            rw [first] at failed
            cases walked : xs.mapM f <;> rw [walked] at failed <;> cases failed
            rfl
          obtain ⟨front, y, back, rfl, passed, stopped⟩ := ih rest
          refine ⟨x :: front, y, back, rfl, ?_, stopped⟩
          intro z member
          rcases List.mem_cons.mp member with rfl | member
          · exact ⟨b, first⟩
          · exact passed z member

theorem forall₂_of_mapM {ys : List β} (success : xs.mapM f = .ok ys) :
    List.Forall₂ (fun x y => f x = .ok y) xs ys := by
  induction xs generalizing ys with
  | nil =>
      cases success
      exact .nil
  | cons x xs ih =>
      rw [List.mapM_cons] at success
      obtain ⟨y, first, rest⟩ := exists_of_bind_eq_ok success
      obtain ⟨ys, others, built⟩ := exists_of_bind_eq_ok rest
      cases built
      exact .cons first (ih others)

theorem exists_getElem?_of_forall₂ {R : α → β → Prop} {ys : List β} (related : List.Forall₂ R xs ys)
    {k : Nat} {x : α} (listed : xs[k]? = some x) : ∃ y, ys[k]? = some y ∧ R x y := by
  induction related generalizing k with
  | nil => cases listed
  | cons first _ ih =>
      cases k with
      | zero =>
          cases listed
          exact ⟨_, rfl, first⟩
      | succ k => exact ih listed

theorem mapM_map (g : β → γ) (xs : List α) :
    xs.mapM (fun x => (f x).map g) = (xs.mapM f).map (List.map g) := by
  induction xs with
  | nil => rfl
  | cons x xs ih =>
      rw [List.mapM_cons, List.mapM_cons, ih]
      cases f x with
      | error e => rfl
      | ok y => cases xs.mapM f <;> rfl

end

theorem Instruction.listing_of_ordinary {i : Instruction} (packed : List Word)
    (ordinary : i.opcode ≠ .imm .printLiteral) : i.listing packed = .ok i.text := by
  unfold listing
  split
  · exact absurd rfl ordinary
  · rfl

namespace Word

variable {pool : List Word} {w : Word}

/-- What a word says: to print the literal that it points to, or an instruction as it is. -/
def statement (pool : List Word) (w : Word) : Except ListingError Statement :=
  match Instruction.decode w with
  | .error e => .error (.word e)
  | .ok (.imm .printLiteral index) =>
    match LiteralPool.lookup pool index with
    | .error e => .error (.literal e)
    | .ok literal => .ok (.printLiteral literal)
  | .ok i => .ok (.instruction i)

/-- A word fails if it does not decode, or if it prints a literal that is not in the pool. -/
inductive Fails (pool : List Word) (w : Word) : ListingError → Prop where
  | word {e : DecodeError} (undecoded : Instruction.decode w = .error e) : Fails pool w (.word e)
  | literal {index : Word} {e : LiteralError}
      (decoded : Instruction.decode w = .ok (.imm .printLiteral index))
      (missing : LiteralPool.lookup pool index = .error e) : Fails pool w (.literal e)

/-- A word fails, or prints a literal, or is some other instruction. -/
theorem statement_cases (pool : List Word) (w : Word) :
    (∃ e, w.Fails pool e ∧ w.statement pool = .error e) ∨
      (∃ index literal, Instruction.decode w = .ok (.imm .printLiteral index) ∧
        LiteralPool.lookup pool index = .ok literal ∧
        w.statement pool = .ok (.printLiteral literal)) ∨
      ∃ i, Instruction.decode w = .ok i ∧ i.opcode ≠ .imm .printLiteral ∧
        w.statement pool = .ok (.instruction i) := by
  cases decoded : Instruction.decode w with
  | error e => exact Or.inl ⟨.word e, .word decoded, by simp only [statement, decoded]⟩
  | ok i =>
      by_cases prints : i.opcode = .imm .printLiteral
      · obtain ⟨index, rfl⟩ : ∃ index, i = .imm .printLiteral index := by
          cases i <;> cases prints
          exact ⟨_, rfl⟩
        cases found : LiteralPool.lookup pool index with
        | error e =>
            exact Or.inl ⟨.literal e, .literal decoded found, by simp only [statement, decoded, found]⟩
        | ok literal =>
            refine Or.inr (Or.inl ⟨index, literal, rfl, found, ?_⟩)
            simp only [statement, decoded, found]
      · refine Or.inr (Or.inr ⟨i, rfl, prints, ?_⟩)
        unfold statement
        rw [decoded]
        split
        · rename_i failed
          cases failed
        · rename_i same
          cases same
          exact absurd rfl prints
        · rename_i same
          cases same
          rfl

/-- A word that does not fail prints a literal, or is some other instruction. -/
theorem cases_of_statement {s : Statement} (said : w.statement pool = .ok s) :
    (∃ index literal, Instruction.decode w = .ok (.imm .printLiteral index) ∧
        LiteralPool.lookup pool index = .ok literal ∧ s = .printLiteral literal) ∨
      ∃ i, Instruction.decode w = .ok i ∧ i.opcode ≠ .imm .printLiteral ∧ s = .instruction i := by
  rcases statement_cases pool w with
    ⟨e, _, failed⟩ | ⟨index, literal, decoded, found, prints⟩ | ⟨i, decoded, ordinary, other⟩
  · rw [failed] at said
    cases said
  · rw [prints] at said
    exact Or.inl ⟨index, literal, decoded, found, (Except.ok.inj said).symm⟩
  · rw [other] at said
    exact Or.inr ⟨i, decoded, ordinary, (Except.ok.inj said).symm⟩

theorem statement_eq_error_iff {e : ListingError} : w.statement pool = .error e ↔ w.Fails pool e := by
  constructor
  · intro failed
    rcases statement_cases pool w with ⟨e', fails, said⟩ | ⟨_, _, _, _, said⟩ | ⟨_, _, _, said⟩ <;>
      rw [said] at failed <;> cases failed
    exact fails
  · intro fails
    cases fails with
    | word undecoded => simp only [statement, undecoded]
    | literal decoded missing => simp only [statement, decoded, missing]

theorem exists_statement_iff : (∃ s, w.statement pool = .ok s) ↔ ∀ e, ¬ w.Fails pool e := by
  constructor
  · rintro ⟨s, said⟩ e fails
    rw [statement_eq_error_iff.mpr fails] at said
    cases said
  · intro passes
    cases said : w.statement pool with
    | error e => exact absurd (statement_eq_error_iff.mp said) (passes e)
    | ok s => exact ⟨s, rfl⟩

/-- The line of a word is the text of what the word says. -/
theorem listing_eq (pool : List Word) (w : Word) :
    w.listing pool = (w.statement pool).map Statement.text := by
  rcases statement_cases pool w with
    ⟨e, fails, said⟩ | ⟨index, literal, decoded, found, said⟩ | ⟨i, decoded, ordinary, said⟩
  · rw [said]
    cases fails with
    | word undecoded =>
        simp only [listing, undecoded]
        rfl
    | literal decoded missing =>
        simp only [listing, decoded, Instruction.listing, missing]
        rfl
  · rw [said]
    simp only [listing, decoded, Instruction.listing, found]
    rfl
  · rw [said]
    simp only [listing, decoded, Instruction.listing_of_ordinary pool ordinary]
    rfl

end Word

namespace Image

variable {image : Image}

theorem listing_eq (image : Image) :
    image.listing = (image.code.mapM (Word.statement image.static)).map
      fun statements => Lines.join (statements.map Statement.text) := by
  have lines : Word.listing image.static = fun w => (w.statement image.static).map Statement.text :=
    funext (Word.listing_eq image.static)
  rw [listing, lines, mapM_map]
  cases image.code.mapM (Word.statement image.static) <;> rfl

theorem statements_of_listing {text : String} (success : image.listing = .ok text) :
    ∃ statements : List Statement,
      List.Forall₂ (fun w s => Word.statement image.static w = .ok s) image.code statements ∧
        text = Lines.join (statements.map Statement.text) := by
  rw [listing_eq] at success
  cases said : image.code.mapM (Word.statement image.static) with
  | error e =>
      rw [said] at success
      cases success
  | ok statements =>
      rw [said] at success
      exact ⟨statements, forall₂_of_mapM said, (Except.ok.inj success).symm⟩

/-- An image has no listing because of its first word that fails. -/
theorem listing_eq_error_iff {e : ListingError} : image.listing = .error e ↔
    ∃ front w back, image.code = front ++ w :: back ∧
      (∀ other ∈ front, ∀ e, ¬ other.Fails image.static e) ∧ w.Fails image.static e := by
  have walk : image.listing = .error e ↔ image.code.mapM (Word.statement image.static) = .error e := by
    rw [listing_eq]
    cases image.code.mapM (Word.statement image.static) <;> simp [Except.map]
  rw [walk]
  constructor
  · intro failed
    obtain ⟨front, w, back, whole, passed, stopped⟩ := exists_first_error failed
    exact ⟨front, w, back, whole, fun other member => Word.exists_statement_iff.mp (passed other member),
      Word.statement_eq_error_iff.mp stopped⟩
  · rintro ⟨front, w, back, whole, passed, fails⟩
    rw [whole]
    exact mapM_of_first_error (fun other member => Word.exists_statement_iff.mpr (passed other member))
      (Word.statement_eq_error_iff.mpr fails)

theorem exists_listing_error_iff :
    (∃ e, image.listing = .error e) ↔ ∃ w ∈ image.code, ∃ e, w.Fails image.static e := by
  constructor
  · rintro ⟨e, failed⟩
    obtain ⟨front, w, back, whole, _, fails⟩ := listing_eq_error_iff.mp failed
    exact ⟨w, by simp [whole], e, fails⟩
  · rintro ⟨w, member, e, fails⟩
    cases listed : image.listing with
    | error e => exact ⟨e, rfl⟩
    | ok text =>
        obtain ⟨statements, said, _⟩ := statements_of_listing listed
        obtain ⟨k, found⟩ := List.mem_iff_getElem?.mp member
        obtain ⟨s, _, passes⟩ := exists_getElem?_of_forall₂ said found
        exact absurd fails (Word.exists_statement_iff.mp ⟨s, passes⟩ e)

end Image
end StoredProgram
