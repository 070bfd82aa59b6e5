import Mathlib.Data.List.TakeWhile
import StoredProgram.Input
import StoredProgram.Proofs.Text.Blank

set_option autoImplicit false

namespace StoredProgram.Input

/-- The lines of an input, each with the newline that ends it. The last line may have none. -/
def lines : List UInt8 → List (List UInt8)
  | [] => []
  | b :: bs =>
    if b = newline then [b] :: lines bs
    else
      match lines bs with
      | [] => [[b]]
      | first :: rest => (b :: first) :: rest

def wholeLine (input : List UInt8) : List UInt8 :=
  line input ++ (input.dropWhile (· ≠ newline)).take 1

/-- The bytes are whole lines, the last one included. -/
def Closed (bytes : List UInt8) : Prop := ∀ b ∈ bytes.getLast?, b = newline

instance (bytes : List UInt8) : Decidable (Closed bytes) :=
  match last : bytes.getLast? with
  | none => .isTrue (by simp [Closed, last])
  | some b => decidable_of_iff (b = newline) (by simp [Closed, last])

/-- A line is a numeral with blanks around it. -/
def Denotes (line : List UInt8) (n : Int) : Prop :=
  ∃ text : String, text.toByteArray.data.toList = line ∧
    Decimal.integer? (Blank.trim text.toList) = some n

variable {input : List UInt8}

theorem wholeLine_append_afterLine (input : List UInt8) : wholeLine input ++ afterLine input = input := by
  rw [wholeLine, List.append_assoc, afterLine, List.take_append_drop, line,
    List.takeWhile_append_dropWhile]

theorem wholeLine_newline (bs : List UInt8) : wholeLine (newline :: bs) = [newline] := by
  simp [wholeLine, line]

theorem afterLine_newline (bs : List UInt8) : afterLine (newline :: bs) = bs := by
  simp [afterLine]

theorem wholeLine_cons {b : UInt8} (inside : b ≠ newline) (bs : List UInt8) :
    wholeLine (b :: bs) = b :: wholeLine bs := by
  simp [wholeLine, line, inside]

theorem afterLine_cons {b : UInt8} (inside : b ≠ newline) (bs : List UInt8) :
    afterLine (b :: bs) = afterLine bs := by
  simp [afterLine, inside]

theorem lines_eq (more : input ≠ []) : lines input = wholeLine input :: lines (afterLine input) := by
  induction input with
  | nil => exact absurd rfl more
  | cons b bs ih =>
      by_cases last : b = newline
      · rw [lines, if_pos last, last, wholeLine_newline, afterLine_newline]
      · rw [lines, if_neg last, wholeLine_cons last, afterLine_cons last]
        by_cases none : bs = []
        · rw [none]
          rfl
        · rw [ih none]

theorem Closed.afterLine (closed : Closed input) : Closed (afterLine input) := by
  intro b last
  apply closed
  have parts := wholeLine_append_afterLine input
  rw [← parts, List.getLast?_append, Option.mem_def.mp last]
  rfl

end StoredProgram.Input
