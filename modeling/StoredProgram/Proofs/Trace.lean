import StoredProgram.Proofs.Assembly.Operand
import StoredProgram.Trace

set_option autoImplicit false

namespace StoredProgram

namespace Lines

theorem isLine_of_isDigit {text : String} (digits : ∀ c ∈ text.toList, c.isDigit = true) :
    IsLine text := by
  intro newline
  have digit := digits '\n' newline
  revert digit
  decide

theorem isLine_repr (n : Nat) : IsLine (Nat.repr n) := by
  apply isLine_of_isDigit
  intro c member
  rw [Nat.repr, String.toList_ofList] at member
  exact Nat.isDigit_of_mem_toDigits (by decide) (by decide) member

theorem isLine_int_repr (n : Int) : IsLine (Int.repr n) := by
  have dash : IsLine "-" := by decide
  cases n with
  | ofNat k => exact isLine_repr k
  | negSucc k =>
      change IsLine ("-" ++ Nat.repr (k + 1))
      exact dash.append (isLine_repr (k + 1))

theorem isLine_intercalate {separator : String} (plain : IsLine separator) {texts : List String}
    (each : ∀ text ∈ texts, IsLine text) : IsLine (separator.intercalate texts) := by
  induction texts with
  | nil =>
      rw [String.intercalate_nil]
      decide
  | cons text texts ih =>
      have first := each text List.mem_cons_self
      have others := ih fun other member => each other (List.mem_cons_of_mem _ member)
      cases texts with
      | nil => simpa using first
      | cons next texts =>
          rw [String.intercalate_cons_cons]
          exact (first.append plain).append others

end Lines

namespace Trace

open Lines (IsLine)

/-- One line that shows that it belongs to a trace. -/
def IsTraceLine (line : String) : Prop := mark.toList <+: line.toList ∧ IsLine line

theorem isTraceLine_mark_append {text : String} (plain : IsLine text) :
    IsTraceLine (mark ++ text) := by
  refine ⟨?_, IsLine.append (by decide) plain⟩
  rw [String.toList_append]
  exact List.prefix_append _ _

theorem isLine_binary (w : Word) : IsLine w.binary := by
  apply Lines.isLine_of_isDigit
  intro c member
  rw [Word.binary, String.toList_ofList, List.mem_map] at member
  obtain ⟨i, _, digit⟩ := member
  rw [← digit]
  split <;> decide

theorem isTraceLine_fetched (ip : Word) (op : Opcode) (word : Word) :
    IsTraceLine (fetched ip op word) := by
  obtain ⟨_, _, named⟩ := op.mnemonic_form
  have address : IsLine ("#" ++ ip.signedText) :=
    IsLine.append (by decide) (Lines.isLine_int_repr _)
  have line : IsLine ("#" ++ ip.signedText ++ " " ++ op.mnemonic ++ ": " ++ word.binary) :=
    (((address.append (by decide)).append named).append (by decide)).append (isLine_binary word)
  have marked := isTraceLine_mark_append line
  simpa only [fetched, String.append_assoc] using marked

theorem isTraceLine_effect (op : Opcode) {fields : List (String × Int)}
    (plain : ∀ name ∈ fields.map Prod.fst, IsLine name) : IsTraceLine (effect op.mnemonic fields) := by
  obtain ⟨_, _, named⟩ := op.mnemonic_form
  have shown : IsLine (", ".intercalate
      (fields.map fun field => field.1 ++ "=" ++ Int.repr field.2)) := by
    apply Lines.isLine_intercalate (by decide)
    intro text member
    obtain ⟨field, among, same⟩ := List.mem_map.mp member
    rw [← same]
    have name := plain field.1 (List.mem_map_of_mem among)
    exact (name.append (by decide)).append (Lines.isLine_int_repr _)
  have marked := isTraceLine_mark_append ((named.append (by decide : IsLine ": ")).append shown)
  simpa only [effect, String.append_assoc] using marked

end Trace
end StoredProgram
