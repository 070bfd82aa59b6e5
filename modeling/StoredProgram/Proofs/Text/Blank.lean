import Mathlib.Data.List.TakeWhile
import StoredProgram.Text.Blank

set_option autoImplicit false

namespace StoredProgram.Blank

/-- There is no blank at either end. -/
def Trimmed (cs : List Char) : Prop :=
  (∀ c ∈ cs.head?, isBlank c = false) ∧ ∀ c ∈ cs.getLast?, isBlank c = false

/-- There is no blank anywhere. -/
def Solid (cs : List Char) : Prop := ∀ c ∈ cs, isBlank c = false

/-- A text that can stand between two blanks as one field. -/
def IsWord (text : String) : Prop := Solid text.toList ∧ text.toList ≠ []

/-- Looks at one character, while a general instance may go through all there are. -/
instance (end? : Option Char) : Decidable (∀ c ∈ end?, isBlank c = false) :=
  match end? with
  | none => .isTrue (by simp)
  | some c => decidable_of_iff (isBlank c = false) (by simp)

instance (cs : List Char) : Decidable (Trimmed cs) := inferInstanceAs (Decidable (_ ∧ _))

instance (cs : List Char) : Decidable (Solid cs) :=
  List.decidableBAll (fun c => isBlank c = false) cs

instance (text : String) : Decidable (IsWord text) := inferInstanceAs (Decidable (_ ∧ _))

theorem Solid.append {front back : List Char} (first : Solid front) (second : Solid back) :
    Solid (front ++ back) := by
  intro c member
  exact (List.mem_append.mp member).elim (first c) (second c)

theorem Solid.trimmed {cs : List Char} (solid : Solid cs) : Trimmed cs := by
  constructor
  · intro c member
    exact solid c (List.mem_of_mem_head? member)
  · intro c member
    exact solid c (List.mem_of_mem_getLast? member)

/-- Only the two ends of a text count. -/
theorem trimmed_append {front back : List Char} (first : ∀ c ∈ front.head?, isBlank c = false)
    (last : ∀ c ∈ back.getLast?, isBlank c = false) (middle : List Char) (some_front : front ≠ [])
    (some_back : back ≠ []) : Trimmed (front ++ middle ++ back) := by
  constructor
  · intro c member
    rw [List.append_assoc, List.head?_append, List.head?_eq_some_head some_front] at member
    exact first c (List.head?_eq_some_head some_front ▸ member)
  · intro c member
    rw [List.getLast?_append, List.getLast?_eq_some_getLast some_back] at member
    exact last c (List.getLast?_eq_some_getLast some_back ▸ member)

theorem dropWhile_of_head {cs : List Char} (h : ∀ c ∈ cs.head?, isBlank c = false) :
    cs.dropWhile isBlank = cs := by
  cases cs with
  | nil => rfl
  | cons c cs => exact List.dropWhile_cons_of_neg (by simp [h c (by simp)])

theorem trim_of_trimmed {cs : List Char} (h : Trimmed cs) : trim cs = cs := by
  have last : ∀ c ∈ cs.reverse.head?, isBlank c = false := by
    rw [List.head?_reverse]
    exact h.2
  rw [trim, dropWhile_of_head h.1, dropWhile_of_head last, List.reverse_reverse]

theorem head_dropWhile (cs : List Char) : ∀ c ∈ (cs.dropWhile isBlank).head?, isBlank c = false := by
  intro c member
  have stopped := List.head?_dropWhile_not isBlank cs
  rw [Option.mem_def.mp member] at stopped
  simpa using stopped

/-- What is left after trimming is a part of the text that starts where the blanks before it end. -/
theorem trim_begins (cs : List Char) : trim cs <+: cs.dropWhile isBlank := by
  have suffix : (cs.dropWhile isBlank).reverse.dropWhile isBlank <:+ (cs.dropWhile isBlank).reverse :=
    List.dropWhile_suffix isBlank
  simpa only [trim, List.reverse_reverse] using List.reverse_prefix.mpr suffix

theorem trimmed_trim (cs : List Char) : Trimmed (trim cs) := by
  constructor
  · intro c member
    obtain ⟨rest, whole⟩ := trim_begins cs
    apply head_dropWhile cs
    rw [← whole, List.head?_append, Option.mem_def.mp member]
    rfl
  · intro c member
    rw [trim, List.getLast?_reverse] at member
    exact head_dropWhile _ c member

theorem mem_of_mem_trim {cs : List Char} {c : Char} (member : c ∈ trim cs) : c ∈ cs :=
  List.dropWhile_subset _ ((trim_begins cs).subset member)

/-- Only blanks are cut off the end of a text. -/
theorem trim_append_blanks (cs : List Char) :
    ∃ blanks, (∀ c ∈ blanks, isBlank c = true) ∧ trim cs ++ blanks = cs.dropWhile isBlank := by
  refine ⟨((cs.dropWhile isBlank).reverse.takeWhile isBlank).reverse, ?_, ?_⟩
  · intro c member
    exact List.mem_takeWhile_imp (List.mem_reverse.mp member)
  · rw [trim, ← List.reverse_append, List.takeWhile_append_dropWhile, List.reverse_reverse]

/-- A blank at the end of a text is cut off like any other. -/
theorem trim_append_blank (cs : List Char) {b : Char} (blank : isBlank b = true) :
    trim (cs ++ [b]) = trim cs := by
  rw [trim, trim, List.dropWhile_append]
  split
  · rename_i none
    rw [List.isEmpty_iff.mp none, List.dropWhile_cons_of_pos blank, List.dropWhile_nil]
  · rw [List.reverse_append, List.reverse_singleton, List.singleton_append,
      List.dropWhile_cons_of_pos blank]

theorem token_append_afterToken (cs : List Char) : token cs ++ afterToken cs = cs :=
  List.takeWhile_append_dropWhile

theorem token_of_solid {cs : List Char} (solid : Solid cs) : token cs = cs := by
  induction cs with
  | nil => rfl
  | cons c cs ih =>
      have tail : Solid cs := fun d member => solid d (List.mem_cons_of_mem c member)
      unfold token at ih ⊢
      rw [List.takeWhile_cons_of_pos (by simp [solid c (by simp)]), ih tail]

theorem afterToken_of_solid {cs : List Char} (solid : Solid cs) : afterToken cs = [] := by
  have whole := token_append_afterToken cs
  rw [token_of_solid solid] at whole
  simpa using whole

theorem token_append {word : List Char} {b : Char} (rest : List Char) (solid : Solid word)
    (blank : isBlank b = true) : token (word ++ b :: rest) = word := by
  have all : ∀ c ∈ word, (!isBlank c) = true := fun c member => by simp [solid c member]
  rw [token, List.takeWhile_append_of_pos all, List.takeWhile_cons_of_neg (by simp [blank]),
    List.append_nil]

theorem afterToken_append {word : List Char} {b : Char} (rest : List Char) (solid : Solid word)
    (blank : isBlank b = true) : afterToken (word ++ b :: rest) = b :: rest := by
  have all : ∀ c ∈ word, (!isBlank c) = true := fun c member => by simp [solid c member]
  rw [afterToken, List.dropWhile_append_of_pos all, List.dropWhile_cons_of_neg (by simp [blank])]

/-- A word at the start of a text stays its first token when the text is trimmed, even if nothing but
blanks follows it. -/
theorem token_trim_append {word : List Char} {b : Char} (rest : List Char) (solid : Solid word)
    (some_word : word ≠ []) (blank : isBlank b = true) : token (trim (word ++ b :: rest)) = word := by
  obtain ⟨blanks, blank_ends, parts⟩ := trim_append_blanks (word ++ b :: rest)
  have begins : ∀ c ∈ (word ++ b :: rest).head?, isBlank c = false := by
    intro c member
    rw [List.head?_append, List.head?_eq_some_head some_word] at member
    exact solid c (Option.some.inj member ▸ List.head_mem some_word)
  rw [dropWhile_of_head begins] at parts
  rcases List.append_eq_append_iff.mp parts with ⟨cut, whole, ends⟩ | ⟨kept, whole, ends⟩
  · -- A part of the word that was cut off would be blank and solid at once.
    have none : cut = [] := by
      apply List.eq_nil_iff_forall_not_mem.mpr
      intro c member
      have one := blank_ends c (ends ▸ List.mem_append_left _ member)
      rw [solid c (whole ▸ List.mem_append_right _ member)] at one
      cases one
    rw [none, List.append_nil] at whole
    rw [← whole, token_of_solid solid]
  · cases kept with
    | nil => rw [whole, List.append_nil, token_of_solid solid]
    | cons c kept =>
        have same : b = c := (List.cons.inj ends).1
        rw [whole, token_append kept solid (same ▸ blank)]

/-- Finished fields have no part in what is found after them. -/
theorem fieldsFrom_done (field : List Char) (done : List (List Char)) (cs : List Char) :
    fieldsFrom field done cs = done.reverse ++ fieldsFrom field [] cs := by
  induction cs generalizing field done with
  | nil =>
      simp only [fieldsFrom, closeField]
      split <;> simp
  | cons c cs ih =>
      simp only [fieldsFrom]
      split
      · rw [ih [] (closeField field done), ih [] (closeField field [])]
        simp only [closeField]
        split <;> simp
      · exact ih (c :: field) done

theorem fieldsFrom_append {word : List Char} (solid : Solid word) (field : List Char)
    (rest : List Char) :
    fieldsFrom field [] (word ++ rest) = fieldsFrom (word.reverse ++ field) [] rest := by
  induction word generalizing field with
  | nil => rfl
  | cons c word ih =>
      have head : ¬isBlank c = true := by simp [solid c (by simp)]
      have tail : Solid word := fun d member => solid d (List.mem_cons_of_mem c member)
      simp only [List.cons_append, fieldsFrom, head, List.reverse_cons]
      rw [ih tail]
      simp

@[simp] theorem fields_nil : fields [] = [] := rfl

theorem fields_blank {b : Char} (cs : List Char) (blank : isBlank b = true) :
    fields (b :: cs) = fields cs := by
  simp [fields, fieldsFrom, closeField, blank]

/-- A word at the end of a text is its last field. -/
theorem fields_of_solid {word : List Char} (solid : Solid word) (some_word : word ≠ []) :
    fields word = [word] := by
  have closed := fieldsFrom_append solid [] []
  simp only [List.append_nil] at closed
  rw [fields, closed]
  simp [fieldsFrom, closeField, some_word]

/-- A word with a blank after it is a field. -/
theorem fields_append {word : List Char} {b : Char} (rest : List Char) (solid : Solid word)
    (some_word : word ≠ []) (blank : isBlank b = true) :
    fields (word ++ b :: rest) = word :: fields rest := by
  rw [fields, fieldsFrom_append solid]
  simp only [List.append_nil, fieldsFrom, blank, if_true]
  rw [fieldsFrom_done]
  simp [closeField, some_word, fields]

/-- Words, each with a space in front of it. -/
def spaced (words : List String) : List Char := words.flatMap fun word => ' ' :: word.toList

theorem fields_spaced {words : List String}
    (all_words : ∀ word ∈ words, IsWord word) :
    (fields (spaced words)).map String.ofList = words := by
  induction words with
  | nil => rfl
  | cons word words ih =>
      obtain ⟨head, some_word⟩ := all_words word (by simp)
      have tail := ih fun other member => all_words other (List.mem_cons_of_mem word member)
      rw [spaced, List.flatMap_cons, List.cons_append, fields_blank _ (by decide)]
      cases words with
      | nil => simp [fields_of_solid head some_word]
      | cons next words =>
          rw [spaced, List.flatMap_cons, List.cons_append, fields_blank _ (by decide)] at tail
          rw [List.flatMap_cons, List.cons_append, fields_append _ head some_word (by decide),
            List.map_cons, String.ofList_toList, tail]

theorem trimmed_spaced {front : List Char} {words : List String} (first : Trimmed front)
    (some_front : front ≠ []) (all_words : ∀ word ∈ words, IsWord word) :
    Trimmed (front ++ spaced words) := by
  induction words generalizing front with
  | nil => simpa [spaced] using first
  | cons word words ih =>
      obtain ⟨head, some_word⟩ := all_words word (by simp)
      have rest : ∀ other ∈ words, IsWord other :=
        fun other member => all_words other (List.mem_cons_of_mem word member)
      have longer := trimmed_append first.1 head.trimmed.2 [' '] some_front some_word
      have whole := ih longer (by simp) rest
      simpa [spaced] using whole

end StoredProgram.Blank
