import StoredProgram.Text.Lines

set_option autoImplicit false

namespace StoredProgram.Lines

/-- A text that is a line, or a part of one. -/
def IsLine (text : String) : Prop := '\n' ∉ text.toList

instance (text : String) : Decidable (IsLine text) := inferInstanceAs (Decidable (_ ∉ _))

theorem IsLine.append {front back : String} (first : IsLine front) (second : IsLine back) :
    IsLine (front ++ back) := by
  unfold IsLine at first second ⊢
  simp only [String.toList_append, List.mem_append, not_or]
  exact ⟨first, second⟩

@[simp] theorem join_nil : join [] = "" := rfl

theorem foldl_join (text : String) (lines : List String) :
    lines.foldl (fun text line => text ++ line ++ "\n") text = text ++ join lines := by
  unfold join
  induction lines generalizing text with
  | nil => simp
  | cons line lines ih =>
      rw [List.foldl_cons, List.foldl_cons, ih, ih ("" ++ line ++ "\n")]
      simp only [String.empty_append, String.append_assoc]

theorem join_cons (line : String) (lines : List String) :
    join (line :: lines) = line ++ "\n" ++ join lines := by
  rw [join, List.foldl_cons, foldl_join, String.empty_append]

theorem join_append (front back : List String) : join (front ++ back) = join front ++ join back := by
  induction front with
  | nil => simp
  | cons line front ih => simp only [List.cons_append, join_cons, ih, String.append_assoc]

/-- A joined text has the newline of each line and those inside of the lines. -/
theorem count_join (lines : List String) : (join lines).toList.count '\n' =
    lines.length + (lines.flatMap String.toList).count '\n' := by
  induction lines with
  | nil => rfl
  | cons line lines ih =>
      have own : ("\n" : String).toList.count '\n' = 1 := by decide
      rw [join_cons, String.toList_append, String.toList_append, List.count_append, List.count_append, ih,
        own, List.length_cons, List.flatMap_cons, List.count_append]
      omega

/-- Finished lines have no part in what is found after them. -/
theorem splitFrom_done (line : List Char) (done : List String) (cs : List Char) :
    splitFrom line done cs = done.reverse ++ splitFrom line [] cs := by
  induction cs generalizing line done with
  | nil =>
      simp only [splitFrom]
      split <;> simp
  | cons c cs ih =>
      simp only [splitFrom]
      split
      · rw [ih, ih [] [_]]
        simp
      · exact ih (c :: line) done

theorem splitFrom_append {word : List Char} (plain : '\n' ∉ word) (line rest : List Char) :
    splitFrom line [] (word ++ rest) = splitFrom (word.reverse ++ line) [] rest := by
  induction word generalizing line with
  | nil => rfl
  | cons c word ih =>
      have head : c ≠ '\n' := fun same => plain (by simp [same])
      have tail : '\n' ∉ word := fun member => plain (List.mem_cons_of_mem c member)
      simp only [List.cons_append, splitFrom, head, if_false]
      rw [ih tail]
      simp

theorem splitFrom_line {word : List Char} (plain : '\n' ∉ word) (rest : List Char) :
    splitFrom [] [] (word ++ '\n' :: rest) = String.ofList word :: splitFrom [] [] rest := by
  rw [splitFrom_append plain]
  simp only [List.append_nil, splitFrom, if_true, List.reverse_reverse]
  rw [splitFrom_done]
  rfl

/-- Joined lines are found in front of whatever follows them. -/
theorem split_join_append {lines : List String} (plain : ∀ line ∈ lines, IsLine line) (rest : String) :
    split (join lines ++ rest) = lines ++ split rest := by
  induction lines with
  | nil => simp
  | cons line lines ih =>
      have head := plain line (by simp)
      have tail := ih fun other member => plain other (List.mem_cons_of_mem line member)
      have whole : (join (line :: lines) ++ rest).toList =
          line.toList ++ '\n' :: (join lines ++ rest).toList := by
        simp [join_cons]
      rw [split, whole, splitFrom_line head, String.ofList_toList]
      exact congrArg (line :: ·) tail

theorem split_join {lines : List String} (plain : ∀ line ∈ lines, IsLine line) :
    split (join lines) = lines := by
  have found := split_join_append plain ""
  rwa [String.append_empty, show split "" = [] from rfl, List.append_nil] at found

theorem isLine_of_mem_splitFrom {line cs : List Char} {done : List String} (plain : '\n' ∉ line)
    (finished : ∀ text ∈ done, IsLine text) : ∀ text ∈ splitFrom line done cs, IsLine text := by
  induction cs generalizing line done with
  | nil =>
      intro text member
      simp only [splitFrom, List.mem_reverse] at member
      split at member
      · exact finished text member
      · rcases List.mem_cons.mp member with rfl | member
        · simpa [IsLine] using plain
        · exact finished text member
  | cons c cs ih =>
      simp only [splitFrom]
      split
      · apply ih List.not_mem_nil
        intro text member
        rcases List.mem_cons.mp member with rfl | member
        · simpa [IsLine] using plain
        · exact finished text member
      · rename_i other
        apply ih _ finished
        simp only [List.mem_cons, not_or]
        exact ⟨fun same => other same.symm, plain⟩

theorem isLine_of_mem_split {text line : String} (member : line ∈ split text) : IsLine line :=
  isLine_of_mem_splitFrom List.not_mem_nil (by simp) line member

/-- Joined lines are found again just if they are lines. -/
theorem split_join_iff {lines : List String} :
    split (join lines) = lines ↔ ∀ line ∈ lines, IsLine line := by
  constructor
  · intro same line member
    rw [← same] at member
    exact isLine_of_mem_split member
  · exact split_join

/-- A text of whole lines, the last one included. -/
def Whole (text : String) : Prop := ∀ c ∈ text.toList.getLast?, c = '\n'

/-- Looks at the last character only. -/
instance (text : String) : Decidable (Whole text) :=
  match last : text.toList.getLast? with
  | none => .isTrue (by simp [Whole, last])
  | some c => decidable_of_iff (c = '\n') (by simp [Whole, last])

theorem splitFrom_newline (line cs rest : List Char) :
    splitFrom line [] (cs ++ '\n' :: rest) =
      splitFrom line [] (cs ++ ['\n']) ++ splitFrom [] [] rest := by
  induction cs generalizing line with
  | nil =>
      simp only [List.nil_append, splitFrom, if_true]
      rw [splitFrom_done]
  | cons c cs ih =>
      simp only [List.cons_append, splitFrom]
      split
      · rw [splitFrom_done, splitFrom_done [] [_] (cs ++ ['\n']), ih, List.append_assoc]
      · exact ih (c :: line)

/-- Behind whole lines a text goes on with new lines. -/
theorem split_append {front : String} (whole : Whole front) (back : String) :
    split (front ++ back) = split front ++ split back := by
  rw [split, split, split, String.toList_append]
  rcases List.eq_nil_or_concat front.toList with none | ⟨before, c, parts⟩
  · rw [none]
    rfl
  · have last : c = '\n' := by
      apply whole
      rw [parts, List.concat_eq_append, List.getLast?_concat]
      rfl
    rw [parts, last, List.concat_eq_append, List.append_assoc]
    exact splitFrom_newline [] before back.toList

end StoredProgram.Lines
