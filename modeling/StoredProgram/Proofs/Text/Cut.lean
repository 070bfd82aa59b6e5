import StoredProgram.Proofs.Text.Blank

set_option autoImplicit false

namespace StoredProgram.Blank

/-- There is nothing but blanks. -/
def AllBlank (cs : List Char) : Prop := ∀ c ∈ cs, isBlank c = true

instance (cs : List Char) : Decidable (AllBlank cs) :=
  List.decidableBAll (fun c => isBlank c = true) cs

/-- What is left of a line without the blanks at both of its ends. -/
def Trims (line text : List Char) : Prop :=
  ∃ before after, AllBlank before ∧ AllBlank after ∧ Trimmed text ∧ line = before ++ text ++ after

theorem trim_behind_blanks {blanks : List Char} (blank : AllBlank blanks) (cs : List Char) :
    trim (blanks ++ cs) = trim cs := by
  rw [trim, trim, List.dropWhile_append_of_pos blank]

theorem trim_before_blanks {blanks : List Char} (blank : AllBlank blanks) (cs : List Char) :
    trim (cs ++ blanks) = trim cs := by
  induction blanks generalizing cs with
  | nil => rw [List.append_nil]
  | cons b blanks ih =>
      have rest : AllBlank blanks := fun c member => blank c (List.mem_cons_of_mem b member)
      rw [← List.singleton_append, ← List.append_assoc, ih rest,
        trim_append_blank cs (blank b List.mem_cons_self)]

theorem trims_iff {line text : List Char} : Trims line text ↔ text = trim line := by
  constructor
  · rintro ⟨before, after, first, last, trimmed, rfl⟩
    rw [trim_before_blanks last, trim_behind_blanks first, trim_of_trimmed trimmed]
  · rintro rfl
    obtain ⟨after, last, whole⟩ := trim_append_blanks line
    refine ⟨line.takeWhile isBlank, after, fun c member => List.mem_takeWhile_imp member, last,
      trimmed_trim line, ?_⟩
    rw [List.append_assoc, whole, List.takeWhile_append_dropWhile]

/-- A text starts with a word, which is as long as it can be, and the rest follows. -/
structure Leads (text word rest : List Char) : Prop where
  whole : text = word ++ rest
  some_word : word ≠ []
  solid : Solid word
  ends : ∀ c ∈ rest.head?, isBlank c = true

theorem Leads.eq {text word rest : List Char} (leads : Leads text word rest) :
    word = token text ∧ rest = afterToken text := by
  obtain ⟨rfl, some_word, solid, ends⟩ := leads
  cases rest with
  | nil =>
      rw [List.append_nil, token_of_solid solid, afterToken_of_solid solid]
      exact ⟨rfl, rfl⟩
  | cons b rest =>
      have blank : isBlank b = true := ends b rfl
      rw [token_append rest solid blank, afterToken_append rest solid blank]
      exact ⟨rfl, rfl⟩

/-- Any text that does not start with a blank starts with a word. -/
theorem leads_token {text : List Char} (some_text : text ≠ [])
    (first : ∀ c ∈ text.head?, isBlank c = false) : Leads text (token text) (afterToken text) := by
  refine ⟨(token_append_afterToken text).symm, ?_, ?_, ?_⟩
  · obtain ⟨c, rest, rfl⟩ := List.exists_cons_of_ne_nil some_text
    rw [token, List.takeWhile_cons_of_pos (by simp [first c rfl])]
    exact List.cons_ne_nil _ _
  · intro c member
    simpa using List.mem_takeWhile_imp member
  · intro c member
    have stopped := List.head?_dropWhile_not (fun c => !isBlank c) text
    rw [← afterToken, Option.mem_def.mp member] at stopped
    simpa using stopped

/-- The words of a text, in their order, with blanks between them and, it may be, at the ends. -/
inductive Separates : List Char → List (List Char) → Prop where
  | none {blanks : List Char} (blank : AllBlank blanks) : Separates blanks []
  | word {blanks text word rest : List Char} {words : List (List Char)} (blank : AllBlank blanks)
      (leads : Leads text word rest) (others : Separates rest words) :
      Separates (blanks ++ text) (word :: words)

theorem fields_behind_blanks {blanks : List Char} (blank : AllBlank blanks) (cs : List Char) :
    fields (blanks ++ cs) = fields cs := by
  induction blanks with
  | nil => rfl
  | cons b blanks ih =>
      rw [List.cons_append, fields_blank _ (blank b List.mem_cons_self)]
      exact ih fun c member => blank c (List.mem_cons_of_mem b member)

theorem Leads.fields {text word rest : List Char} (leads : Leads text word rest) :
    fields text = word :: Blank.fields rest := by
  obtain ⟨rfl, some_word, solid, ends⟩ := leads
  cases rest with
  | nil => rw [List.append_nil, fields_of_solid solid some_word, fields_nil]
  | cons b rest =>
      have blank : isBlank b = true := ends b rfl
      rw [fields_append rest solid some_word blank, fields_blank rest blank]

theorem Separates.eq {text : List Char} {words : List (List Char)} (separates : Separates text words) :
    words = fields text := by
  induction separates with
  | none blank =>
      have empty := fields_behind_blanks blank []
      rw [List.append_nil, fields_nil] at empty
      exact empty.symm
  | word blank leads _ ih => rw [fields_behind_blanks blank, leads.fields, ih]

theorem separates_fields (text : List Char) : Separates text (fields text) := by
  induction size : text.length using Nat.strong_induction_on generalizing text with
  | _ n ih =>
      have blank : AllBlank (text.takeWhile isBlank) := fun c member => List.mem_takeWhile_imp member
      have whole : text.takeWhile isBlank ++ text.dropWhile isBlank = text :=
        List.takeWhile_append_dropWhile
      rw [← whole]
      by_cases empty : text.dropWhile isBlank = []
      · rw [empty, fields_behind_blanks blank, fields_nil, List.append_nil]
        exact .none blank
      · have leads := leads_token empty (head_dropWhile text)
        have shorter : (afterToken (text.dropWhile isBlank)).length < n := by
          have parts := congrArg List.length leads.whole
          have some_word := List.length_pos_iff.mpr leads.some_word
          have suffix := congrArg List.length whole
          rw [List.length_append] at parts suffix
          omega
        rw [fields_behind_blanks blank, leads.fields]
        exact .word blank leads (ih _ shorter _ rfl)

theorem separates_iff {text : List Char} {words : List (List Char)} :
    Separates text words ↔ words = fields text := by
  constructor
  · exact Separates.eq
  · rintro rfl
    exact separates_fields text

end StoredProgram.Blank
