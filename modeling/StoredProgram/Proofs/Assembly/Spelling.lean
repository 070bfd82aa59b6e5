import StoredProgram.Proofs.Assembly.Operand
import StoredProgram.Proofs.Text.Decimal

set_option autoImplicit false

namespace StoredProgram

namespace Register

/-- The spellings of the register with a given number. A general register is counted from 1 on, and its
numeral may have any number of zeros in front. -/
inductive Spells : List Char → Nat → Prop where
  | ip : Spells ['i', 'p'] 0
  | sp : Spells ['s', 'p'] 1
  | rv : Spells ['r', 'v'] 2
  | general (zeros : Nat) {k : Nat} (lower : 1 ≤ k) (upper : k ≤ 13) :
      Spells ('r' :: (List.replicate zeros '0' ++ Nat.toDigits 10 k)) (2 + k)

theorem general?_eq_some_iff {digits : List Char} {r : Register} :
    general? digits = some r ↔ ∃ k, Decimal.Denotes digits k ∧ 1 ≤ k ∧ k ≤ 13 ∧ r.val = 2 + k := by
  unfold general?
  cases read : Decimal.natural? digits with
  | none =>
      have undenoted := Decimal.natural?_eq_none_iff.mp read
      constructor
      · intro found
        cases found
      · rintro ⟨k, denotes, _⟩
        exact absurd denotes (undenoted k)
  | some n =>
      have denotes := Decimal.natural?_eq_some_iff.mp read
      constructor
      · intro found
        dsimp only at found
        split at found
        · rename_i within
          have same := congrArg Fin.val (Option.some.inj found)
          exact ⟨n, denotes, within.1, within.2, by rw [← same]; exact Nat.add_comm n 2⟩
        · cases found
      · rintro ⟨k, alsoDenotes, lower, upper, number⟩
        obtain rfl := denotes.unique alsoDenotes
        dsimp only
        rw [dif_pos (show 1 ≤ n ∧ n ≤ 13 from ⟨lower, upper⟩)]
        exact congrArg some (Fin.ext (by rw [number]; exact Nat.add_comm n 2))

/-- A name that starts like that of a general register and is not `rv`. -/
theorem ofName?_general {digits : List Char} (other : digits ≠ ['v']) :
    ofName? (String.ofList ('r' :: digits)) = general? digits := by
  unfold ofName?
  rw [String.toList_ofList]
  split
  · rename_i same
    cases same
  · rename_i same
    cases same
  · rename_i same
    exact absurd (List.cons.inj same).2 other
  · rename_i rest same
    rw [(List.cons.inj same).2]
  · rename_i none
    exact absurd rfl (none digits)

theorem ofName?_eq_some_iff {name : List Char} {r : Register} :
    ofName? (String.ofList name) = some r ↔ Spells name r.val := by
  constructor
  · intro found
    unfold ofName? at found
    rw [String.toList_ofList] at found
    split at found
    · cases found
      exact .ip
    · cases found
      exact .sp
    · cases found
      exact .rv
    · obtain ⟨k, ⟨zeros, rfl⟩, lower, upper, number⟩ := general?_eq_some_iff.mp found
      rw [number]
      exact .general zeros lower upper
    · cases found
  · intro spells
    generalize number : r.val = index at spells
    cases spells with
    | ip => exact congrArg some (Fin.ext number.symm)
    | sp => exact congrArg some (Fin.ext number.symm)
    | rv => exact congrArg some (Fin.ext number.symm)
    | @general zeros k lower upper =>
        have denotes : Decimal.Denotes (List.replicate zeros '0' ++ Nat.toDigits 10 k) k := ⟨zeros, rfl⟩
        rw [ofName?_general, general?_eq_some_iff]
        · exact ⟨k, denotes, lower, upper, number⟩
        · intro same
          have digit := denotes.isDigit.2 'v' (by rw [same]; exact List.mem_singleton.mpr rfl)
          cases digit

/-- A spelling has the form that the part of a token behind its stars needs. -/
theorem Spells.form {name : List Char} {index : Nat} (spells : Spells name index) :
    name ≠ [] ∧ ∀ c ∈ name, c.isAlphanum = true := by
  cases spells with
  | ip => exact ⟨List.cons_ne_nil _ _, List.all_eq_true.mp rfl⟩
  | sp => exact ⟨List.cons_ne_nil _ _, List.all_eq_true.mp rfl⟩
  | rv => exact ⟨List.cons_ne_nil _ _, List.all_eq_true.mp rfl⟩
  | @general zeros k =>
      refine ⟨List.cons_ne_nil _ _, ?_⟩
      intro c member
      rcases List.mem_cons.mp member with rfl | member
      · rfl
      · have denotes : Decimal.Denotes (List.replicate zeros '0' ++ Nat.toDigits 10 k) k := ⟨zeros, rfl⟩
        simp [Char.isAlphanum, denotes.isDigit.2 c member]

end Register

namespace Reference

/-- The spellings of a reference: a star for each level, and then the register. -/
def Spells (token : List Char) (r : Reference) : Prop :=
  ∃ name, token = List.replicate r.level.val '*' ++ name ∧ Register.Spells name r.register.val

/-- Stars and then ASCII letters and digits, at least one, and nothing else. -/
def HasForm (token : List Char) (stars : Nat) (name : List Char) : Prop :=
  token = List.replicate stars '*' ++ name ∧ name ≠ [] ∧ ∀ c ∈ name, c.isAlphanum = true

/-- A token of the right form, with more stars than there are levels. -/
def TooDeep (token : List Char) : Prop := ∃ stars name, 7 < stars ∧ HasForm token stars name

/-- The stars of a token end where its name starts. -/
theorem HasForm.cut {token name : List Char} {stars : Nat} (form : HasForm token stars name) :
    (token.takeWhile (· = '*')).length = stars ∧ token.dropWhile (· = '*') = name := by
  obtain ⟨rfl, some_name, alphanumeric⟩ := form
  have starred : ∀ c ∈ List.replicate stars '*', decide (c = '*') = true := by
    intro c member
    simpa using (List.mem_replicate.mp member).2
  obtain ⟨c, rest, rfl⟩ := List.exists_cons_of_ne_nil some_name
  have other : c ≠ '*' := by
    rintro rfl
    cases alphanumeric '*' List.mem_cons_self
  constructor
  · rw [List.takeWhile_append_of_pos starred, List.takeWhile_cons_of_neg (by simpa using other),
      List.append_nil, List.length_replicate]
  · rw [List.dropWhile_append_of_pos starred, List.dropWhile_cons_of_neg (by simpa using other)]

theorem HasForm.unique {token name other : List Char} {stars count : Nat}
    (first : HasForm token stars name) (second : HasForm token count other) :
    stars = count ∧ name = other :=
  ⟨first.cut.1.symm.trans second.cut.1, first.cut.2.symm.trans second.cut.2⟩

theorem Spells.form {token : List Char} {r : Reference} (spells : Spells token r) :
    ∃ name, HasForm token r.level.val name ∧ Register.Spells name r.register.val := by
  obtain ⟨name, whole, named⟩ := spells
  exact ⟨name, ⟨whole, named.form⟩, named⟩

theorem parse_of_form {token : String} {stars : Nat} {name : List Char}
    (form : HasForm token.toList stars name) :
    parse token =
      if few : stars < 8 then
        match Register.ofName? (String.ofList name) with
        | some register => .ok ⟨⟨stars, few⟩, register⟩
        | none => .error (.invalidRegister token)
      else .error (.tooManyIndirections token) := by
  obtain ⟨rfl, rfl⟩ := form.cut
  have named : token.toList.dropWhile (· = '*') ≠ [] ∧
      (token.toList.dropWhile (· = '*')).all Char.isAlphanum = true :=
    ⟨form.2.1, List.all_eq_true.mpr form.2.2⟩
  unfold parse
  exact if_pos named

theorem parse_of_no_form {token : String} (formless : ∀ stars name, ¬ HasForm token.toList stars name) :
    parse token = .error (.invalidRegister token) := by
  have unnamed : ¬ (token.toList.dropWhile (· = '*') ≠ [] ∧
      (token.toList.dropWhile (· = '*')).all Char.isAlphanum = true) := by
    rintro ⟨some_name, alphanumeric⟩
    apply formless (token.toList.takeWhile (· = '*')).length (token.toList.dropWhile (· = '*'))
    refine ⟨?_, some_name, List.all_eq_true.mp alphanumeric⟩
    have stars : token.toList.takeWhile (· = '*') =
        List.replicate (token.toList.takeWhile (· = '*')).length '*' := by
      apply List.eq_replicate_of_mem
      intro c member
      simpa using List.mem_takeWhile_imp member
    rw [← stars, List.takeWhile_append_dropWhile]
  exact if_neg unnamed

/-- What reading a token can give, with the spelling or the form that it gives it for. -/
theorem parse_cases (token : String) :
    (∃ r, parse token = .ok r ∧ Spells token.toList r) ∨
      (parse token = .error (.tooManyIndirections token) ∧ TooDeep token.toList) ∨
      (parse token = .error (.invalidRegister token) ∧ ¬ TooDeep token.toList ∧
        ∀ r, ¬ Spells token.toList r) := by
  by_cases formed : ∃ stars name, HasForm token.toList stars name
  · obtain ⟨stars, name, form⟩ := formed
    rw [parse_of_form form]
    by_cases few : stars < 8
    · rw [dif_pos few]
      cases found : Register.ofName? (String.ofList name) with
      | some register =>
          exact Or.inl ⟨_, rfl, name, form.1, Register.ofName?_eq_some_iff.mp found⟩
      | none =>
          refine Or.inr (Or.inr ⟨rfl, ?_, ?_⟩)
          · rintro ⟨count, other, many, alsoForm⟩
            have same := (form.unique alsoForm).1
            omega
          · intro r spells
            obtain ⟨other, alsoForm, named⟩ := spells.form
            obtain ⟨_, rfl⟩ := form.unique alsoForm
            rw [Register.ofName?_eq_some_iff.mpr named] at found
            cases found
    · rw [dif_neg few]
      exact Or.inr (Or.inl ⟨rfl, stars, name, by omega, form⟩)
  · have formless : ∀ stars name, ¬ HasForm token.toList stars name :=
      fun stars name form => formed ⟨stars, name, form⟩
    refine Or.inr (Or.inr ⟨parse_of_no_form formless, ?_, ?_⟩)
    · rintro ⟨stars, name, _, form⟩
      exact formless stars name form
    · intro r spells
      obtain ⟨name, form, _⟩ := spells.form
      exact formless _ name form

theorem parse_of_spells {token : String} {r : Reference} (spells : Spells token.toList r) :
    parse token = .ok r := by
  obtain ⟨name, form, named⟩ := spells.form
  rw [parse_of_form form, dif_pos r.level.isLt, Register.ofName?_eq_some_iff.mpr named]

theorem parse_eq_ok_iff {token : String} {r : Reference} :
    parse token = .ok r ↔ Spells token.toList r := by
  constructor
  · intro read
    rcases parse_cases token with ⟨other, success, spells⟩ | ⟨failed, _⟩ | ⟨failed, _⟩
    · rw [success] at read
      exact Except.ok.inj read ▸ spells
    · rw [failed] at read
      cases read
    · rw [failed] at read
      cases read
  · exact parse_of_spells

theorem parse_of_tooDeep {token : String} (deep : TooDeep token.toList) :
    parse token = .error (.tooManyIndirections token) := by
  obtain ⟨stars, name, many, form⟩ := deep
  rw [parse_of_form form, dif_neg (by omega)]

theorem parse_eq_error_iff {token : String} {e : LineError} :
    parse token = .error e ↔
      (TooDeep token.toList ∧ e = .tooManyIndirections token) ∨
        (¬ TooDeep token.toList ∧ (∀ r, ¬ Spells token.toList r) ∧ e = .invalidRegister token) := by
  constructor
  · intro refused
    rcases parse_cases token with ⟨other, success, _⟩ | ⟨failed, deep⟩ | ⟨failed, shallow, unspelled⟩
    · rw [success] at refused
      cases refused
    · rw [failed] at refused
      exact Or.inl ⟨deep, (Except.error.inj refused).symm⟩
    · rw [failed] at refused
      exact Or.inr ⟨shallow, unspelled, (Except.error.inj refused).symm⟩
  · rintro (⟨deep, rfl⟩ | ⟨shallow, unspelled, rfl⟩)
    · exact parse_of_tooDeep deep
    · rcases parse_cases token with ⟨r, _, spells⟩ | ⟨_, deep⟩ | ⟨failed, _⟩
      · exact absurd spells (unspelled r)
      · exact absurd deep shallow
      · exact failed

/-- A token is read as a reference exactly if it is one of its spellings: up to seven stars and the name of a
register. It has too many stars exactly if there are more of them and nothing but ASCII letters and digits
follows, be it a name or not. Any other token is refused as no register. The text of a reference is one of
its spellings. -/
theorem parse_reads_spellings (token : String) :
    (∀ r, parse token = .ok r ↔ Spells token.toList r) ∧
    (∀ e, parse token = .error e ↔
      (TooDeep token.toList ∧ e = .tooManyIndirections token) ∨
        (¬ TooDeep token.toList ∧ (∀ r, ¬ Spells token.toList r) ∧ e = .invalidRegister token)) ∧
    ∀ r : Reference, parse r.text = .ok r :=
  ⟨fun _ => parse_eq_ok_iff, fun _ => parse_eq_error_iff, parse_text⟩

/-- Neither the number of stars nor that of digits is limited in a token that is refused or read. -/
example : parse "*******r00000000000000000000000013" = .ok ⟨7, 15⟩ ∧
    parse "**********************x9" = .error (.tooManyIndirections "**********************x9") := by
  decide +kernel

end Reference

namespace Immediate

/-- The spellings of an immediate: the numerals of one number, which has to fit in the width. Of a number
that is wider than a word, the word has the low bits. -/
def Spells (token : List Char) (width : Nat) (w : Word) : Prop :=
  ∃ n, Decimal.Denotes token n ∧ n < Nat.pow 2 width ∧ w = BitVec.ofNat 32 n

theorem parse_of_denotes {token : String} {n : Nat} (denotes : Decimal.Denotes token.toList n)
    (width : Nat) : parse token width = fit token n width := by
  rw [parse, Decimal.natural?_eq_some_iff.mpr denotes]

theorem parse_of_not_denotes {token : String} (undenoted : ∀ n, ¬ Decimal.Denotes token.toList n)
    (width : Nat) : parse token width = .error (.invalidImmediate token) := by
  rw [parse, Decimal.natural?_eq_none_iff.mpr undenoted]

theorem parse_eq_ok_iff {token : String} {width : Nat} {w : Word} :
    parse token width = .ok w ↔ Spells token.toList width w := by
  constructor
  · intro read
    by_cases denoted : ∃ n, Decimal.Denotes token.toList n
    · obtain ⟨n, denotes⟩ := denoted
      rw [parse_of_denotes denotes, fit] at read
      split at read
      · rename_i within
        exact ⟨n, denotes, within, (Except.ok.inj read).symm⟩
      · cases read
    · rw [parse_of_not_denotes fun n denotes => denoted ⟨n, denotes⟩] at read
      cases read
  · rintro ⟨n, denotes, within, rfl⟩
    rw [parse_of_denotes denotes, fit_of_lt within]

theorem parse_eq_error_iff {token : String} {width : Nat} {e : LineError} :
    parse token width = .error e ↔
      (∃ n, Decimal.Denotes token.toList n ∧ Nat.pow 2 width ≤ n ∧
        e = .immediateOutOfRange token width) ∨
      ((∀ n, ¬ Decimal.Denotes token.toList n) ∧ e = .invalidImmediate token) := by
  constructor
  · intro refused
    by_cases denoted : ∃ n, Decimal.Denotes token.toList n
    · obtain ⟨n, denotes⟩ := denoted
      rw [parse_of_denotes denotes, fit] at refused
      split at refused
      · cases refused
      · rename_i large
        exact Or.inl ⟨n, denotes, Nat.not_lt.mp large, (Except.error.inj refused).symm⟩
    · have undenoted : ∀ n, ¬ Decimal.Denotes token.toList n := fun n denotes => denoted ⟨n, denotes⟩
      rw [parse_of_not_denotes undenoted] at refused
      exact Or.inr ⟨undenoted, (Except.error.inj refused).symm⟩
  · rintro (⟨n, denotes, large, rfl⟩ | ⟨undenoted, rfl⟩)
    · rw [parse_of_denotes denotes, fit, if_neg (Nat.not_lt.mpr large)]
    · exact parse_of_not_denotes undenoted width

end Immediate
end StoredProgram
