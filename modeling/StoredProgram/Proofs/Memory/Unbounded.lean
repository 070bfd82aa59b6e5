import StoredProgram.Memory.Literal
import StoredProgram.Proofs.Memory

set_option autoImplicit false

namespace StoredProgram

/-- A word that is not negative is the same in both readings. -/
theorem Word.toInt_of_nonneg {w : Word} (nonnegative : 0 ≤ w.toInt) : w.toInt = w.toNat := by
  rw [BitVec.toInt_eq_toNat_cond] at nonnegative ⊢
  have bound := w.isLt
  split at nonnegative <;> omega

/-- If the last step of a computation cannot fail, the failure is an earlier one. -/
theorem error_of_bind_pure {ε α β : Type} {x : Except ε α} {f : α → β} {e : ε}
    (failed : (x >>= fun a => pure (f a)) = .error e) : x = .error e := by
  cases x with
  | error other => exact congrArg Except.error (Except.error.inj failed)
  | ok a => cases failed

namespace Memory

/-- The signed number in a cell, given by any integer as its address. -/
def numberAt (m : Memory) (address : Int) : Except Fault Int :=
  if 0 ≤ address ∧ address < m.size then .ok (m.cell address.toNat).toInt
  else .error (.addressOutOfBounds (BitVec.ofInt 32 address))

/-- The character with a number as its code point, if it is a Unicode scalar value. -/
def scalar (n : Int) : Except Fault Char :=
  if 0 ≤ n ∧ n.toNat.isValidChar then .ok (Char.ofNat n.toNat)
  else .error (.literal (.invalidCodePoint (BitVec.ofInt 32 n)))

def scalarAt (m : Memory) (address : Int) : Except Fault Char := do scalar (← m.numberAt address)

/-- Literal `index` of the pool that starts at `base`. The characters are read one after the other, and the
first one that cannot be read ends the reading. -/
def literalAt (m : Memory) (base index : Nat) : Except Fault String := do
  let count ← m.numberAt base
  if count ≤ index then
    throw (.literal (.outOfRange (BitVec.ofNat 32 index)))
  else
    let offset ← m.numberAt (base + index)
    if offset < count then
      throw (.literal (.outOfRange (BitVec.ofNat 32 index)))
    else
      let length ← m.numberAt (base + offset)
      let chars ← (List.range length.toNat).mapM fun k : Nat => m.scalarAt (base + offset + 1 + k)
      return String.ofList chars

section
variable {m : Memory} (small : m.size < 2147483648)
include small

/-- The addresses are all of the unsigned words, so those that are negative as signed words are among them. -/
theorem inBounds_iff {n : Nat} (word : n < 4294967296) : m.InBounds (BitVec.ofNat 32 n) ↔ n < m.size := by
  have number := Word.toNat_ofNat_of_small word
  unfold InBounds
  rw [BitVec.toInt_eq_toNat_cond, number]
  split <;> omega

/-- A cell has both readings, or they fail with the same fault. -/
theorem read_cases {n : Nat} (word : n < 4294967296) :
    (∃ w, m.read (BitVec.ofNat 32 n) = .ok w ∧ m.numberAt n = .ok w.toInt ∧ n < m.size) ∨
      ∃ fault, m.read (BitVec.ofNat 32 n) = .error fault ∧ m.numberAt n = .error fault := by
  have number := Word.toNat_ofNat_of_small word
  by_cases within : n < m.size
  · left
    refine ⟨m.cell n, ?_, ?_, within⟩
    · rw [read, if_pos ((inBounds_iff small word).mpr within), number]
    · rw [numberAt, if_pos (by omega), Int.toNat_natCast]
  · right
    refine ⟨.addressOutOfBounds (BitVec.ofNat 32 n), ?_, ?_⟩
    · rw [read, if_neg (mt (inBounds_iff small word).mp within)]
    · rw [numberAt, if_neg (by omega), BitVec.ofInt_natCast]

/-- The same for an address that is the sum of two words, the second of which is the number `n`. -/
theorem read_add_cases (base : Nat) (w : Word) {n : Int} (number : n = w.toNat)
    (word : base + w.toNat < 4294967296) :
    (∃ v, m.read (BitVec.ofNat 32 base + w) = .ok v ∧ m.numberAt (base + n) = .ok v.toInt ∧
        base + w.toNat < m.size) ∨
      ∃ fault, m.read (BitVec.ofNat 32 base + w) = .error fault ∧
        m.numberAt (base + n) = .error fault := by
  have address : (base : Int) + n = (base + w.toNat : Nat) := by omega
  rw [Word.ofNat_add_word, address]
  exact read_cases small word

omit small in
theorem scalar_toInt (w : Word) : scalar w.toInt = w.char.mapError Fault.literal := by
  unfold scalar Word.char
  rw [BitVec.ofInt_toInt]
  by_cases low : w.toNat < 2147483648
  · rw [Word.toInt_of_small low, Int.toNat_natCast]
    by_cases valid : w.toNat.isValidChar
    · rw [if_pos ⟨Int.natCast_nonneg _, valid⟩, if_pos valid]
      rfl
    · rw [if_neg (fun both => valid both.2), if_neg valid]
      rfl
  · have invalid : ¬ w.toNat.isValidChar := by
      unfold Nat.isValidChar
      omega
    have negative : ¬ 0 ≤ w.toInt := by
      rw [BitVec.toInt_eq_toNat_cond]
      have bound := w.isLt
      split <;> omega
    rw [if_neg (fun both => negative both.1), if_neg invalid]
    rfl

omit small in
theorem scalarAt_inside {address : Int} (inside : 0 ≤ address ∧ address < m.size) :
    m.scalarAt address = (m.cell address.toNat).char.mapError Fault.literal := by
  rw [scalarAt, numberAt, if_pos inside]
  exact scalar_toInt _

omit small in
theorem scalarAt_outside {address : Int} (outside : ¬ (0 ≤ address ∧ address < m.size)) :
    m.scalarAt address = .error (.addressOutOfBounds (BitVec.ofInt 32 address)) := by
  rw [scalarAt, numberAt, if_neg outside]
  rfl

theorem char_eq {n : Nat} (word : n < 4294967296) : m.char (BitVec.ofNat 32 n) = m.scalarAt n := by
  rcases read_cases small word with ⟨w, present, number, _⟩ | ⟨fault, absent, number⟩
  · rw [char, scalarAt, present, number]
    simp only [bind, Except.bind]
    rw [scalar_toInt]
    cases w.char <;> rfl
  · rw [char, scalarAt, absent, number]
    rfl

theorem charsFrom_eq (start count k : Nat) (word : start + k + count ≤ 4294967296)
    (done : List Char) :
    m.charsFrom done (BitVec.ofNat 32 (start + k)) count =
      ((List.range' k count).mapM fun k : Nat => m.scalarAt (start + k)).map (done.reverse ++ ·) := by
  induction count generalizing k done with
  | zero => exact congrArg Except.ok (List.append_nil done.reverse).symm
  | succ count ih =>
      rw [charsFrom, char_eq small (by omega), List.range'_succ, List.mapM_cons, Int.natCast_add]
      cases m.scalarAt (start + k) with
      | error fault => rfl
      | ok c =>
          change m.charsFrom (c :: done) (BitVec.ofNat 32 (start + k) + 1) count = _
          rw [Word.ofNat_add_one, Nat.add_assoc, ih (k + 1) (by omega)]
          cases (List.range' (k + 1) count).mapM fun k : Nat => m.scalarAt (start + k) with
          | error fault => rfl
          | ok cs =>
              rw [List.reverse_cons]
              exact congrArg Except.ok (List.append_assoc done.reverse [c] cs)

/-- The characters behind the length of a literal. -/
theorem charsFrom_add_eq (base : Nat) {offset : Word} {n : Int} (number : n = offset.toNat)
    (count : Nat) (word : base + offset.toNat + 1 + count ≤ 4294967296) :
    m.charsFrom [] (BitVec.ofNat 32 base + offset + 1) count =
      (List.range count).mapM fun k : Nat => m.scalarAt (base + n + 1 + k) := by
  have address : BitVec.ofNat 32 base + offset + 1 = BitVec.ofNat 32 (base + offset.toNat + 1 + 0) := by
    rw [Word.ofNat_add_word, Word.ofNat_add_one]
  have start : (base : Int) + n + 1 = (base + offset.toNat + 1 : Nat) := by omega
  rw [address, charsFrom_eq small _ _ 0 (by omega), start, List.range_eq_range']
  cases (List.range' 0 count).mapM fun k : Nat => m.scalarAt ((base + offset.toNat + 1 : Nat) + k) <;> rfl

/-- The machine's reading of a literal is the one without bounds on numbers. -/
theorem literal_eq_literalAt {base : Nat} (within : base ≤ m.size) (index : Word) :
    m.literal (BitVec.ofNat 32 base) index = m.literalAt base index.toNat := by
  have named : BitVec.ofNat 32 index.toNat = index := by rw [BitVec.ofNat_toNat, BitVec.setWidth_eq]
  rcases read_cases small (n := base) (by omega) with
    ⟨count, first, firstNumber, _⟩ | ⟨fault, first, firstNumber⟩
  · by_cases listed : count.toInt ≤ index.toNat
    · simp only [literal, literalAt, first, firstNumber, bind, Except.bind, listed, if_true, named]
      rfl
    -- A count above the index keeps the index small, and so the address of the offset.
    have upper := count.toInt_lt
    rcases read_add_cases small base index rfl (by omega) with
      ⟨offset, entry, entryNumber, _⟩ | ⟨fault, entry, entryNumber⟩
    · by_cases back : offset.toInt < count.toInt
      · simp only [literal, literalAt, first, firstNumber, bind, Except.bind, listed, if_false, entry,
          entryNumber, back, if_true, named]
        rfl
      -- An offset that is not below the count is not negative.
      have number : offset.toInt = offset.toNat := Word.toInt_of_nonneg (by omega)
      have offsetUpper := offset.toInt_lt
      rcases read_add_cases small base offset number (by omega) with
        ⟨length, block, blockNumber, inside⟩ | ⟨fault, block, blockNumber⟩
      · have lengthUpper := length.toInt_lt
        have text := charsFrom_add_eq small base number length.toInt.toNat (by omega)
        simp only [literal, literalAt, first, firstNumber, bind, Except.bind, listed, if_false, entry,
          entryNumber, back, block, blockNumber, text]
      · simp only [literal, literalAt, first, firstNumber, bind, Except.bind, listed, if_false, entry,
          entryNumber, back, block, blockNumber]
    · simp only [literal, literalAt, first, firstNumber, bind, Except.bind, listed, if_false, entry,
        entryNumber]
  · simp only [literal, literalAt, first, firstNumber, bind, Except.bind]

/-- Characters that are read from within memory on are out of bounds at its end, and nowhere else. -/
theorem toInt_of_outOfBounds {start count : Nat} {address : Word} (k : Nat)
    (within : start + k ≤ m.size)
    (failed : ((List.range' k count).mapM fun k : Nat => m.scalarAt (start + k)) =
      .error (.addressOutOfBounds address)) : address.toInt = m.size := by
  induction count generalizing k with
  | zero => cases failed
  | succ count ih =>
      rw [List.range'_succ, List.mapM_cons] at failed
      by_cases inside : start + k < m.size
      · have valid : 0 ≤ (start + k : Int) ∧ (start + k : Int) < m.size := by omega
        rw [scalarAt_inside valid] at failed
        cases found : (m.cell (start + k : Int).toNat).char with
        | error e =>
            rw [found] at failed
            cases failed
        | ok c =>
            rw [found] at failed
            apply ih (k + 1) (by omega)
            exact error_of_bind_pure failed
      · have last : start + k = m.size := by omega
        have invalid : ¬ (0 ≤ (start + k : Int) ∧ (start + k : Int) < m.size) := by omega
        rw [scalarAt_outside invalid, ← Int.natCast_add, last] at failed
        have same : BitVec.ofInt 32 (m.size : Int) = address :=
          Fault.addressOutOfBounds.inj (Except.error.inj failed)
        have number := Word.toNat_ofNat_of_small (n := m.size) (by omega)
        rw [← same, BitVec.ofInt_natCast, Word.toInt_of_small (by omega), number]

/-- If the count, the offset and the length of a literal can be read, the only address out of bounds is the
first one behind the memory. -/
theorem toInt_of_literalAt_outOfBounds {base index : Nat} {count offset length : Int} {address : Word}
    (first : m.numberAt base = .ok count) (listed : index < count)
    (entry : m.numberAt (base + index) = .ok offset) (past : count ≤ offset)
    (block : m.numberAt (base + offset) = .ok length)
    (failed : m.literalAt base index = .error (.addressOutOfBounds address)) :
    address.toInt = m.size := by
  have counted : ¬ count ≤ index := by omega
  have behind : ¬ offset < count := by omega
  simp only [literalAt, first, bind, Except.bind, counted, if_false, entry, behind, block] at failed
  have inside : (base : Int) + offset < m.size := by
    unfold numberAt at block
    split at block
    · rename_i bounds
      exact bounds.2
    · cases block
  have start : (base : Int) + offset + 1 = (base + offset.toNat + 1 : Nat) := by omega
  rw [List.range_eq_range', start] at failed
  exact toInt_of_outOfBounds small 0 (by omega) (error_of_bind_pure failed)

end

/-- The cells in front of the pool have no part in its literals. -/
theorem numberAt_congr {m other : Memory} {base : Nat} (size : other.size = m.size)
    (same : ∀ k, base ≤ k → other.cell k = m.cell k) {address : Int} (behind : base ≤ address) :
    other.numberAt address = m.numberAt address := by
  rw [numberAt, numberAt, size, same address.toNat (by omega)]

theorem bind_congr_of_ok {ε α β : Type} {x y : Except ε α} {f g : α → Except ε β} (same : x = y)
    (rest : ∀ a, y = .ok a → f a = g a) : (x >>= f) = (y >>= g) := by
  rw [same]
  cases y with
  | error e => rfl
  | ok a => exact rest a rfl

theorem literalAt_congr {m other : Memory} {base : Nat} (size : other.size = m.size)
    (same : ∀ k, base ≤ k → other.cell k = m.cell k) (index : Nat) :
    other.literalAt base index = m.literalAt base index := by
  unfold literalAt
  apply bind_congr_of_ok (numberAt_congr size same (Int.le_refl _))
  intro count _
  split
  · rfl
  apply bind_congr_of_ok (numberAt_congr size same (by omega))
  intro offset _
  split
  · rfl
  apply bind_congr_of_ok (numberAt_congr size same (by omega))
  intro length _
  have chars : (fun k : Nat => other.scalarAt (base + offset + 1 + k)) =
      fun k : Nat => m.scalarAt (base + offset + 1 + k) := by
    funext k
    rw [scalarAt, numberAt_congr size same (by omega), scalarAt]
  rw [chars]

end Memory
end StoredProgram
