import StoredProgram.Memory.Literal
import StoredProgram.Proofs.Instruction.Codec
import StoredProgram.Proofs.LiteralPool
import StoredProgram.Proofs.Memory

set_option autoImplicit false

namespace StoredProgram

namespace LiteralPool

variable {packed : List Word} {index : Word}

/-- A look-up goes as far as the characters, or the words have no such literal. -/
theorem lookup_cases (packed : List Word) (index : Word) :
    lookup packed index = .error (.outOfRange index) ∨
      ∃ count offset length, packed[0]? = some count ∧ index.toNat < count.toNat ∧
        packed[index.toNat]? = some offset ∧ count.toNat ≤ offset.toNat ∧
        packed[offset.toNat]? = some length ∧ offset.toNat + 1 + length.toNat ≤ packed.length ∧
        lookup packed index =
          (((packed.drop (offset.toNat + 1)).take length.toNat).mapM Word.char).map String.ofList := by
  cases first : packed[0]? with
  | none => exact Or.inl (by simp only [lookup, first]; rfl)
  | some count =>
  by_cases listed : count ≤ index
  · exact Or.inl (by simp only [lookup, first, listed, if_true]; rfl)
  cases entry : packed[index.toNat]? with
  | none => exact Or.inl (by simp only [lookup, first, listed, if_false, entry]; rfl)
  | some offset =>
  by_cases past : offset < count
  · exact Or.inl (by simp only [lookup, first, listed, if_false, entry, past, if_true]; rfl)
  cases block : packed[offset.toNat]? with
  | none => exact Or.inl (by simp only [lookup, first, listed, if_false, entry, past, block]; rfl)
  | some length =>
  by_cases room : packed.length < offset.toNat + 1 + length.toNat
  · exact Or.inl (by
      simp only [lookup, first, listed, if_false, entry, past, block, room, if_true]; rfl)
  have below : index.toNat < count.toNat := by simpa [BitVec.le_def] using listed
  have behind : count.toNat ≤ offset.toNat := by simpa [BitVec.lt_def] using past
  have result : lookup packed index =
      (((packed.drop (offset.toNat + 1)).take length.toNat).mapM Word.char).map String.ofList := by
    simp only [lookup, first, listed, if_false, entry, past, block, room]
    cases ((packed.drop (offset.toNat + 1)).take length.toNat).mapM Word.char <;> rfl
  exact Or.inr ⟨count, offset, length, rfl, below, rfl, behind, block, Nat.not_lt.mp room, result⟩

end LiteralPool

namespace Memory

variable {m : Memory} {start base : Nat} {words packed : List Word} {index : Word}

theorem char_of_read {address word : Word} (present : m.read address = .ok word) :
    m.char address = word.char.mapError Fault.literal := by
  rw [char, present]
  cases found : word.char <;> simp only [bind, Except.bind, found] <;> rfl

/-- Words that stand in memory are read as the same characters there, up to the first one that is
none. -/
theorem charsFrom_of_holds (holds : m.Holds start words) (few : m.size < 2147483648)
    (done : List Char) :
    m.charsFrom done (BitVec.ofNat 32 start) words.length =
      ((words.mapM Word.char).map (done.reverse ++ ·)).mapError Fault.literal := by
  induction words generalizing start done with
  | nil =>
      rw [List.length_nil, charsFrom, List.mapM_nil]
      exact congrArg Except.ok (List.append_nil done.reverse).symm
  | cons word words ih =>
      have present : m.read (BitVec.ofNat 32 start) = .ok word := holds.read_first few rfl
      rw [List.length_cons, charsFrom, char_of_read present, List.mapM_cons,
        Word.ofNat_add_one]
      cases word.char with
      | error e => rfl
      | ok c =>
          change m.charsFrom (c :: done) (BitVec.ofNat 32 (start + 1)) words.length = _
          rw [ih holds.tail]
          cases words.mapM Word.char with
          | error e => rfl
          | ok cs =>
              rw [List.reverse_cons]
              exact congrArg Except.ok (List.append_assoc done.reverse [c] cs)

/-- The conditions under which memory has the literal, as far as its characters allow. -/
theorem literal_of_parts {address count offset length : Word} (first : m.read address = .ok count)
    (listed : index.toNat < count.toInt) (entry : m.read (address + index) = .ok offset)
    (past : count.toInt ≤ offset.toInt) (block : m.read (address + offset) = .ok length) :
    m.literal address index =
      (m.charsFrom [] (address + offset + 1) length.toInt.toNat).map String.ofList := by
  have counted : ¬ count.toInt ≤ index.toNat := by omega
  have behind : ¬ offset.toInt < count.toInt := by omega
  simp only [literal, first, bind, Except.bind, counted, if_false, entry, behind, block]
  cases m.charsFrom [] (address + offset + 1) length.toInt.toNat <;> rfl

/-- Where a look-up finds characters, memory has the same ones. -/
theorem literal_of_lookup (holds : m.Holds base packed) (few : m.size < 2147483648)
    (found : LiteralPool.lookup packed index ≠ .error (.outOfRange index)) :
    m.literal (BitVec.ofNat 32 base) index =
      (LiteralPool.lookup packed index).mapError Fault.literal := by
  have fits := holds.fits
  rcases LiteralPool.lookup_cases packed index with
    missing | ⟨count, offset, length, first, listed, entry, past, block, room, result⟩
  · exact absurd missing found
  · -- All of the numbers are positions in the pool, so they are not negative as signed words.
    have countSigned := Word.toInt_of_small (w := count) (by omega)
    have offsetSigned := Word.toInt_of_small (w := offset) (by omega)
    have lengthSigned := Word.toInt_of_small (w := length) (by omega)
    have text := charsFrom_of_holds (holds.part (offset.toNat + 1) length.toNat room) few []
    have size : ((packed.drop (offset.toNat + 1)).take length.toNat).length = length.toNat := by
      rw [List.length_take, List.length_drop]
      omega
    have after : BitVec.ofNat 32 base + offset + 1 = BitVec.ofNat 32 (base + (offset.toNat + 1)) := by
      rw [Word.ofNat_add_word, Word.ofNat_add_one, Nat.add_assoc]
    have first' : m.read (BitVec.ofNat 32 base) = .ok count := holds.read_first few first
    have entry' : m.read (BitVec.ofNat 32 base + index) = .ok offset := by
      rw [Word.ofNat_add_word]
      exact holds.read few entry
    have block' : m.read (BitVec.ofNat 32 base + offset) = .ok length := by
      rw [Word.ofNat_add_word]
      exact holds.read few block
    rw [literal_of_parts first' (by omega) entry' (by omega) block', after, result]
    rw [size] at text
    rw [lengthSigned, Int.toNat_natCast, text]
    cases ((packed.drop (offset.toNat + 1)).take length.toNat).mapM Word.char <;> rfl

/-- An index behind the offsets, and an offset among the offsets, are out of range in memory too. -/
theorem literal_outOfRange (holds : m.Holds base packed) (few : m.size < 2147483648) {count : Word}
    (first : packed[0]? = some count)
    (outside : count.toNat ≤ index.toNat ∨
      ∃ offset, packed[index.toNat]? = some offset ∧ offset.toNat < count.toNat) :
    m.literal (BitVec.ofNat 32 base) index = .error (.literal (.outOfRange index)) := by
  have first' : m.read (BitVec.ofNat 32 base) = .ok count := holds.read_first few first
  have below : count.toInt ≤ count.toNat := by
    rw [BitVec.toInt_eq_toNat_cond]
    split <;> omega
  by_cases counted : count.toInt ≤ index.toNat
  · simp only [literal, first', bind, Except.bind, counted, if_true]
    rfl
  · obtain ⟨offset, entry, back⟩ : ∃ offset, packed[index.toNat]? = some offset ∧
        offset.toNat < count.toNat := by
      rcases outside with far | back
      · omega
      · exact back
    -- The count is positive as a signed word, so both numbers are the same in both readings.
    have countSigned : count.toInt = count.toNat := by
      rw [BitVec.toInt_eq_toNat_cond] at counted ⊢
      split <;> omega
    have offsetSigned := Word.toInt_of_small (w := offset) (by
      rw [BitVec.toInt_eq_toNat_cond] at countSigned
      omega)
    have behind : offset.toInt < count.toInt := by omega
    have entry' : m.read (BitVec.ofNat 32 base + index) = .ok offset := by
      rw [Word.ofNat_add_word]
      exact holds.read few entry
    simp only [literal, first', bind, Except.bind, counted, if_false, entry', behind, if_true]
    rfl

end Memory
end StoredProgram
