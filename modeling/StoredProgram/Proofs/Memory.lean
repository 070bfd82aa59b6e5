import StoredProgram.Memory

set_option autoImplicit false

namespace StoredProgram

/-- A word below the signed limit is the same in both readings. -/
theorem Word.toInt_of_small {w : Word} (small : w.toNat < 2147483648) : w.toInt = w.toNat := by
  rw [BitVec.toInt_eq_toNat_cond]
  split <;> omega

theorem Word.toNat_ofNat_of_small {n : Nat} (small : n < 4294967296) : (BitVec.ofNat 32 n).toNat = n := by
  rw [BitVec.toNat_ofNat]
  omega

theorem Word.ofNat_add_word (n : Nat) (w : Word) :
    BitVec.ofNat 32 n + w = BitVec.ofNat 32 (n + w.toNat) := by
  rw [BitVec.ofNat_add, BitVec.ofNat_toNat, BitVec.setWidth_eq]

theorem Word.ofNat_add_one (n : Nat) : BitVec.ofNat 32 n + 1 = BitVec.ofNat 32 (n + 1) :=
  (BitVec.ofNat_add n 1).symm

namespace Memory

variable {m : Memory} {start : Nat} {words : List Word}

/-- The words stand in the cells from `start` on. -/
structure Holds (m : Memory) (start : Nat) (words : List Word) : Prop where
  fits : start + words.length ≤ m.size
  cell : ∀ k word, words[k]? = some word → m.cell (start + k) = word

theorem inBounds_ofNat {i : Nat} (small : i < 2147483648) (within : i < m.size) :
    m.InBounds (BitVec.ofNat 32 i) := by
  have number := Word.toNat_ofNat_of_small (n := i) (by omega)
  have signed := Word.toInt_of_small (w := BitVec.ofNat 32 i) (by omega)
  unfold InBounds
  omega

theorem InBounds.positive {address : Word} (within : m.InBounds address) : 0 < m.size := by
  have lower := within.1
  have upper := within.2
  omega

theorem InBounds.toInt_eq {address : Word} (within : m.InBounds address) :
    address.toInt = address.toNat := by
  have lower := within.1
  rw [BitVec.toInt_eq_toNat_cond] at lower ⊢
  split <;> omega

/-- The address behind one of a cell does not wrap around. -/
theorem InBounds.toNat_succ {address : Word} (within : m.InBounds address) :
    (address + 1).toNat = address.toNat + 1 := by
  have signed := within.toInt_eq
  have upper := address.toInt_lt
  have one : (1 : Word).toNat = 1 := rfl
  rw [BitVec.toNat_add]
  omega

theorem read_inside {address : Word} (within : m.InBounds address) :
    m.read address = .ok (m.cell address.toNat) := if_pos within

theorem read_outside {address : Word} (outside : ¬ m.InBounds address) :
    m.read address = .error (.addressOutOfBounds address) := if_neg outside

theorem read_congr {m' : Memory} {address : Word} (size : m'.size = m.size)
    (same : m'.cell address.toNat = m.cell address.toNat) : m'.read address = m.read address := by
  have bounds : m'.InBounds address = m.InBounds address := by rw [InBounds, size, InBounds]
  rw [read, same, read]
  exact ite_congr bounds (fun _ => rfl) (fun _ => rfl)

theorem inBounds_of_read {address w : Word} (present : m.read address = .ok w) : m.InBounds address := by
  by_cases within : m.InBounds address
  · exact within
  · rw [read_outside within] at present
    cases present

theorem read_ofNat {i : Nat} (small : i < 2147483648) (within : i < m.size) :
    m.read (BitVec.ofNat 32 i) = .ok (m.cell i) := by
  rw [read_inside (inBounds_ofNat small within), Word.toNat_ofNat_of_small (by omega)]

theorem Holds.read {k : Nat} {word : Word} (holds : m.Holds start words) (few : m.size < 2147483648)
    (listed : words[k]? = some word) : m.read (BitVec.ofNat 32 (start + k)) = .ok word := by
  obtain ⟨within, _⟩ := List.getElem?_eq_some_iff.mp listed
  have fits := holds.fits
  rw [read_ofNat (by omega) (by omega), holds.cell k word listed]

theorem Holds.read_first {word : Word} (holds : m.Holds start words) (few : m.size < 2147483648)
    (listed : words[0]? = some word) : m.read (BitVec.ofNat 32 start) = .ok word := by
  have present := holds.read few listed
  rwa [Nat.add_zero] at present

/-- A part of the words stands in a part of the cells. -/
theorem Holds.part (holds : m.Holds start words) (skip length : Nat) (room : skip + length ≤ words.length) :
    m.Holds (start + skip) ((words.drop skip).take length) := by
  have fits := holds.fits
  constructor
  · rw [List.length_take, List.length_drop]
    omega
  · intro k word listed
    rw [List.getElem?_take] at listed
    split at listed
    · rw [List.getElem?_drop] at listed
      rw [Nat.add_assoc]
      exact holds.cell (skip + k) word listed
    · cases listed

theorem Holds.tail {word : Word} (holds : m.Holds start (word :: words)) :
    m.Holds (start + 1) words := by
  have fits := holds.fits
  rw [List.length_cons] at fits
  refine ⟨by omega, ?_⟩
  intro k other listed
  rw [Nat.add_assoc, Nat.add_comm 1]
  exact holds.cell (k + 1) other listed

theorem Holds.back {front : List Word} (holds : m.Holds start (front ++ words)) :
    m.Holds (start + front.length) words := by
  have part := holds.part front.length words.length (by simp)
  rwa [List.drop_left, List.take_length] at part

/-- Only the cells that the words stand in count. -/
theorem Holds.congr {m' : Memory} (holds : m.Holds start words) (size : m'.size = m.size)
    (same : ∀ i, start ≤ i → i < start + words.length → m'.cell i = m.cell i) :
    m'.Holds start words := by
  refine ⟨size ▸ holds.fits, ?_⟩
  intro k word listed
  obtain ⟨within, _⟩ := List.getElem?_eq_some_iff.mp listed
  rw [same (start + k) (by omega) (by omega)]
  exact holds.cell k word listed

theorem Holds.put_before (holds : m.Holds start words) {i : Nat} (before : i < start) (value : Word) :
    (m.put i value).Holds start words := by
  apply holds.congr (size_put m i value)
  intro j after _
  exact cell_put_other m value (by omega)

theorem cell_put {i : Nat} (within : i < m.size) (value : Word) (k : Nat) :
    (m.put i value).cell k = if k = i then value else m.cell k := by
  by_cases same : k = i
  · rw [if_pos same, same, cell_put_same m value within]
  · rw [if_neg same, cell_put_other m value (Ne.symm same)]

/-- Of two words put in one cell the second one remains. -/
theorem put_put (m : Memory) (i : Nat) (first second : Word) :
    (m.put i first).put i second = m.put i second := by
  simp only [put]
  congr 2
  apply Array.ext
  · simp
  · intro j _ _
    simp only [Array.getElem_modify]
    split
    · exact Vector.set_set _ _
    · rfl

theorem size_putAll (words : List Word) (m : Memory) (start : Nat) :
    (m.putAll start words).size = m.size := by
  induction words generalizing m start with
  | nil => rfl
  | cons word words ih => rw [putAll, ih, size_put]

theorem putAll_append (m : Memory) (start : Nat) (front back : List Word) :
    m.putAll start (front ++ back) = (m.putAll start front).putAll (start + front.length) back := by
  induction front generalizing m start with
  | nil => rfl
  | cons word front ih =>
      rw [List.cons_append, putAll, putAll, ih, List.length_cons, Nat.add_assoc, Nat.add_comm 1]

theorem cell_putAll_outside {i : Nat} (outside : i < start ∨ start + words.length ≤ i) (m : Memory) :
    (m.putAll start words).cell i = m.cell i := by
  induction words generalizing m start with
  | nil => rfl
  | cons word words ih =>
      rw [List.length_cons] at outside
      rw [putAll, ih (by omega), cell_put_other m word (by omega)]

/-- Words are found where they were put. -/
theorem holds_putAll {m : Memory} (fits : start + words.length ≤ m.size) :
    (m.putAll start words).Holds start words := by
  induction words generalizing m start with
  | nil => exact ⟨fits, by simp⟩
  | cons word words ih =>
      rw [List.length_cons] at fits
      have rest : ((m.put start word).putAll (start + 1) words).Holds (start + 1) words :=
        ih (by rw [size_put]; omega)
      refine ⟨by rw [putAll, size_putAll, size_put, List.length_cons]; exact fits, ?_⟩
      intro k other listed
      cases k with
      | zero =>
          cases listed
          rw [putAll, cell_putAll_outside (by omega)]
          exact cell_put_same m word (by omega)
      | succ k =>
          rw [List.getElem?_cons_succ] at listed
          rw [putAll, Nat.add_comm k, ← Nat.add_assoc]
          exact rest.cell k other listed

end Memory
end StoredProgram
