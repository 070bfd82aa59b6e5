import StoredProgram.Instruction.Codec

set_option autoImplicit false

namespace StoredProgram

theorem exists_of_bind_eq_ok {ε α β : Type} {x : Except ε α} {f : α → Except ε β} {b : β}
    (success : x >>= f = .ok b) : ∃ a, x = .ok a ∧ f a = .ok b := by
  cases x with
  | error e => cases success
  | ok a => exact ⟨a, rfl, success⟩

theorem eq_ok_of_toOption {ε α : Type} {x : Except ε α} {a : α} (found : x.toOption = some a) :
    x = .ok a := by
  cases x with
  | error e => cases found
  | ok b => exact congrArg Except.ok (Option.some.inj found)

theorem eq_error_of_match {ε α : Type} {x : Except ε α} {e : ε}
    (found : (match x with | .error e => some e | .ok _ => none) = some e) : x = .error e := by
  cases x with
  | error other => exact congrArg Except.error (Option.some.inj found)
  | ok a => cases found

theorem Opcode.decode_of_code {w : Word} {op : Opcode} (code : w.extractLsb' 27 5 = op.code) :
    Opcode.decode w = .ok op := by
  rw [Opcode.decode, code, Opcode.ofCode?_code]

theorem Opcode.code_of_decode {w : Word} {op : Opcode} (success : Opcode.decode w = .ok op) :
    w.extractLsb' 27 5 = op.code := by
  unfold decode at success
  split at success
  · rename_i found
    cases success
    exact BitVec.eq_of_toNat_eq (code_of_ofCode? found).symm
  · cases success

theorem Opcode.ofCode?_eq_none_iff {n : Nat} : ofCode? n = none ↔ 19 ≤ n :=
  List.getElem?_eq_none_iff

theorem Word.toNat_code (w : Word) : (w.extractLsb' 27 5).toNat = w.toNat / 134217728 := by
  have within := w.isLt
  rw [BitVec.extractLsb'_toNat, Nat.shiftRight_eq_div_pow]
  omega

theorem Opcode.decode_eq_ok_iff {w : Word} {op : Opcode} :
    Opcode.decode w = .ok op ↔ op.code.toNat = w.toNat / 134217728 := by
  rw [← Word.toNat_code]
  constructor
  · intro success
    rw [code_of_decode success]
  · intro named
    exact decode_of_code (BitVec.eq_of_toNat_eq named.symm)

theorem Opcode.decode_eq_error_iff {w : Word} {e : DecodeError} :
    Opcode.decode w = .error e ↔ e = .unknownOpcode w ∧ 19 ≤ w.toNat / 134217728 := by
  rw [← Word.toNat_code, ← ofCode?_eq_none_iff, decode]
  cases ofCode? (w.extractLsb' 27 5).toNat with
  | some op => simp
  | none => simp [eq_comm]

/-- Low bits make up more than zero if one of them is set. -/
theorem Word.setWidth_ne_zero_iff (w : Word) (k : Nat) :
    w.setWidth k ≠ 0 ↔ ∃ i < k, w.getLsbD i = true := by
  constructor
  · intro nonzero
    apply Classical.byContradiction
    intro clear
    apply nonzero
    apply BitVec.eq_of_getLsbD_eq
    intro i low
    have unset : w.getLsbD i = false := by
      cases bit : w.getLsbD i with
      | false => rfl
      | true => exact absurd ⟨i, low, bit⟩ clear
    simp [low, unset]
  · rintro ⟨i, low, set⟩ zero
    have bit := congrArg (·.getLsbD i) zero
    simp [low, set] at bit

namespace Instruction

/-- The instruction with as much of its immediate as its layout has a place for. -/
def truncate : Instruction → Instruction
  | refImm op first immediate => refImm op first ((immediate.setWidth 20).setWidth 32)
  | imm op immediate => imm op ((immediate.setWidth 27).setWidth 32)
  | i => i

/-- The immediate fits in the place that the layout has for it. -/
def Fits : Instruction → Prop
  | refImm _ _ immediate => immediate.toNat < 1048576
  | imm _ immediate => immediate.toNat < 134217728
  | _ => True

theorem truncate_of_fits {i : Instruction} (fits : i.Fits) : i.truncate = i := by
  cases i with
  | refImm op first immediate =>
      have same : (immediate.setWidth 20).setWidth 32 = immediate := by
        apply BitVec.eq_of_toNat_eq
        simp only [Fits] at fits
        simp only [BitVec.toNat_setWidth]
        omega
      rw [truncate, same]
  | imm op immediate =>
      have same : (immediate.setWidth 27).setWidth 32 = immediate := by
        apply BitVec.eq_of_toNat_eq
        simp only [Fits] at fits
        simp only [BitVec.toNat_setWidth]
        omega
      rw [truncate, same]
  | _ => rfl

theorem decode_of_fields {w : Word} {op : Opcode} (code : w.extractLsb' 27 5 = op.code)
    (padding : w.setWidth op.shape.reservedBits = 0) : decode w = .ok (ofWord op w) := by
  simp only [decode, Opcode.decode_of_code code, bind, Except.bind, padding, if_true, pure, Except.pure]

section
open BitVec

variable (code : BitVec 5) (first second : BitVec 7)

theorem code_append_two (rest : BitVec 20) : extractLsb' 27 5 (code ++ first ++ rest) = code :=
  (extractLsb'_append_eq_of_le (show 20 ≤ 27 by decide)).trans extractLsb'_append_eq_left

theorem first_append (rest : BitVec 20) : extractLsb' 20 7 (code ++ first ++ rest) = first :=
  (extractLsb'_append_eq_of_le (show 20 ≤ 20 by decide)).trans extractLsb'_append_eq_right

theorem code_append_three (rest : BitVec 13) :
    extractLsb' 27 5 (code ++ first ++ second ++ rest) = code :=
  (extractLsb'_append_eq_of_le (show 13 ≤ 27 by decide)).trans
    ((extractLsb'_append_eq_of_le (show 7 ≤ 14 by decide)).trans extractLsb'_append_eq_left)

theorem first_append_two (rest : BitVec 13) :
    extractLsb' 20 7 (code ++ first ++ second ++ rest) = first :=
  (extractLsb'_append_eq_of_le (show 13 ≤ 20 by decide)).trans
    ((extractLsb'_append_eq_of_le (show 7 ≤ 7 by decide)).trans extractLsb'_append_eq_right)

theorem second_append (rest : BitVec 13) :
    extractLsb' 13 7 (code ++ first ++ second ++ rest) = second :=
  (extractLsb'_append_eq_of_le (show 13 ≤ 13 by decide)).trans extractLsb'_append_eq_right

end

theorem code_encode (i : Instruction) : i.encode.extractLsb' 27 5 = i.opcode.code := by
  cases i with
  | twoRef op first second => exact code_append_three _ _ _ _
  | refImm op first immediate => exact code_append_two _ _ _
  | ref op first => exact code_append_two _ _ _
  | imm op immediate => exact BitVec.extractLsb'_append_eq_left
  | bare op => exact BitVec.extractLsb'_append_eq_left

theorem padding_encode (i : Instruction) : i.encode.setWidth i.opcode.shape.reservedBits = 0 := by
  cases i with
  | refImm op first immediate => exact BitVec.of_length_zero
  | imm op immediate => exact BitVec.of_length_zero
  | _ => exact BitVec.setWidth_append_eq_right

theorem ofWord_encode (i : Instruction) : ofWord i.opcode i.encode = i.truncate := by
  cases i with
  | twoRef op first second =>
      have left : firstField (encode (twoRef op first second)) = first :=
        (congrArg Reference.ofBits (first_append_two _ _ _ _)).trans (Reference.ofBits_bits first)
      have right : secondField (encode (twoRef op first second)) = second :=
        (congrArg Reference.ofBits (second_append _ _ _ _)).trans (Reference.ofBits_bits second)
      simp only [opcode, ofWord, left, right, truncate]
  | refImm op first immediate =>
      have left : firstField (encode (refImm op first immediate)) = first :=
        (congrArg Reference.ofBits (first_append _ _ _)).trans (Reference.ofBits_bits first)
      have low : (encode (refImm op first immediate)).setWidth 20 = immediate.setWidth 20 :=
        BitVec.setWidth_append_eq_right
      simp only [opcode, ofWord, left, low, truncate]
  | ref op first =>
      have left : firstField (encode (ref op first)) = first :=
        (congrArg Reference.ofBits (first_append _ _ _)).trans (Reference.ofBits_bits first)
      simp only [opcode, ofWord, left, truncate]
  | imm op immediate =>
      have low : (encode (imm op immediate)).setWidth 27 = immediate.setWidth 27 :=
        BitVec.setWidth_append_eq_right
      simp only [opcode, ofWord, low, truncate]
  | bare op => rfl

theorem decode_encode (i : Instruction) : decode i.encode = .ok i.truncate := by
  rw [decode_of_fields (code_encode i) (padding_encode i), ofWord_encode]

theorem decode_encode_of_fits {i : Instruction} (fits : i.Fits) : decode i.encode = .ok i := by
  rw [decode_encode, truncate_of_fits fits]

/-- A word that decodes has the code of some operation and no reserved bits. -/
theorem fields_of_decode {w : Word} {i : Instruction} (success : decode w = .ok i) :
    ∃ op, i = ofWord op w ∧ w.extractLsb' 27 5 = op.code ∧ w.setWidth op.shape.reservedBits = 0 := by
  unfold decode at success
  obtain ⟨op, named, checked⟩ := exists_of_bind_eq_ok success
  split at checked
  · rename_i padding
    exact ⟨op, (Except.ok.inj checked).symm, Opcode.code_of_decode named, padding⟩
  · cases checked

theorem opcode_of_decode {w : Word} {i : Instruction} (success : decode w = .ok i) :
    Opcode.decode w = .ok i.opcode := by
  obtain ⟨op, rfl, code, _⟩ := fields_of_decode success
  rw [opcode_ofWord, Opcode.decode_of_code code]

/-- Whatever decodes has an immediate that fits. -/
theorem fits_of_decode {w : Word} {i : Instruction} (success : decode w = .ok i) : i.Fits := by
  obtain ⟨op, rfl, _⟩ := fields_of_decode success
  cases op with
  | refImm op =>
      have bound := (w.setWidth 20).isLt
      simp only [ofWord, Fits, BitVec.toNat_setWidth] at bound ⊢
      omega
  | imm op =>
      have bound := (w.setWidth 27).isLt
      simp only [ofWord, Fits, BitVec.toNat_setWidth] at bound ⊢
      omega
  | _ => trivial

section
open BitVec

variable (w : Word)

theorem fields_two :
    extractLsb' 27 5 w ++ extractLsb' 20 7 w ++ extractLsb' 13 7 w ++ setWidth 13 w = w := by
  rw [setWidth_eq_extractLsb' (by decide), extractLsb'_append_extractLsb'_eq_extractLsb' (by decide),
    extractLsb'_append_extractLsb'_eq_extractLsb' (by decide),
    extractLsb'_append_extractLsb'_eq_extractLsb' (by decide)]
  exact extractLsb'_eq_self

theorem fields_one : extractLsb' 27 5 w ++ extractLsb' 20 7 w ++ setWidth 20 w = w := by
  rw [setWidth_eq_extractLsb' (by decide), extractLsb'_append_extractLsb'_eq_extractLsb' (by decide),
    extractLsb'_append_extractLsb'_eq_extractLsb' (by decide)]
  exact extractLsb'_eq_self

theorem fields_none : extractLsb' 27 5 w ++ setWidth 27 w = w := by
  rw [setWidth_eq_extractLsb' (by decide), extractLsb'_append_extractLsb'_eq_extractLsb' (by decide)]
  exact extractLsb'_eq_self

end

/-- The fields of a word have no gaps between them, so nothing but reserved bits can be lost. -/
theorem encode_ofWord {w : Word} {op : Opcode} (code : w.extractLsb' 27 5 = op.code)
    (padding : w.setWidth op.shape.reservedBits = 0) : (ofWord op w).encode = w := by
  cases op with
  | twoRef op =>
      have whole := fields_two w
      rw [code, show w.setWidth 13 = 0#13 from padding] at whole
      simpa only [ofWord, encode, opcode, firstField, secondField, Reference.bits_ofBits] using whole
  | refImm op =>
      have whole := fields_one w
      rw [code] at whole
      simpa [ofWord, encode, opcode, firstField] using whole
  | ref op =>
      have whole := fields_one w
      rw [code, show w.setWidth 20 = 0#20 from padding] at whole
      simpa only [ofWord, encode, opcode, firstField, Reference.bits_ofBits] using whole
  | imm op =>
      have whole := fields_none w
      rw [code] at whole
      simpa [ofWord, encode, opcode] using whole
  | bare op =>
      have whole := fields_none w
      rw [code, show w.setWidth 27 = 0#27 from padding] at whole
      exact whole

theorem encode_of_decode {w : Word} {i : Instruction} (success : decode w = .ok i) : i.encode = w := by
  obtain ⟨op, rfl, code, padding⟩ := fields_of_decode success
  exact encode_ofWord code padding

/-- Exactly the word of an instruction that fits decodes to it. -/
theorem decode_eq_ok_iff {w : Word} {i : Instruction} : decode w = .ok i ↔ i.Fits ∧ i.encode = w := by
  constructor
  · exact fun success => ⟨fits_of_decode success, encode_of_decode success⟩
  · rintro ⟨fits, rfl⟩
    exact decode_encode_of_fits fits

theorem decode_of_unknown {w : Word} (free : 19 ≤ w.toNat / 134217728) :
    decode w = .error (.unknownOpcode w) := by
  rw [decode, Opcode.decode_eq_error_iff.mpr ⟨rfl, free⟩]
  rfl

theorem decode_of_named {w : Word} {op : Opcode} (named : op.code.toNat = w.toNat / 134217728) :
    decode w = if w.setWidth op.shape.reservedBits = 0 then .ok (ofWord op w)
      else .error (.nonZeroPadding op w) := by
  rw [decode, Opcode.decode_eq_ok_iff.mpr named]
  rfl

/-- A word without an operation is refused for that, whatever its other bits are, and a word with one is
refused for its reserved bits only. -/
theorem decode_eq_error_iff {w : Word} {e : DecodeError} : decode w = .error e ↔
    (e = .unknownOpcode w ∧ 19 ≤ w.toNat / 134217728) ∨
      ∃ op, e = .nonZeroPadding op w ∧ op.code.toNat = w.toNat / 134217728 ∧
        ∃ k < op.shape.reservedBits, w.getLsbD k = true := by
  constructor
  · intro failed
    cases found : Opcode.decode w with
    | error other =>
        have free := (Opcode.decode_eq_error_iff.mp found).2
        rw [decode_of_unknown free] at failed
        exact Or.inl ⟨(Except.error.inj failed).symm, free⟩
    | ok op =>
        have named := Opcode.decode_eq_ok_iff.mp found
        rw [decode_of_named named] at failed
        split at failed
        · cases failed
        · rename_i padding
          exact Or.inr ⟨op, (Except.error.inj failed).symm, named,
            (Word.setWidth_ne_zero_iff w _).mp padding⟩
  · rintro (⟨rfl, free⟩ | ⟨op, rfl, named, set⟩)
    · exact decode_of_unknown free
    · rw [decode_of_named named, if_neg ((Word.setWidth_ne_zero_iff w _).mpr set)]

/-- What is left of the immediate is what fits in the width of its place. -/
theorem truncate_ofFields (op : Opcode) (first second : Reference) (immediate : Word) :
    (ofFields op first second immediate).truncate = ofFields op first second
      (BitVec.ofNat 32 (immediate.toNat % Nat.pow 2 (op.shape.immediateWidth?.getD 32))) := by
  cases op with
  | refImm op =>
      have same : (immediate.setWidth 20).setWidth 32 = BitVec.ofNat 32 (immediate.toNat % 1048576) := by
        apply BitVec.eq_of_toNat_eq
        simp only [BitVec.toNat_setWidth, BitVec.toNat_ofNat]
      exact congrArg (refImm op first) same
  | imm op =>
      have same : (immediate.setWidth 27).setWidth 32 =
          BitVec.ofNat 32 (immediate.toNat % 134217728) := by
        apply BitVec.eq_of_toNat_eq
        simp only [BitVec.toNat_setWidth, BitVec.toNat_ofNat]
      exact congrArg (imm op) same
  | _ => rfl

/-- Words and instructions match one to one. An instruction is read back from its word with its immediate
reduced to the width of its place; a word decodes to an instruction exactly if that instruction fits and
has this very word; and the words that are left are those without an operation, and those in which a bit
is set that the operation reserves. Shapes and the ranges of registers and levels are in the types. -/
theorem codec_exact :
    (∀ (op : Opcode) (first second : Reference) (immediate : Word),
      decode (ofFields op first second immediate).encode = .ok (ofFields op first second
        (BitVec.ofNat 32 (immediate.toNat % Nat.pow 2 (op.shape.immediateWidth?.getD 32))))) ∧
    (∀ (w : Word) (i : Instruction), decode w = .ok i ↔ i.Fits ∧ i.encode = w) ∧
    ∀ (w : Word) (e : DecodeError), decode w = .error e ↔
      (e = .unknownOpcode w ∧ 19 ≤ w.toNat / 134217728) ∨
        ∃ op, e = .nonZeroPadding op w ∧ op.code.toNat = w.toNat / 134217728 ∧
          ∃ k < op.shape.reservedBits, w.getLsbD k = true := by
  refine ⟨?_, fun w i => decode_eq_ok_iff, fun w e => decode_eq_error_iff⟩
  intro op first second immediate
  rw [decode_encode, truncate_ofFields]

/-- The fields stand in the order of the operands, with the most significant bit first. -/
example : encode (.twoRef .mov ⟨1, 3⟩ (.direct .sp)) = 0b00000_001_0011_000_0001_0000000000000 := by
  decide

end Instruction
end StoredProgram
