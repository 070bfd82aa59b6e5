import StoredProgram.Proofs.Machine.Faults

set_option autoImplicit false

namespace StoredProgram

/-- Adding to a word is adding integers, up to the size of a word. -/
theorem Word.ofInt_toInt_add (w : Word) (n : Int) :
    BitVec.ofInt 32 (w.toInt + n) = w + BitVec.ofInt 32 n := by
  rw [BitVec.ofInt_add, BitVec.ofInt_toInt]

theorem Word.ofInt_toInt_sub (w : Word) (n : Int) :
    BitVec.ofInt 32 (w.toInt - n) = w - BitVec.ofInt 32 n := by
  rw [Int.sub_eq_add_neg, Word.ofInt_toInt_add, BitVec.ofInt_neg, ← BitVec.sub_eq_add_neg]

/-- A word that is read as an unsigned number counts for the same, up to the size of a word. -/
theorem Word.ofInt_toNat (w : Word) : BitVec.ofInt 32 w.toNat = w := by
  rw [BitVec.ofInt_natCast, BitVec.ofNat_toNat, BitVec.setWidth_eq]

namespace Memory

variable {m : Memory} {address : Word}

/-- What is in each cell when a word is stored at an address. -/
def cellsWith (m : Memory) (address value : Word) (k : Nat) : Word :=
  if (k : Int) = address.toInt then value else m.cell k

/-- The memory with a word stored at an address, and the cell of the instruction pointer counted up after
that. -/
def assigned (m : Memory) (address value : Word) : Memory :=
  let stored := m.put address.toNat value
  stored.put 0 (stored.cell 0 + 1)

theorem cell_assigned (within : m.InBounds address) (value : Word) (k : Nat) :
    (m.assigned address value).cell k =
      if k = 0 then BitVec.ofInt 32 ((m.cellsWith address value 0).toInt + 1)
      else m.cellsWith address value k := by
  have signed := within.toInt_eq
  have upper := within.2
  have stored (k : Nat) : (m.put address.toNat value).cell k = m.cellsWith address value k := by
    rw [cell_put (by omega), cellsWith, signed]
    simp only [Int.natCast_inj]
  rw [assigned, cell_put (by rw [size_put]; omega), stored, stored, Word.ofInt_toInt_add]
  rfl

/-- A word that is stored in the cell of the instruction pointer is counted up itself. -/
theorem cell_assigned_pointer (within : m.InBounds address) (pointer : address.toInt = 0) (value : Word) :
    (m.assigned address value).cell 0 = BitVec.ofInt 32 (value.toInt + 1) := by
  have here : m.cellsWith address value 0 = value := if_pos pointer.symm
  rw [cell_assigned within, if_pos rfl, here]

end Memory

namespace Machine

/-- An instruction is about to store a word at an address. What its references denote, and the left operand
of a sum or a difference, are taken from the machine before the instruction. The left operand is in the
register of the destination itself, wherever the destination points. Sums and differences are those of
integers, up to the size of a word. -/
inductive Assigns (m : Machine) : Instruction → Word → Word → Prop where
  | move {destination source : Reference} {address value : Word}
      (target : m.resolve destination = .ok address) (right : m.resolve source = .ok value) :
      Assigns m (.twoRef .mov destination source) address value
  | add {destination source : Reference} {address term : Word}
      (target : m.resolve destination = .ok address) (right : m.resolve source = .ok term) :
      Assigns m (.twoRef .add destination source) address
        (BitVec.ofInt 32 ((m.register destination.register).toInt + term.toInt))
  | sub {destination source : Reference} {address term : Word}
      (target : m.resolve destination = .ok address) (right : m.resolve source = .ok term) :
      Assigns m (.twoRef .sub destination source) address
        (BitVec.ofInt 32 ((m.register destination.register).toInt - term.toInt))
  | addImm {destination : Reference} {address : Word} (immediate : Word)
      (target : m.resolve destination = .ok address) :
      Assigns m (.refImm .addImm destination immediate) address
        (BitVec.ofInt 32 ((m.register destination.register).toInt + immediate.toNat))
  | subImm {destination : Reference} {address : Word} (immediate : Word)
      (target : m.resolve destination = .ok address) :
      Assigns m (.refImm .subImm destination immediate) address
        (BitVec.ofInt 32 ((m.register destination.register).toInt - immediate.toNat))

variable {m m' : Machine} {i : Instruction} {address value : Word}

theorem Assigns.signal (assigns : m.Assigns i address value) : i.signal = .next := by
  cases assigns <;> rfl

theorem Assigns.perform (assigns : m.Assigns i address value) :
    m.perform i = m.stored address value := by
  cases assigns with
  | move target right =>
      rw [Machine.perform, target, right]
      rfl
  | add target right =>
      rw [Machine.perform, target, right, Word.ofInt_toInt_add, BitVec.ofInt_toInt]
      rfl
  | sub target right =>
      rw [Machine.perform, target, right, Word.ofInt_toInt_sub, BitVec.ofInt_toInt]
      rfl
  | addImm immediate target =>
      rw [Machine.perform, target, Word.ofInt_toInt_add, Word.ofInt_toNat]
      rfl
  | subImm immediate target =>
      rw [Machine.perform, target, Word.ofInt_toInt_sub, Word.ofInt_toNat]
      rfl

/-- The trace has no part in what an instruction assigns. -/
theorem Assigns.untraced (assigns : m.Assigns i address value) :
    { m with trace := false }.Assigns i address value := by
  cases assigns with
  | move target right => exact .move target right
  | add target right => exact .add target right
  | sub target right => exact .sub target right
  | addImm immediate target => exact .addImm immediate target
  | subImm immediate target => exact .subImm immediate target

theorem stored_eq (within : m.memory.InBounds address) (value : Word) :
    m.stored address value = .ok { m with memory := m.memory.assigned address value } := by
  rw [stored, write_eq_ok_iff.mpr ⟨within, rfl⟩]
  rfl

/-- A step leaves the memory that the instruction makes, traced or not. -/
theorem memory_step_of_perform (fetched : Action.fetch.outcome m = .ok i)
    (carried : m.inBody = false ∨ i.marksBody = true)
    (done : { m with trace := false }.perform i = .ok m') :
    Action.step.outcome m = .ok i.signal ∧ (Action.step.after m).memory = m'.memory := by
  have plain : Action.fetch.outcome { m with trace := false } = .ok i := (fetch_untraced m).trans fetched
  have leaves := (Action.step_of_perform rfl plain carried).2 m' done
  obtain ⟨_, output, reached, _⟩ := afterSteps_untraced m 1
  constructor
  · rw [outcome_step_of_perform fetched carried, done]
    rfl
  · rw [← leaves]
    exact (congrArg Machine.memory reached).symm

/-- An assignment puts its word in place and moves on. -/
theorem Assigns.step (assigns : m.Assigns i address value) (fetched : Action.fetch.outcome m = .ok i)
    (outside : m.inBody = false) (within : m.memory.InBounds address) :
    Action.step.outcome m = .ok .next ∧
      (Action.step.after m).memory = m.memory.assigned address value := by
  have done := assigns.untraced.perform.trans (stored_eq (m := { m with trace := false }) within value)
  obtain ⟨gives, leaves⟩ := memory_step_of_perform fetched (Or.inl outside) done
  exact ⟨by rw [gives, assigns.signal], leaves⟩

/-- An assignment takes effect whatever it is assigned to: a register, the instruction pointer, a word that
its own operands were found through, or the instruction itself. The word is stored, and then the cell of
the instruction pointer is counted up, so that a word stored there leads to the address behind it. Taking a
number off the instruction pointer leads as far back, and one on. -/
theorem assignment_takes_effect {config : Config} (reachable : m.Reachable config)
    (outside : m.inBody = false) {w : Word} (present : m.memory.read (m.register .ip) = .ok w) :
    (∀ i address value, Instruction.decode w = .ok i → m.Assigns i address value →
      m.memory.InBounds address →
        Action.step.outcome m = .ok .next ∧
        (Action.step.after m).memory.size = m.memory.size ∧
        (∀ k, (Action.step.after m).memory.cell k =
          if k = 0 then BitVec.ofInt 32 ((m.memory.cellsWith address value 0).toInt + 1)
          else m.memory.cellsWith address value k) ∧
        (address.toInt = 0 →
          (Action.step.after m).register .ip = BitVec.ofInt 32 (value.toInt + 1))) ∧
    ∀ k, Instruction.decode w = .ok (.refImm .subImm (.direct .ip) k) →
      Action.step.outcome m = .ok .next ∧
        ((Action.step.after m).register .ip).toInt = (m.register .ip).toInt - k.toNat + 1 := by
  constructor
  · intro i address value decoded assigns within
    obtain ⟨next, leaves⟩ := assigns.step (Action.fetch_of_read present decoded) outside within
    refine ⟨next, by rw [leaves]; rfl, fun k => by rw [leaves, Memory.cell_assigned within], ?_⟩
    intro pointer
    rw [register, leaves]
    exact Memory.cell_assigned_pointer within pointer value
  · intro k decoded
    have upper : m.memory.size < 2147483648 := reachable.bounded.upper
    have located := Memory.inBounds_of_read present
    have lower := located.1
    have before := located.2
    have narrow : k.toNat < 1048576 := Instruction.fits_of_decode decoded
    have within : m.memory.InBounds (BitVec.ofNat 32 Register.ip.val) :=
      Memory.inBounds_ofNat (by decide) (by show 0 < m.memory.size; omega)
    have assigns : m.Assigns (.refImm .subImm (.direct .ip) k) (BitVec.ofNat 32 Register.ip.val)
        (BitVec.ofInt 32 ((m.register .ip).toInt - k.toNat)) := .subImm k rfl
    obtain ⟨next, leaves⟩ := assigns.step (Action.fetch_of_read present decoded) outside within
    refine ⟨next, ?_⟩
    have back : (BitVec.ofInt 32 ((m.register .ip).toInt - k.toNat)).toInt =
        (m.register .ip).toInt - k.toNat := by
      rw [BitVec.toInt_ofInt, Int.bmod_eq_of_le (by omega) (by omega)]
    have there := Memory.cell_assigned_pointer within rfl
      (BitVec.ofInt 32 ((m.register .ip).toInt - k.toNat))
    rw [register, leaves]
    show ((m.memory.assigned _ _).cell 0).toInt = _
    rw [there, back, BitVec.toInt_ofInt, Int.bmod_eq_of_le (by omega) (by omega)]

/-- An instruction that adds the instruction pointer to itself and stores the sum in its own place, and one
behind it that leads back into the register file. -/
theorem assignment_takes_effect_on_own_instruction :
    let program : List Instruction :=
      [.twoRef .add ⟨1, .ip⟩ ⟨1, .ip⟩, .refImm .subImm (.direct .ip) 5]
    let fresh : Machine := { memory := .zero 20, trace := true, input := [] }
    let adding := (Action.load ⟨program.map Instruction.encode, []⟩).after fresh
    let going := adding.afterSteps 1
    Action.step.outcome adding = .ok .next ∧ going.memory.cell 16 = 32 ∧ going.register .ip = 17 ∧
      Action.step.outcome going = .ok .next ∧ ((Action.step.after going).register .ip).toInt = 13 := by
  intro program fresh adding going
  have earlier : adding.Reachable ⟨20, true⟩ := .loaded (.created rfl) _
  obtain ⟨added, _⟩ := assignment_takes_effect earlier (by decide +kernel)
    (w := Instruction.encode (.twoRef .add ⟨1, .ip⟩ ⟨1, .ip⟩)) (eq_ok_of_toOption (by decide +kernel))
  obtain ⟨_, gone⟩ := assignment_takes_effect (m := going) earlier.stepped (by decide +kernel)
    (w := Instruction.encode (.refImm .subImm (.direct .ip) 5)) (eq_ok_of_toOption (by decide +kernel))
  have term : adding.resolve ⟨1, .ip⟩ = .ok 16 := eq_ok_of_toOption (by decide +kernel)
  obtain ⟨next, _, cells, _⟩ := added _ 16 _ (Instruction.decode_encode_of_fits trivial) (.add term term)
    (by decide +kernel)
  obtain ⟨later, there⟩ := gone 5 (eq_ok_of_toOption (by decide +kernel))
  refine ⟨next, (cells 16).trans (by decide +kernel), (cells 0).trans (by decide +kernel), later, ?_⟩
  rw [there]
  decide +kernel

end Machine
end StoredProgram
