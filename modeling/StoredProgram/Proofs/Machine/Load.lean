import StoredProgram.Machine.Load
import StoredProgram.Proofs.Machine.Action
import StoredProgram.Proofs.Memory

set_option autoImplicit false

namespace StoredProgram

namespace Action

/-- Memory of `size` words as a load prepares it, before anything of the image is in it. -/
def prepared (size : Nat) : Memory :=
  ((Memory.zero size).put Register.ip.val (BitVec.ofNat 32 Register.count)).put Register.sp.val
    (BitVec.ofNat 32 size)

def fill (image : Image) : Action Unit := do
  change (·.copy Register.count image.code)
  change (·.copy (Register.count + image.code.length) image.static)
  modify fun m =>
    { m with
      instructionCount := image.code.length
      staticBase := Register.count + image.code.length }
  traceLine fun _ => Trace.loaded image.code.length

def started (m : Machine) : Machine :=
  { m with memory := prepared m.memory.size, functions := .empty, inBody := false }

def cleared (m : Machine) : Machine :=
  { m with memory := .zero m.memory.size, functions := .empty, inBody := false }

theorem run_reset (m : Machine) : reset m = .ok () (cleared m) := rfl

theorem run_load (image : Image) {m : Machine} (large : 1 < m.memory.size) :
    load image m = fill image (started m) := by
  have positive : 0 < (cleared m).memory.size := Nat.zero_lt_of_lt large
  have first := run_setRegister (r := .ip) positive (BitVec.ofNat 32 Register.count)
  have second := run_setRegister (m := (cleared m).setRegister .ip (BitVec.ofNat 32 Register.count))
    (r := .sp) large (BitVec.ofNat 32 m.memory.size)
  rw [load, bind_of_ok _ (run_reset m), bind_of_ok _ first]
  exact bind_of_ok (fun _ => fill image) second

theorem outcome_load (image : Image) {m : Machine} (large : 1 < m.memory.size) :
    (load image).outcome m = (fill image).outcome (started m) := by
  simp only [outcome, run_load image large]

theorem after_load (image : Image) {m : Machine} (large : 1 < m.memory.size) :
    (load image).after m = (fill image).after (started m) := by
  simp only [after, run_load image large]

/-- A memory without cells for the two pointers takes no image. -/
theorem run_load_small (image : Image) {size : Nat} (small : size ≤ 1) :
    ∃ memory : Memory, memory.size = size ∧ ∃ fault, ∀ m : Machine, m.memory.size = size →
      load image m = .error fault { m with memory, functions := .empty, inBody := false } := by
  cases none : decide (size = 0) with
  | true =>
      have none := of_decide_eq_true none
      refine ⟨.zero size, rfl, .addressOutOfBounds (BitVec.ofNat 32 Register.ip.val), ?_⟩
      intro m sized
      have outside : (cleared m).memory.size ≤ Register.ip.val := Nat.le_of_eq (sized.trans none)
      rw [load, bind_of_ok _ (run_reset m), bind_of_error _ (run_setRegister_outside outside _),
        cleared, sized]
  | false =>
      have some := of_decide_eq_false none
      refine ⟨(Memory.zero size).put Register.ip.val (BitVec.ofNat 32 Register.count), rfl,
        .addressOutOfBounds (BitVec.ofNat 32 Register.sp.val), ?_⟩
      intro m sized
      have positive : Register.ip.val < (cleared m).memory.size := by
        change 0 < m.memory.size
        omega
      have outside : ((cleared m).setRegister .ip (BitVec.ofNat 32 Register.count)).memory.size ≤
          Register.sp.val := sized ▸ small
      rw [load, bind_of_ok _ (run_reset m), bind_of_ok _ (run_setRegister positive _)]
      refine (bind_of_error _ (run_setRegister_outside outside _)).trans ?_
      rw [Machine.setRegister, cleared, sized]

/-- Memory of `size` words with an image behind the register file. -/
def loadedMemory (image : Image) (size : Nat) : Memory :=
  ((prepared size).putAll Register.count image.code).putAll (Register.count + image.code.length)
    image.static

theorem size_loadedMemory (image : Image) (size : Nat) : (loadedMemory image size).size = size :=
  (Memory.size_putAll _ _ _).trans (Memory.size_putAll _ _ _)

def loaded (image : Image) (m : Machine) : Machine :=
  { m with
    memory := loadedMemory image m.memory.size, functions := .empty, inBody := false,
    staticBase := Register.count + image.code.length, instructionCount := image.code.length }

section
variable {image : Image} {m : Machine}

theorem load_of_fits
    (fits : Register.count + image.code.length + image.static.length ≤ m.memory.size) :
    (load image).outcome m = .ok () ∧
      (load image).after m = (loaded image m).logged (Trace.loaded image.code.length) := by
  have size : ((prepared m.memory.size).putAll Register.count image.code).size = m.memory.size :=
    Memory.size_putAll _ _ _
  have code : (started m).memory.copy Register.count image.code =
      .ok ((prepared m.memory.size).putAll Register.count image.code) :=
    if_pos (Nat.le_trans (Nat.le_add_right _ _) fits)
  have static : ((prepared m.memory.size).putAll Register.count image.code).copy
      (Register.count + image.code.length) image.static = .ok (loadedMemory image m.memory.size) :=
    if_pos (by rwa [size])
  have large : 1 < m.memory.size := by
    unfold Register.count at fits
    omega
  rw [outcome_load image large, after_load image large, fill, outcome_bind_ok _ (outcome_change_ok code),
    after_bind_ok _ (outcome_change_ok code), after_change_ok code,
    outcome_bind_ok _ (outcome_change_ok static), after_bind_ok _ (outcome_change_ok static),
    after_change_ok static, outcome_bind_ok _ (outcome_modify _ _),
    after_bind_ok _ (outcome_modify _ _), outcome_traceLine, after_traceLine]
  exact ⟨rfl, rfl⟩

theorem load_of_large_code (pointers : 1 < m.memory.size)
    (large : m.memory.size < Register.count + image.code.length) :
    (load image).outcome m = .error (.imageTooLarge image.code.length m.memory.size) ∧
      (load image).after m = started m := by
  have failed : (started m).memory.copy Register.count image.code =
      .error (.imageTooLarge image.code.length m.memory.size) :=
    if_neg (Nat.not_le.mpr large)
  rw [outcome_load image pointers, after_load image pointers, fill,
    outcome_bind_error _ (outcome_change_error failed),
    after_bind_error _ (outcome_change_error failed), after_change_error failed]
  exact ⟨rfl, rfl⟩

theorem load_of_large_static (fits : Register.count + image.code.length ≤ m.memory.size)
    (large : m.memory.size < Register.count + image.code.length + image.static.length) :
    (load image).outcome m = .error (.imageTooLarge image.static.length m.memory.size) ∧
      (load image).after m = { started m with
        memory := (prepared m.memory.size).putAll Register.count image.code } := by
  have size : ((prepared m.memory.size).putAll Register.count image.code).size = m.memory.size :=
    Memory.size_putAll _ _ _
  have code : (started m).memory.copy Register.count image.code =
      .ok ((prepared m.memory.size).putAll Register.count image.code) := if_pos fits
  have failed : ((prepared m.memory.size).putAll Register.count image.code).copy
      (Register.count + image.code.length) image.static =
        .error (.imageTooLarge image.static.length m.memory.size) := by
    rw [Memory.copy, size, if_neg (Nat.not_le.mpr large)]
  have pointers : 1 < m.memory.size := by
    unfold Register.count at fits
    omega
  rw [outcome_load image pointers, after_load image pointers, fill,
    outcome_bind_ok _ (outcome_change_ok code), after_bind_ok _ (outcome_change_ok code),
    after_change_ok code, outcome_bind_error _ (outcome_change_error failed),
    after_bind_error _ (outcome_change_error failed), after_change_error failed]
  exact ⟨rfl, rfl⟩

theorem load_ok_iff : (load image).outcome m = .ok () ↔
    Register.count + image.code.length + image.static.length ≤ m.memory.size := by
  constructor
  · intro success
    by_cases code : Register.count + image.code.length ≤ m.memory.size
    · by_cases static : Register.count + image.code.length + image.static.length ≤ m.memory.size
      · exact static
      · rw [(load_of_large_static code (Nat.not_le.mp static)).1] at success
        cases success
    · by_cases pointers : 1 < m.memory.size
      · rw [(load_of_large_code pointers (Nat.not_le.mp code)).1] at success
        cases success
      · obtain ⟨_, _, fault, failed⟩ := run_load_small image (Nat.not_lt.mp pointers)
        rw [outcome_of_error (failed m rfl)] at success
        cases success
  · exact fun fits => (load_of_fits fits).1

end

/-- A load fails, or it copies the code into memory and counts its instructions. -/
theorem load_cases (image : Image) (size : Nat) : ∃ memory : Memory, memory.size = size ∧
    ((∃ fault, ∀ m : Machine, m.memory.size = size → (load image).outcome m = .error fault ∧
        (load image).after m = { m with memory, functions := .empty, inBody := false }) ∨
      (Register.count + image.code.length ≤ size ∧
        ∀ m : Machine, m.memory.size = size → (load image).outcome m = .ok () ∧
        (load image).after m = Machine.logged
          { m with
            memory, functions := .empty, inBody := false,
            staticBase := Register.count + image.code.length, instructionCount := image.code.length }
          (Trace.loaded image.code.length))) := by
  by_cases code : Register.count + image.code.length ≤ size
  · by_cases static : Register.count + image.code.length + image.static.length ≤ size
    · refine ⟨loadedMemory image size, size_loadedMemory image size, Or.inr ⟨code, ?_⟩⟩
      rintro m rfl
      exact load_of_fits static
    · refine ⟨(prepared size).putAll Register.count image.code, Memory.size_putAll _ _ _,
        Or.inl ⟨.imageTooLarge image.static.length size, ?_⟩⟩
      rintro m rfl
      exact load_of_large_static code (Nat.not_le.mp static)
  · by_cases pointers : 1 < size
    · refine ⟨prepared size, rfl, Or.inl ⟨.imageTooLarge image.code.length size, ?_⟩⟩
      rintro m rfl
      exact load_of_large_code pointers (Nat.not_le.mp code)
    · obtain ⟨memory, sized, fault, failed⟩ := run_load_small image (Nat.not_lt.mp pointers)
      refine ⟨memory, sized, Or.inl ⟨fault, fun m same => ?_⟩⟩
      exact ⟨outcome_of_error (failed m same), after_of_error (failed m same)⟩

/-- Code and static data are copied as one row of words. -/
theorem loadedMemory_eq (image : Image) (size : Nat) : loadedMemory image size =
    (prepared size).putAll Register.count (image.code ++ image.static) :=
  (Memory.putAll_append _ _ _ _).symm

/-- After a load the image stands behind the register file, in one row. -/
theorem holds_loadedMemory {image : Image} {size : Nat}
    (fits : Register.count + image.code.length + image.static.length ≤ size) :
    (loadedMemory image size).Holds Register.count (image.code ++ image.static) := by
  rw [loadedMemory_eq]
  apply Memory.holds_putAll
  rwa [List.length_append, ← Nat.add_assoc]

/-- A prepared memory is zero but for the two pointers. -/
theorem cell_prepared {size : Nat} (large : Register.count < size) (i : Nat) :
    (prepared size).cell i =
      if i = 1 then BitVec.ofNat 32 size else if i = 0 then BitVec.ofNat 32 Register.count else 0 := by
  have large : 16 < size := large
  by_cases second : i = 1
  · rw [if_pos second, second]
    exact Memory.cell_put_same _ _ (by rw [Memory.size_put, Memory.size_zero]; omega)
  · have apart : Register.sp.val ≠ i := Ne.symm second
    rw [if_neg second, prepared, Memory.cell_put_other _ _ apart]
    by_cases first : i = 0
    · rw [if_pos first, first]
      exact Memory.cell_put_same _ _ (by rw [Memory.size_zero]; omega)
    · have apart : Register.ip.val ≠ i := Ne.symm first
      rw [if_neg first, Memory.cell_put_other _ _ apart, Memory.cell_zero]

/-- A load puts the two pointers in their cells. -/
theorem cell_loadedMemory (image : Image) {size : Nat} (large : Register.count < size) :
    (loadedMemory image size).cell 0 = BitVec.ofNat 32 Register.count ∧
      (loadedMemory image size).cell 1 = BitVec.ofNat 32 size := by
  rw [loadedMemory_eq, Memory.cell_putAll_outside (Or.inl (by decide)),
    Memory.cell_putAll_outside (Or.inl (by decide)), cell_prepared large, cell_prepared large]
  exact ⟨rfl, rfl⟩

/-- It leaves zeros in all cells that are not taken by the pointers and by the image. -/
theorem cell_loadedMemory_free (image : Image) {size : Nat} (large : Register.count < size) {i : Nat}
    (apart : 2 ≤ i)
    (free : i < Register.count ∨ Register.count + (image.code ++ image.static).length ≤ i) :
    (loadedMemory image size).cell i = 0 := by
  rw [loadedMemory_eq, Memory.cell_putAll_outside free, cell_prepared large, if_neg (by omega),
    if_neg (by omega)]

end Action

namespace Machine

variable {config : Config}

theorem create_of_valid (lower : Register.count < config.memorySize)
    (upper : config.memorySize < Word.signedLimit) (input : List UInt8) :
    create config input = .ok { memory := .zero config.memorySize, trace := config.trace, input } := by
  rw [create, Config.check, if_pos ⟨lower, upper⟩]
  rfl

/-- An image that fits is loaded into a new machine. -/
theorem withImage_of_fits {image : Image} (lower : Register.count < config.memorySize)
    (upper : config.memorySize < Word.signedLimit)
    (fits : Register.count + image.code.length + image.static.length ≤ config.memorySize)
    (input : List UInt8) :
    withImage image config input = .ok ((Action.loaded image
      { memory := .zero config.memorySize, trace := config.trace, input }).logged
        (Trace.loaded image.code.length)) := by
  obtain ⟨success, leaves⟩ := Action.load_of_fits
    (m := { memory := .zero config.memorySize, trace := config.trace, input }) fits
  rw [← leaves, withImage, create_of_valid lower upper]
  unfold Action.outcome at success
  unfold Action.after
  simp only [bind, Except.bind]
  split at success
  · rename_i ran
    rw [ran]
    rfl
  · cases success

end Machine
end StoredProgram
