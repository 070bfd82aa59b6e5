import StoredProgram.Proofs.Assembly.Append
import StoredProgram.Proofs.Machine.Faults
import StoredProgram.Proofs.Machine.Printing

set_option autoImplicit false

namespace StoredProgram

/-- The instruction that loads a number into the low half of a register. -/
def Instruction.loading (load : Register × Word) : Instruction :=
  .refImm .loadLow (.direct load.1) load.2

/-- A number of half a word, to be loaded into one of the general registers. -/
def IsLoad (load : Register × Word) : Prop := 3 ≤ load.1.val ∧ load.2.toNat < 65536

instance (load : Register × Word) : Decidable (IsLoad load) := inferInstanceAs (Decidable (_ ∧ _))

theorem Instruction.fits_loading {load : Register × Word} (valid : IsLoad load) :
    (Instruction.loading load).Fits := by
  have half : load.2.toNat < 65536 := valid.2
  change load.2.toNat < 1048576
  omega

/-- The program that loads registers one after the other, and does not halt. -/
def Statement.loading (loads : List (Register × Word)) : List Statement :=
  loads.map fun load => instruction (.loading load)

def Image.loading (loads : List (Register × Word)) : Image :=
  ⟨loads.map fun load => (Instruction.loading load).encode, []⟩

variable {loads : List (Register × Word)}

theorem Statement.literals_loading (loads : List (Register × Word)) :
    (loading loads).flatMap literals = [] := by
  rw [loading, List.flatMap_map]
  exact List.flatMap_eq_nil_iff.mpr fun _ _ => rfl

theorem Statement.words_loading (index : Nat) (loads : List (Register × Word)) :
    words index (loading loads) = loads.map fun load => (Instruction.loading load).encode := by
  induction loads generalizing index with
  | nil => rfl
  | cons load loads ih => exact congrArg (_ :: ·) (ih index)

theorem Image.ofStatements_loading (loads : List (Register × Word)) :
    ofStatements (Statement.loading loads) = loading loads := by
  rw [ofStatements, Statement.words_loading, Statement.literals_loading]
  rfl

theorem Statement.wellFormed_loading (valid : ∀ load ∈ loads, IsLoad load) :
    ∀ s ∈ loading loads, s.WellFormed := by
  intro s member
  obtain ⟨load, listed, rfl⟩ := List.mem_map.mp member
  exact ⟨Instruction.fits_loading (valid load listed), by simp [Instruction.loading, Instruction.opcode]⟩

/-- However the program is written, with comments and blank lines or without, it has the same image. -/
theorem assemble_loading {text : String}
    (read : readLines 1 (Lines.split text) = .ok (Statement.loading loads)) :
    assemble text = .ok (Image.loading loads) := by
  have none : sourceLiterals text = [] := by
    rw [sourceLiterals, ← literals_of_readLines read, Statement.literals_loading]
  have few : (sourceLiterals text).length ≤ Statement.maxLiterals := by
    rw [none]
    exact Nat.zero_le _
  rw [assemble_eq few, read, ← Image.ofStatements_loading]
  rfl

namespace Machine

variable {m : Machine} {size p k : Nat}

/-- A machine that has the program in its memory, and in which nothing was written but to the instruction
pointer and the general registers. So the stack pointer holds the size of memory, and there are zeros in the
return value and behind the program. -/
structure HoldsLoads (loads : List (Register × Word)) (size : Nat) (m : Machine) : Prop where
  sized : m.memory.size = size
  lower : Register.count < m.memory.size
  small : m.memory.size < 2147483648
  room : 16 + loads.length < m.memory.size
  holds : m.memory.Holds 16 (loads.map fun load => (Instruction.loading load).encode)
  free : m.memory.cell (16 + loads.length) = 0
  top : m.memory.cell 1 = BitVec.ofNat 32 m.memory.size
  value : m.memory.cell 2 = 0
  base : m.staticBase = 16 + loads.length
  outside : m.inBody = false
  untraced : m.trace = false

/-- What the next step is about to carry out, if the word at address `p` is next. -/
theorem HoldsLoads.fetched (holding : m.HoldsLoads loads size) (there : m.register .ip = BitVec.ofNat 32 p)
    (within : p < m.memory.size) {i : Instruction} (decoded : Instruction.decode (m.memory.cell p) = .ok i) :
    Action.fetch.outcome m = .ok i := by
  have small := holding.small
  apply Action.fetch_of_read _ decoded
  rw [there, Memory.read_ofNat (by omega) within]

theorem HoldsLoads.setRegister (holding : m.HoldsLoads loads size) {r : Register}
    (allowed : r.val = 0 ∨ 3 ≤ r.val) (value : Word) : (m.setRegister r value).HoldsLoads loads size := by
  have few := r.isLt
  have other (i : Nat) (apart : r.val ≠ i) : (m.setRegister r value).memory.cell i = m.memory.cell i :=
    Memory.cell_put_other _ _ apart
  refine { holding with holds := ?_, free := ?_, top := ?_, value := ?_ }
  · exact holding.holds.put_before few value
  · exact (other _ (by omega)).trans holding.free
  · exact (other _ (by omega)).trans holding.top
  · exact (other _ (by omega)).trans holding.value

theorem register_ip_advanced (positive : 0 < m.memory.size) :
    m.advanced.register .ip = m.register .ip + 1 :=
  register_setRegister _ _ _ positive

/-- Each load leads to the next word. -/
theorem HoldsLoads.step_load (holding : m.HoldsLoads loads size)
    (there : m.register .ip = BitVec.ofNat 32 (16 + k)) {load : Register × Word}
    (listed : loads[k]? = some load) (valid : IsLoad load) :
    Action.step.outcome m = .ok .next ∧ (Action.step.after m).HoldsLoads loads size ∧
      (Action.step.after m).register .ip = BitVec.ofNat 32 (16 + (k + 1)) := by
  obtain ⟨before, _⟩ := List.getElem?_eq_some_iff.mp listed
  have room := holding.room
  have decoded : Instruction.decode (m.memory.cell (16 + k)) = .ok (.loading load) := by
    rw [holding.holds.cell k (Instruction.loading load).encode (by rw [List.getElem?_map, listed]; rfl)]
    exact Instruction.decode_encode_of_fits (Instruction.fits_loading valid)
  have fetched := holding.fetched there (by omega) decoded
  have done := perform_loadLow_direct holding.lower load.1 valid.2
  obtain ⟨gives, leaves⟩ := Action.step_of_perform holding.untraced fetched (Or.inl holding.outside)
  have apart : load.1.val ≠ Register.ip.val := by
    have general : 3 ≤ load.1.val := valid.1
    change load.1.val ≠ 0
    omega
  have written := holding.setRegister (Or.inr valid.1)
    ((m.register load.1).withLow (load.2.setWidth 16))
  rw [gives, leaves _ done, Instruction.loading, done]
  refine ⟨rfl, written.setRegister (Or.inl rfl) _, ?_⟩
  rw [register_ip_advanced (by change 0 < m.memory.size; omega)]
  have kept : (m.setRegister load.1 ((m.register load.1).withLow (load.2.setWidth 16))).register .ip =
      m.register .ip := Memory.cell_put_other _ _ apart
  rw [kept, there, Word.ofNat_add_one]
  rfl

/-- Moving a register's number into the instruction pointer leads to the cell behind that register. -/
theorem HoldsLoads.step_move (holding : m.HoldsLoads loads size) (there : m.register .ip = BitVec.ofNat 32 p)
    (within : p < m.memory.size) {source : Register}
    (decoded : Instruction.decode (m.memory.cell p) = .ok (.twoRef .mov (.direct .ip) (.direct source))) :
    Action.step.outcome m = .ok .next ∧ (Action.step.after m).HoldsLoads loads size ∧
      (Action.step.after m).register .ip = BitVec.ofNat 32 (source.val + 1) := by
  have fetched := holding.fetched there within decoded
  have done := perform_move_direct holding.lower .ip source
  obtain ⟨gives, leaves⟩ := Action.step_of_perform holding.untraced fetched (Or.inl holding.outside)
  rw [gives, leaves _ done, done]
  refine ⟨rfl, (holding.setRegister (Or.inl rfl) _).setRegister (Or.inl rfl) _, ?_⟩
  rw [register_ip_advanced (by change 0 < m.memory.size; omega), register_setRegister _ _ _
    (by change 0 < m.memory.size; omega), Word.ofNat_add_one]

/-- A zero leads to the stack pointer. -/
theorem HoldsLoads.step_zero (holding : m.HoldsLoads loads size) (there : m.register .ip = BitVec.ofNat 32 p)
    (within : p < m.memory.size) (zero : m.memory.cell p = 0) :
    Action.step.outcome m = .ok .next ∧ (Action.step.after m).HoldsLoads loads size ∧
      (Action.step.after m).register .ip = 1 := by
  have decoded : Instruction.decode (m.memory.cell p) = .ok (.twoRef .mov (.direct .ip) (.direct .ip)) := by
    rw [zero]
    exact eq_ok_of_toOption (by decide)
  exact holding.step_move there within decoded

/-- All loads are carried out, by induction on how many there are so far. -/
theorem HoldsLoads.afterSteps (holding : m.HoldsLoads loads size) (there : m.register .ip = 16)
    (valid : ∀ load ∈ loads, IsLoad load) (within : k ≤ loads.length) :
    (∀ j < k, Action.step.outcome (m.afterSteps j) = .ok .next) ∧ (m.afterSteps k).HoldsLoads loads size ∧
      (m.afterSteps k).register .ip = BitVec.ofNat 32 (16 + k) := by
  induction k with
  | zero => exact ⟨by simp, holding, there⟩
  | succ k ih =>
      obtain ⟨earlier, held, next⟩ := ih (by omega)
      have listed : loads[k]? = some loads[k] := List.getElem?_eq_getElem within
      obtain ⟨gives, later, following⟩ := held.step_load next listed (valid _ (List.getElem_mem within))
      exact ⟨Nat.forall_lt_succ_right.mpr ⟨earlier, gives⟩, later, following⟩

/-- Behind the last load the machine gets to the stack pointer. -/
theorem HoldsLoads.run_off (holding : m.HoldsLoads loads size) (there : m.register .ip = 16)
    (valid : ∀ load ∈ loads, IsLoad load) :
    (∀ j < loads.length + 1, Action.step.outcome (m.afterSteps j) = .ok .next) ∧
      (m.afterSteps (loads.length + 1)).HoldsLoads loads size ∧
      (m.afterSteps (loads.length + 1)).register .ip = 1 := by
  obtain ⟨earlier, held, next⟩ := holding.afterSteps there valid (Nat.le_refl loads.length)
  obtain ⟨gives, later, following⟩ := held.step_zero next held.room held.free
  exact ⟨Nat.forall_lt_succ_right.mpr ⟨earlier, gives⟩, later, following⟩

/-- What is decoded next, and with it what comes of the run, is the size of memory. -/
theorem HoldsLoads.fails_at_size (holding : m.HoldsLoads loads size) (there : m.register .ip = 1) :
    let top := BitVec.ofNat 32 size
    (∀ e, Instruction.decode top = .error e → Action.step.outcome m = .error (.instruction e)) ∧
    (∀ index, Instruction.decode top = .ok (.imm .printLiteral index) →
      Action.step.outcome m = .error (.literal (.outOfRange index))) ∧
    ∀ fault, fault.OfDecoding → Action.step.outcome m = .error fault →
      (∃ e, Instruction.decode top = .error e) ∨
        ∃ index, Instruction.decode top = .ok (.imm .printLiteral index) := by
  intro top
  have lower := holding.lower
  have small := holding.small
  have within : 1 < m.memory.size := Nat.lt_trans (by decide) lower
  have present : m.memory.read (m.register .ip) = .ok top := by
    have first : m.register .ip = BitVec.ofNat 32 1 := there
    rw [first, Memory.read_ofNat (by omega) within, holding.top, holding.sized]
  have fetched {i : Instruction} (decoded : Instruction.decode top = .ok i) :
      Action.fetch.outcome m = .ok i := Action.fetch_of_read present decoded
  refine ⟨fun e => (step_fails_to_decode_iff lower present).mpr, ?_, ?_⟩
  · intro index decoded
    have base : m.memory.read (BitVec.ofNat 32 m.staticBase) = .ok 0 := by
      have room := holding.room
      rw [holding.base, Memory.read_ofNat (by omega) room, holding.free]
    have missing : m.memory.literal (BitVec.ofNat 32 m.staticBase) index =
        .error (.literal (.outOfRange index)) := by
      have none : (0 : Word).toInt ≤ index.toNat := Int.natCast_nonneg _
      rw [Memory.literal, base]
      simp only [bind, Except.bind, if_pos none]
      rfl
    exact (Action.step_of_no_literal holding.outside (fetched decoded) holding.untraced missing).1
  · intro fault ofDecoding failed
    cases decoded : Instruction.decode top with
    | error e => exact Or.inl ⟨e, rfl⟩
    | ok i =>
        rcases step_fault_cases lower failed with ⟨stopped, _⟩ | ⟨j, also, _, may⟩
        · rw [fetched decoded] at stopped
          cases stopped
        · rw [fetched decoded] at also
          cases also
          have blamed := blamedOn_of_mayFail may
          cases fault with
          | literal e =>
              obtain ⟨index, rfl⟩ := blamed
              exact Or.inr ⟨index, rfl⟩
          | instruction e => cases blamed
          | _ => cases ofDecoding

/-- A trace has no part in how a run ends. -/
theorem run_untraced (m : Machine) (draw : Table → String) (limit : Nat) :
    (m.run draw limit).ending = ({ m with trace := false }.run draw limit).ending ∧
      (m.run draw limit).steps = ({ m with trace := false }.run draw limit).steps := by
  rcases untraced_or_twins m with same | twins
  · rw [same]
    exact ⟨rfl, rfl⟩
  · obtain ⟨ending, steps, _⟩ := twins_run twins draw limit
    exact ⟨ending, steps⟩

theorem untraced_logged (m : Machine) (line : String) :
    ∃ output, { m.logged line with trace := false } = { m with trace := false, output } := by
  unfold logged
  split
  · exact ⟨_, rfl⟩
  · exact ⟨m.output, rfl⟩

/-- A load puts the program into a memory that is otherwise zero but for the two pointers. -/
theorem holdsLoads_of_load {config : Config} (room : 16 + loads.length < config.memorySize)
    (small : config.memorySize < Word.signedLimit) (input : List UInt8) :
    ∃ m, withImage (.loading loads) config input = .ok m ∧
      { m with trace := false }.HoldsLoads loads config.memorySize ∧
      { m with trace := false }.register .ip = 16 := by
  have lower : Register.count < config.memorySize := Nat.lt_of_le_of_lt (Nat.le_add_right _ _) room
  have length : (Image.loading loads).code.length = loads.length := List.length_map _
  have words : (Image.loading loads).code ++ (Image.loading loads).static =
      loads.map fun load => (Instruction.loading load).encode := List.append_nil _
  have fits : Register.count + (Image.loading loads).code.length +
      (Image.loading loads).static.length ≤ config.memorySize := by
    rw [length]
    exact Nat.le_of_lt room
  obtain ⟨first, second⟩ := Action.cell_loadedMemory (.loading loads) lower
  have zero (i : Nat) (outside : i < 16 ∨ 16 + loads.length ≤ i) (apart : 2 ≤ i) :
      (Action.loadedMemory (.loading loads) config.memorySize).cell i = 0 := by
    apply Action.cell_loadedMemory_free _ lower apart
    rwa [words, List.length_map]
  refine ⟨_, withImage_of_fits lower small fits input, ?_⟩
  obtain ⟨output, same⟩ := untraced_logged (Action.loaded (.loading loads)
    { memory := .zero config.memorySize, trace := config.trace, input })
    (Trace.loaded (Image.loading loads).code.length)
  rw [same]
  have size : (Action.loadedMemory (.loading loads) config.memorySize).size = config.memorySize :=
    Action.size_loadedMemory _ _
  refine ⟨?_, first⟩
  exact {
    sized := size
    lower := size.symm ▸ lower
    small := size.symm ▸ small
    room := size.symm ▸ room
    holds := words ▸ Action.holds_loadedMemory fits
    free := zero _ (Or.inr (Nat.le_refl _)) (by omega)
    top := second.trans (congrArg _ size.symm)
    value := zero 2 (Or.inl (by decide)) (Nat.le_refl 2)
    base := congrArg (16 + ·) length
    outside := rfl
    untraced := rfl }

/-- A small size is the word of a move, if it is any. -/
theorem decode_size {size : Nat} (few : size < 134217728) (uneven : size % 8192 ≠ 0) :
    Instruction.decode (BitVec.ofNat 32 size) =
      .error (.nonZeroPadding (.twoRef .mov) (BitVec.ofNat 32 size)) := by
  have number : (BitVec.ofNat 32 size).toNat = size := Word.toNat_ofNat_of_small (by omega)
  have named : (Opcode.twoRef .mov).code.toNat = (BitVec.ofNat 32 size).toNat / 134217728 := by
    rw [number, Nat.div_eq_of_lt few]
    rfl
  have padded : (BitVec.ofNat 32 size).setWidth 13 ≠ 0 := by
    intro zero
    apply uneven
    have low := congrArg BitVec.toNat zero
    rwa [BitVec.toNat_setWidth, number] at low
  rw [Instruction.decode_of_named named]
  exact if_neg padded

/-- The machine is at the stack pointer or behind it. -/
def Circles (loads : List (Register × Word)) (m : Machine) : Prop :=
  m.HoldsLoads loads 8192 ∧ (m.register .ip = 1 ∨ m.register .ip = 2)

/-- A size of 8192 is the word that moves the number of the stack pointer into the instruction pointer.
What follows the stack pointer is a zero, which leads back to it. -/
theorem Circles.step (circles : m.Circles loads) :
    Action.step.outcome m = .ok .next ∧ (Action.step.after m).Circles loads := by
  obtain ⟨holding, first | second⟩ := circles
  · have decoded : Instruction.decode (m.memory.cell 1) =
        .ok (.twoRef .mov (.direct .ip) (.direct .sp)) := by
      rw [holding.top, holding.sized]
      exact eq_ok_of_toOption (by decide)
    obtain ⟨next, later, following⟩ := holding.step_move first (by rw [holding.sized]; decide) decoded
    exact ⟨next, later, Or.inr following⟩
  · obtain ⟨next, later, following⟩ :=
      holding.step_zero second (by rw [holding.sized]; decide) holding.value
    exact ⟨next, later, Or.inl following⟩

/-- So in a memory of that size no such program fails, and none ends. -/
theorem HoldsLoads.never_ends (holding : m.HoldsLoads loads 8192) (there : m.register .ip = 16)
    (valid : ∀ load ∈ loads, IsLoad load) (draw : Table → String) (limit : Nat) :
    (m.run draw limit).ending = .unfinished := by
  obtain ⟨next, held, ended⟩ := holding.run_off there valid
  exact run_unfinished next (unfinished_of_invariant (fun _ => Circles.step) ⟨held, Or.inl ended⟩) draw limit

/-- A program that loads registers and does not halt runs off its end, into the zero behind it and from
there to the stack pointer, which holds the size of memory. If that size is no instruction word, the run
fails for it at its second step behind the program; if it is the word that prints a literal, the run fails
there too, since the program has no literals. The run fails there with a decoding fault in no other case,
and there is a size for which it never ends. A size that is small and not a multiple of 8192 is no
instruction word. -/
theorem run_off_the_end {config : Config} (valid : ∀ load ∈ loads, IsLoad load)
    (room : 16 + loads.length < config.memorySize) (small : config.memorySize < Word.signedLimit) :
    let size := BitVec.ofNat 32 config.memorySize
    let program := Statement.loading loads
    readLines 1 (Lines.split (Lines.join (program.map Statement.text))) = .ok program ∧
    (∀ text, readLines 1 (Lines.split text) = .ok program →
      ∀ input, ∃ image m, assemble text = .ok image ∧ withImage image config input = .ok m ∧
        (∀ e, Instruction.decode size = .error e →
          m.FailsAtStep (loads.length + 2) (.instruction e)) ∧
        (∀ index, Instruction.decode size = .ok (.imm .printLiteral index) →
          m.FailsAtStep (loads.length + 2) (.literal (.outOfRange index))) ∧
        ((∃ fault, fault.OfDecoding ∧ m.FailsAtStep (loads.length + 2) fault) →
          (∃ e, Instruction.decode size = .error e) ∨
            ∃ index, Instruction.decode size = .ok (.imm .printLiteral index)) ∧
        (config.memorySize = 8192 → ∀ draw limit, (m.run draw limit).ending = .unfinished)) ∧
    (config.memorySize < 134217728 → config.memorySize % 8192 ≠ 0 →
      Instruction.decode size = .error (.nonZeroPadding (.twoRef .mov) size)) := by
  intro size program
  refine ⟨?_, ?_, decode_size⟩
  · have wellFormed := Statement.wellFormed_loading valid
    rw [Lines.split_join fun line member => ?_, readLines_texts wellFormed]
    obtain ⟨s, listed, rfl⟩ := List.mem_map.mp member
    exact Statement.isLine_text (wellFormed s listed)
  · intro text read input
    obtain ⟨m, loaded, holding, there⟩ := holdsLoads_of_load room small input
    obtain ⟨next, held, ended⟩ := holding.run_off there valid
    obtain ⟨unknown, prints, only⟩ := held.fails_at_size ended
    have fails (fault : Fault) : m.FailsAtStep (loads.length + 2) fault ↔
        Action.step.outcome (({ m with trace := false } : Machine).afterSteps (loads.length + 1)) =
          .error fault := by
      rw [← failsAtStep_iff next, FailsAtStep, FailsAtStep]
      simp only [run_untraced m]
    refine ⟨_, m, assemble_loading read, loaded, ?_, ?_, ?_, ?_⟩
    · exact fun e undecoded => (fails _).mpr (unknown e undecoded)
    · exact fun index decoded => (fails _).mpr (prints index decoded)
    · rintro ⟨fault, ofDecoding, failed⟩
      exact only fault ofDecoding ((fails fault).mp failed)
    · intro circling draw limit
      rw [(run_untraced m draw limit).1]
      rw [circling] at holding
      exact holding.never_ends there valid draw limit

/-- One instruction, in a memory of 4096 words. -/
theorem run_off_the_end_of_one_load :
    let config : Config := { memorySize := 4096 }
    (∀ load ∈ [((3 : Register), (1 : Word))], IsLoad load) ∧ 16 + 1 < config.memorySize ∧
      config.memorySize < Word.signedLimit ∧
      ∃ image m, assemble "LOADL r1 1" = .ok image ∧ withImage image config [] = .ok m ∧
        m.FailsAtStep 3 (.instruction (.nonZeroPadding (.twoRef .mov) 4096)) := by
  intro config
  have valid : ∀ load ∈ [((3 : Register), (1 : Word))], IsLoad load :=
    List.forall_mem_singleton.mpr ⟨by decide, by decide⟩
  have read : readLines 1 (Lines.split "LOADL r1 1") = .ok (Statement.loading [(3, 1)]) :=
    eq_ok_of_toOption (by decide +kernel)
  obtain ⟨_, runs, undecoded⟩ := @run_off_the_end _ config valid (by decide) (by decide)
  obtain ⟨image, m, assembled, loaded, unknown, _⟩ := runs _ read []
  exact ⟨valid, by decide, by decide, image, m, assembled, loaded,
    unknown _ (undecoded (by decide) (by decide))⟩

/-- So the program that fails in 4096 words runs on and on in 8192 of them. -/
theorem run_off_the_end_without_an_end :
    ∃ image m, assemble "LOADL r1 1" = .ok image ∧
      withImage image { memorySize := 8192 } [] = .ok m ∧
      ∀ draw limit, (m.run draw limit).ending = .unfinished := by
  have valid : ∀ load ∈ [((3 : Register), (1 : Word))], IsLoad load :=
    List.forall_mem_singleton.mpr ⟨by decide, by decide⟩
  have read : readLines 1 (Lines.split "LOADL r1 1") = .ok (Statement.loading [(3, 1)]) :=
    eq_ok_of_toOption (by decide +kernel)
  have room : 16 + [((3 : Register), (1 : Word))].length < ({ memorySize := 8192 } : Config).memorySize := by
    decide
  obtain ⟨m, loaded, holding, there⟩ := holdsLoads_of_load room (by decide) []
  refine ⟨_, m, assemble_loading read, loaded, ?_⟩
  intro draw limit
  rw [(run_untraced m draw limit).1]
  exact holding.never_ends there valid draw limit

end Machine
end StoredProgram
