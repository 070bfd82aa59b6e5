import StoredProgram.Proofs.Machine.Perform
import StoredProgram.Proofs.Machine.Run

set_option autoImplicit false

namespace StoredProgram

namespace Fault

def OfInput : Fault → Prop
  | endOfInput | invalidInput _ | invalidUtf8 => True
  | _ => False

/-- Faults that a step may also end in before it has an instruction. -/
def OfFetch : Fault → Prop
  | addressOutOfBounds _ | instruction _ => True
  | _ => False

/-- Faults of a word that encodes nothing. -/
def OfDecoding : Fault → Prop
  | instruction _ | literal _ => True
  | _ => False

variable {α β : Type} {allowed : Fault → Prop} {x : Except Fault α} {f : α → Except Fault β}

/-- A computation ends in no other faults. -/
structure Only (allowed : Fault → Prop) (x : Except Fault α) : Prop where
  of_error : ∀ {fault}, x = .error fault → allowed fault

theorem Only.ok (a : α) : Only allowed (.ok a) := ⟨fun same => by cases same⟩

theorem Only.error {fault : Fault} (fine : allowed fault) :
    Only allowed (.error fault : Except Fault α) :=
  ⟨fun same => Except.error.inj same ▸ fine⟩

theorem Only.mono {other : Fault → Prop} (only : Only other x)
    (weaker : ∀ fault, other fault → allowed fault) : Only allowed x :=
  ⟨fun same => weaker _ (only.of_error same)⟩

theorem Only.bind {other : Fault → Prop} (first : Only other x)
    (weaker : ∀ fault, other fault → allowed fault) (rest : ∀ a, x = .ok a → Only allowed (f a)) :
    Only allowed (x >>= f) := by
  cases x with
  | ok a => exact rest a rfl
  | error fault => exact Only.error (weaker fault (first.of_error rfl))

end Fault

namespace Memory

variable {memory : Memory} {address value : Word}

def Misses (memory : Memory) (fault : Fault) : Prop :=
  ∃ address, fault = .addressOutOfBounds address ∧ ¬ memory.InBounds address

theorem only_read (memory : Memory) (address : Word) :
    Fault.Only (fun fault => fault = .addressOutOfBounds address ∧ ¬ memory.InBounds address)
      (memory.read address) := by
  unfold read
  split
  · exact .ok _
  · exact .error ⟨rfl, by assumption⟩

theorem only_misses_read (memory : Memory) (address : Word) :
    Fault.Only memory.Misses (memory.read address) :=
  (only_read memory address).mono fun _ missed => ⟨address, missed⟩

theorem only_resolve (memory : Memory) (value : Word) (level : Nat) :
    Fault.Only memory.Misses (memory.resolve value level) := by
  induction level generalizing value with
  | zero => exact .ok value
  | succ level ih =>
      exact (only_misses_read memory value).bind (fun _ missed => missed) fun link _ => ih link

/-- What is read as a literal is not in memory, or is none. -/
def NoLiteral (memory : Memory) (fault : Fault) : Prop :=
  memory.Misses fault ∨ ∃ e, fault = .literal e

theorem only_char (memory : Memory) (address : Word) :
    Fault.Only memory.NoLiteral (memory.char address) := by
  apply (only_misses_read memory address).bind fun _ missed => Or.inl missed
  intro word _
  split
  · exact .ok _
  · exact .error (Or.inr ⟨_, rfl⟩)

theorem only_charsFrom (memory : Memory) (done : List Char) (address : Word) (count : Nat) :
    Fault.Only memory.NoLiteral (memory.charsFrom done address count) := by
  induction count generalizing done address with
  | zero => exact .ok done.reverse
  | succ count ih =>
      unfold charsFrom
      split
      · exact ih _ _
      · rename_i fault failed
        exact .error ((only_char memory address).of_error failed)

theorem only_literal (memory : Memory) (base index : Word) :
    Fault.Only memory.NoLiteral (memory.literal base index) := by
  unfold literal
  apply (only_misses_read memory base).bind fun _ missed => Or.inl missed
  intro count _
  dsimp only
  split
  · exact .error (Or.inr ⟨_, rfl⟩)
  apply (only_misses_read memory (base + index)).bind fun _ missed => Or.inl missed
  intro offset _
  split
  · exact .error (Or.inr ⟨_, rfl⟩)
  apply (only_misses_read memory (base + offset)).bind fun _ missed => Or.inl missed
  intro length _
  exact (only_charsFrom memory [] _ length.toInt.toNat).bind (fun _ none => none) fun _ _ => .ok _

end Memory

/-- A line that is no integer is a fault of the input. -/
theorem Input.only_value (line : List UInt8) : Fault.Only Fault.OfInput (Input.value line) := by
  unfold Input.value
  split
  · exact .error trivial
  · dsimp only
    split
    · split
      · exact .ok _
      · exact .error trivial
    · exact .error trivial

namespace Machine

/-- The faults of loading half of a word. The immediate is looked at first. -/
def MayFailHalf (m : Machine) (destination : Reference) (immediate : Word) (fault : Fault) : Prop :=
  if 0xFFFF < immediate then fault = .immediateOutOfRange immediate
  else m.memory.Misses fault ∧ 1 ≤ destination.level.val

def MayFailCall (m : Machine) (function : Word) (fault : Fault) : Prop :=
  (m.functions.find? function = none ∧ fault = .unknownFunction function) ∨
    (m.memory.Misses fault ∧ ¬ m.memory.InBounds (m.register .sp - 1))

/-- The faults that an instruction may end in when it is carried out. -/
def MayFail (m : Machine) : Instruction → Fault → Prop
  | .twoRef _ destination source, fault =>
    m.memory.Misses fault ∧ (1 ≤ destination.level.val ∨ 2 ≤ source.level.val)
  | .refImm .jumpIfPositive condition _, fault => m.memory.Misses fault ∧ 2 ≤ condition.level.val
  | .refImm .loadLow destination immediate, fault | .refImm .loadHigh destination immediate, fault =>
    m.MayFailHalf destination immediate fault
  | .refImm .addImm destination _, fault | .refImm .subImm destination _, fault =>
    m.memory.Misses fault ∧ 1 ≤ destination.level.val
  | .ref .push source, fault =>
    m.memory.Misses fault ∧ (2 ≤ source.level.val ∨ ¬ m.memory.InBounds (m.register .sp - 1))
  | .ref .jump operand, fault | .ref .print operand, fault =>
    m.memory.Misses fault ∧ 2 ≤ operand.level.val
  | .ref .read _, fault => m.memory.Misses fault ∨ fault.OfInput
  | .ref .callIndirect _, fault => m.memory.Misses fault ∨ ∃ function, fault = .unknownFunction function
  | .imm .call function, fault => m.MayFailCall function fault
  | .imm .beginFunction function, fault =>
    m.inBody = true ∧ fault = .nestedFunction function (m.register .ip)
  | .imm .printLiteral _, fault => m.memory.NoLiteral fault
  | .bare _, _ => False

/-- The instructions that a fault may come from, once they are fetched. -/
def BlamedOn (m : Machine) (i : Instruction) : Fault → Prop
  | .addressOutOfBounds address => ¬ m.memory.InBounds address
  | .nestedFunction function address =>
    m.inBody = true ∧ i = .imm .beginFunction function ∧ address = m.register .ip
  | .immediateOutOfRange immediate => 0xFFFF < immediate ∧ ∃ destination,
    i = .refImm .loadLow destination immediate ∨ i = .refImm .loadHigh destination immediate
  | .unknownFunction function => i = .imm .call function ∨ ∃ source, i = .ref .callIndirect source
  | .endOfInput | .invalidInput _ | .invalidUtf8 => ∃ destination, i = .ref .read destination
  | .literal _ => ∃ index, i = .imm .printLiteral index
  | .instruction _ | .invalidMemorySize _ | .imageTooLarge _ _ => False

variable {m : Machine} {i : Instruction} {fault : Fault} {address value : Word}

theorem only_resolve (m : Machine) (r : Reference) : Fault.Only m.memory.Misses (m.resolve r) :=
  m.memory.only_resolve _ _

/-- The first link starts from the register, which is in memory. -/
theorem only_resolve_far (lower : Register.count < m.memory.size) (r : Reference) :
    Fault.Only (fun fault => m.memory.Misses fault ∧ 2 ≤ r.level.val) (m.resolve r) := by
  constructor
  intro fault failed
  refine ⟨(only_resolve m r).of_error failed, ?_⟩
  by_contra near
  rw [Machine.resolve] at failed
  obtain none | one : r.level.val = 0 ∨ r.level.val = 1 := by omega
  · rw [none] at failed
    cases failed
  · rw [one] at failed
    have present := read_register lower r.register
    rw [Memory.resolve, present] at failed
    cases failed

/-- Without indirection a destination is the register itself. -/
theorem far_of_resolve (lower : Register.count < m.memory.size) {r : Reference}
    (resolved : m.resolve r = .ok address) (outside : ¬ m.memory.InBounds address) :
    1 ≤ r.level.val := by
  by_contra near
  have none : r.level.val = 0 := by omega
  rw [Machine.resolve, none] at resolved
  cases resolved
  exact outside (inBounds_register lower r.register)

theorem only_write (m : Machine) (address value : Word) :
    Fault.Only (fun fault => m.memory.Misses fault ∧ ¬ m.memory.InBounds address)
      (m.write address value) := by
  constructor
  intro fault failed
  obtain ⟨outside, same⟩ := write_eq_error_iff.mp failed
  exact ⟨⟨address, same, outside⟩, outside⟩

theorem only_stored (m : Machine) (address value : Word) :
    Fault.Only (fun fault => m.memory.Misses fault ∧ ¬ m.memory.InBounds address)
      (m.stored address value) := by
  constructor
  intro fault failed
  obtain ⟨outside, same⟩ := stored_eq_error_iff.mp failed
  exact ⟨⟨address, same, outside⟩, outside⟩

theorem only_stored_destination (lower : Register.count < m.memory.size) {r : Reference}
    (resolved : m.resolve r = .ok address) (value : Word) :
    Fault.Only (fun fault => m.memory.Misses fault ∧ 1 ≤ r.level.val) (m.stored address value) :=
  (only_stored m address value).mono fun _ missed =>
    ⟨missed.1, far_of_resolve lower resolved missed.2⟩

theorem only_destination (lower : Register.count < m.memory.size) (r : Reference) (value : Word) :
    Fault.Only (fun fault => m.memory.Misses fault ∧ 1 ≤ r.level.val)
      (m.resolve r >>= fun address => m.stored address value) := by
  apply (only_resolve_far lower r).bind fun _ far => ⟨far.1, Nat.le_of_succ_le far.2⟩
  intro address resolved
  exact only_stored_destination lower resolved value

theorem only_halfReplaced (lower : Register.count < m.memory.size)
    (join : Word → BitVec 16 → Word) (r : Reference) (immediate : Word) :
    Fault.Only (m.MayFailHalf r immediate) (m.halfReplaced join r immediate) := by
  unfold MayFailHalf halfReplaced
  dsimp only
  split
  · exact .error rfl
  · apply (only_resolve_far lower r).bind fun _ far => ⟨far.1, Nat.le_of_succ_le far.2⟩
    intro address resolved
    apply (m.memory.only_read address).bind fun _ missed =>
      ⟨⟨address, missed⟩, far_of_resolve lower resolved missed.2⟩
    intro word _
    exact only_stored_destination lower resolved _

theorem only_entered (m : Machine) (function : Word) :
    Fault.Only (m.MayFailCall function) (m.entered function) := by
  unfold entered
  split
  · have pushed := only_write m.grown (m.register .sp - 1) (m.register .ip + 1)
    exact pushed.bind (fun _ missed => Or.inr missed) fun _ _ => .ok _
  · rename_i absent
    exact .error (Or.inl ⟨absent, rfl⟩)

/-- An instruction that is carried out ends in no fault but its own ones. -/
theorem only_perform (lower : Register.count < m.memory.size) (i : Instruction) :
    Fault.Only (m.MayFail i) (m.perform i) := by
  cases i with
  | twoRef op destination source =>
      apply (only_resolve_far lower destination).bind fun _ far =>
        ⟨far.1, Or.inl (Nat.le_of_succ_le far.2)⟩
      intro address resolved
      apply (only_resolve_far lower source).bind fun _ far => ⟨far.1, Or.inr far.2⟩
      intro right _
      exact (only_stored_destination lower resolved _).mono fun _ far => ⟨far.1, Or.inl far.2⟩
  | refImm op r immediate =>
      cases op with
      | jumpIfPositive =>
          apply (only_resolve_far lower r).bind fun _ far => far
          intro value _
          split
          · -- The instruction pointer is written like any other cell, but it is in memory.
            exact (only_write m _ _).mono fun _ missed =>
              absurd (inBounds_register lower .ip) missed.2
          · exact .ok _
      | loadLow => exact only_halfReplaced lower Word.withLow r immediate
      | loadHigh => exact only_halfReplaced lower Word.withHigh r immediate
      | addImm => exact only_destination lower r _
      | subImm => exact only_destination lower r _
  | ref op r =>
      cases op with
      | push =>
          have grown : Register.count < m.grown.memory.size := lower
          apply (only_resolve_far grown r).bind fun _ far => ⟨far.1, Or.inl far.2⟩
          intro value _
          exact (only_stored m.grown _ value).mono fun _ missed => ⟨missed.1, Or.inr missed.2⟩
      | jump => exact (only_resolve_far lower r).bind (fun _ far => far) fun _ _ => .ok _
      | print => exact (only_resolve_far lower r).bind (fun _ far => far) fun _ _ => .ok _
      | read =>
          apply (only_resolve m r).bind fun _ missed => Or.inl missed
          intro address _
          dsimp only
          split
          · exact .error (Or.inr trivial)
          · apply (Input.only_value _).bind fun _ bad => Or.inr bad
            intro value _
            exact (only_stored m.afterLine address value).mono fun _ missed => Or.inl missed.1
      | callIndirect =>
          apply (only_resolve m r).bind fun _ missed => Or.inl missed
          intro function _
          apply (only_entered m function).mono
          rintro fault (⟨_, unknown⟩ | ⟨missed, _⟩)
          · exact Or.inr ⟨function, unknown⟩
          · exact Or.inl missed
  | imm op immediate =>
      cases op with
      | call => exact only_entered m immediate
      | printLiteral =>
          exact (m.memory.only_literal _ immediate).bind (fun _ none => none) fun _ _ => .ok _
      | beginFunction =>
          cases inside : m.inBody with
          | true =>
            rw [perform_beginFunction_nested inside]
            exact .error ⟨inside, rfl⟩
          | false =>
            rw [perform_beginFunction inside]
            exact .ok _
  | bare op =>
      cases op with
      | pop =>
          exact (only_stored m _ _).mono fun _ missed => missed.2 (inBounds_register lower .sp)
      | endFunction => exact .ok _
      | halt => exact .ok _

theorem blamedOn_of_misses (missed : m.memory.Misses fault) : m.BlamedOn i fault := by
  obtain ⟨address, rfl, outside⟩ := missed
  exact outside

theorem blamedOn_of_mayFailHalf {destination : Reference} {immediate : Word}
    (loads : i = .refImm .loadLow destination immediate ∨ i = .refImm .loadHigh destination immediate)
    (may : m.MayFailHalf destination immediate fault) : m.BlamedOn i fault := by
  unfold MayFailHalf at may
  split at may
  · rename_i large
    rw [may]
    exact ⟨large, destination, loads⟩
  · exact blamedOn_of_misses may.1

/-- Each fault comes from few instructions. -/
theorem blamedOn_of_mayFail (may : m.MayFail i fault) : m.BlamedOn i fault := by
  cases i with
  | twoRef op destination source => exact blamedOn_of_misses may.1
  | refImm op r immediate =>
      cases op with
      | loadLow => exact blamedOn_of_mayFailHalf (Or.inl rfl) may
      | loadHigh => exact blamedOn_of_mayFailHalf (Or.inr rfl) may
      | jumpIfPositive | addImm | subImm => exact blamedOn_of_misses may.1
  | ref op r =>
      cases op with
      | push | jump | print => exact blamedOn_of_misses may.1
      | read =>
          rcases may with missed | input
          · exact blamedOn_of_misses missed
          · cases fault with
            | endOfInput | invalidInput | invalidUtf8 => exact ⟨r, rfl⟩
            | _ => cases input
      | callIndirect =>
          rcases may with missed | ⟨function, rfl⟩
          · exact blamedOn_of_misses missed
          · exact Or.inr ⟨r, rfl⟩
  | imm op immediate =>
      cases op with
      | call =>
          rcases may with ⟨_, rfl⟩ | ⟨missed, _⟩
          · exact Or.inl rfl
          · exact blamedOn_of_misses missed
      | beginFunction =>
          obtain ⟨inside, rfl⟩ := may
          exact ⟨inside, rfl, rfl⟩
      | printLiteral =>
          rcases may with missed | ⟨e, rfl⟩
          · exact blamedOn_of_misses missed
          · exact ⟨immediate, rfl⟩
  | bare op => cases may

/-- The trace has no part in what a step gives. -/
theorem outcome_step_of_perform (fetched : Action.fetch.outcome m = .ok i)
    (carried : m.inBody = false ∨ i.marksBody = true) :
    Action.step.outcome m = ({ m with trace := false }.perform i).map fun _ => i.signal := by
  have plain : Action.fetch.outcome { m with trace := false } = .ok i := (fetch_untraced m).trans fetched
  have same : Action.step.outcome m = Action.step.outcome { m with trace := false } :=
    (afterSteps_untraced m 0).1
  rw [same]
  exact (Action.step_of_perform rfl plain carried).1

/-- What a step that carries an instruction out may end in. -/
theorem mayFail_of_step (lower : Register.count < m.memory.size)
    (fetched : Action.fetch.outcome m = .ok i) (carried : m.inBody = false ∨ i.marksBody = true)
    (failed : Action.step.outcome m = .error fault) : m.MayFail i fault := by
  rw [outcome_step_of_perform fetched carried] at failed
  have sized : Register.count < { m with trace := false }.memory.size := lower
  cases done : { m with trace := false }.perform i with
  | ok m' =>
      rw [done] at failed
      cases failed
  | error other =>
      rw [done] at failed
      have same : other = fault := Except.error.inj failed
      rw [← same]
      exact (only_perform sized i).of_error done

/-- A fetch fails if the instruction pointer is outside of memory, or if the word there is no instruction. -/
theorem fault_of_fetch (positive : 0 < m.memory.size)
    (failed : Action.fetch.outcome m = .error fault) :
    m.memory.Misses fault ∨ ∃ e, fault = .instruction e := by
  cases found : m.memory.read (m.register .ip) with
  | error missing =>
      rw [Action.outcome_of_error (Action.run_fetch_missing positive found)] at failed
      have same : missing = fault := Except.error.inj failed
      rw [← same]
      exact Or.inl ((m.memory.only_misses_read _).of_error found)
  | ok word =>
      cases decoded : Instruction.decode word with
      | ok i =>
          rw [Action.fetch_of_read found decoded] at failed
          cases failed
      | error e =>
          rw [Action.fetch_of_unknown found decoded] at failed
          exact Or.inr ⟨e, (Except.error.inj failed).symm⟩

/-- A step fails at its fetch, or in an instruction that it carries out. -/
theorem step_fault_cases (lower : Register.count < m.memory.size)
    (failed : Action.step.outcome m = .error fault) :
    (Action.fetch.outcome m = .error fault ∧
        (m.memory.Misses fault ∨ ∃ e, fault = .instruction e)) ∨
      ∃ i, Action.fetch.outcome m = .ok i ∧ (m.inBody = false ∨ i.marksBody = true) ∧
        m.MayFail i fault := by
  cases fetched : Action.fetch.outcome m with
  | error other =>
      rw [(Action.step_of_fetch_error fetched).1] at failed
      have same : other = fault := Except.error.inj failed
      rw [← same]
      exact Or.inl ⟨rfl, fault_of_fetch (Nat.zero_lt_of_lt lower) fetched⟩
  | ok i =>
      rcases Action.skipped_or_carried m i with ⟨inside, unmarked⟩ | carried
      · rw [(Action.step_of_skipped fetched inside unmarked).1] at failed
        cases failed
      · exact Or.inr ⟨i, rfl, carried, mayFail_of_step lower fetched carried failed⟩

/-- A step fails to decode nothing but the word at the instruction pointer. -/
theorem step_fails_to_decode_iff (lower : Register.count < m.memory.size) {w : Word} {e : DecodeError}
    (present : m.memory.read (m.register .ip) = .ok w) :
    Action.step.outcome m = .error (.instruction e) ↔ Instruction.decode w = .error e := by
  cases decoded : Instruction.decode w with
  | error other =>
      rw [(Action.step_of_fetch_error (Action.fetch_of_unknown present decoded)).1]
      constructor
      · intro same
        cases same
        rfl
      · intro same
        cases same
        rfl
  | ok i =>
      constructor
      · intro failed
        rcases step_fault_cases lower failed with ⟨fetched, _⟩ | ⟨_, _, _, may⟩
        · rw [Action.fetch_of_read present decoded] at fetched
          cases fetched
        · exact absurd may blamedOn_of_mayFail
      · intro failed
        cases failed

/-- The next step ends in the fault. -/
def Fails (m : Machine) (fault : Fault) : Prop := Action.step.outcome m = .error fault

/-- The next step carries the instruction out, outside of all bodies. -/
def Carries (m : Machine) (i : Instruction) : Prop :=
  m.inBody = false ∧ Action.fetch.outcome m = .ok i

theorem Carries.mayFail (lower : Register.count < m.memory.size) (carries : m.Carries i)
    (fails : m.Fails fault) : m.MayFail i fault :=
  mayFail_of_step lower carries.2 (Or.inl carries.1) fails

/-- All other faults come from an instruction that is carried out. -/
theorem Fails.blamed (lower : Register.count < m.memory.size) (fails : m.Fails fault)
    (later : ¬ fault.OfFetch) :
    ∃ i, Action.fetch.outcome m = .ok i ∧ (m.inBody = false ∨ i.marksBody = true) ∧
      m.BlamedOn i fault := by
  rcases step_fault_cases lower fails with
    ⟨_, ⟨address, rfl, _⟩ | ⟨e, rfl⟩⟩ | ⟨i, fetched, carried, may⟩
  · exact absurd trivial later
  · exact absurd trivial later
  · exact ⟨i, fetched, carried, blamedOn_of_mayFail may⟩

theorem outcome_of_never (never : ∀ fault, ¬ m.Fails fault) :
    ∃ signal, Action.step.outcome m = .ok signal := by
  cases gives : Action.step.outcome m with
  | ok signal => exact ⟨signal, rfl⟩
  | error fault => exact absurd gives (never fault)

/-- An account of the faults of the next step. -/
structure FaultsAccounted (m : Machine) : Prop where
  /-- An address that is reported is outside of memory. -/
  address : ∀ a, m.Fails (.addressOutOfBounds a) → a.toInt < 0 ∨ m.memory.size ≤ a.toInt
  size : ∀ words, ¬ m.Fails (.invalidMemorySize words)
  image : ∀ words available, ¬ m.Fails (.imageTooLarge words available)
  /-- Instructions without an operand never fail once they are fetched. -/
  bare : ∀ op, Action.fetch.outcome m = .ok (.bare op) → ∃ signal, Action.step.outcome m = .ok signal
  skipped : ∀ i, Action.fetch.outcome m = .ok i → m.inBody = true → i.marksBody = false →
    Action.step.outcome m = .ok .next
  nested : ∀ function a, m.Fails (.nestedFunction function a) ↔
    m.inBody = true ∧ Action.fetch.outcome m = .ok (.imm .beginFunction function) ∧ a = m.register .ip
  immediate : ∀ v, m.Fails (.immediateOutOfRange v) ↔ 65536 ≤ v.toNat ∧
    ∃ destination,
      m.Carries (.refImm .loadLow destination v) ∨ m.Carries (.refImm .loadHigh destination v)
  unknown : ∀ function, m.Fails (.unknownFunction function) →
    m.Carries (.imm .call function) ∨ ∃ source, m.Carries (.ref .callIndirect source)
  input : ∀ fault, fault.OfInput → m.Fails fault → ∃ destination, m.Carries (.ref .read destination)
  /-- Once the word has been decoded, only a literal can be wrong. -/
  decoding : ∀ i fault, Action.fetch.outcome m = .ok i → fault.OfDecoding → m.Fails fault →
    ∃ index, m.Carries (.imm .printLiteral index)
  twoRef : ∀ op destination source fault, m.Carries (.twoRef op destination source) → m.Fails fault →
    1 ≤ destination.level.val ∨ 2 ≤ source.level.val
  addition : ∀ op destination immediate fault, op = .addImm ∨ op = .subImm →
    m.Carries (.refImm op destination immediate) → m.Fails fault → 1 ≤ destination.level.val
  half : ∀ op destination immediate fault, op = .loadLow ∨ op = .loadHigh → immediate.toNat < 65536 →
    m.Carries (.refImm op destination immediate) → m.Fails fault → 1 ≤ destination.level.val
  condition : ∀ condition offset fault, m.Carries (.refImm .jumpIfPositive condition offset) →
    m.Fails fault → 2 ≤ condition.level.val
  operand : ∀ op operand fault, op = .jump ∨ op = .print → m.Carries (.ref op operand) →
    m.Fails fault → 2 ≤ operand.level.val
  push : ∀ source fault, m.Carries (.ref .push source) → m.memory.InBounds (m.register .sp - 1) →
    m.Fails fault → 2 ≤ source.level.val
  call : ∀ function entry, m.Carries (.imm .call function) → m.functions.find? function = some entry →
    m.memory.InBounds (m.register .sp - 1) → Action.step.outcome m = .ok .next

theorem fails_nestedFunction_iff (lower : Register.count < m.memory.size) (function address : Word) :
    m.Fails (.nestedFunction function address) ↔ m.inBody = true ∧
      Action.fetch.outcome m = .ok (.imm .beginFunction function) ∧ address = m.register .ip := by
  constructor
  · intro fails
    obtain ⟨i, fetched, _, inside, same, here⟩ := fails.blamed lower id
    exact ⟨inside, same ▸ fetched, here⟩
  · rintro ⟨inside, fetched, here⟩
    rw [here]
    exact (Action.step_beginFunction_nested fetched inside).1

theorem halfReplaced_of_large {join : Word → BitVec 16 → Word} {immediate : Word}
    (large : 0xFFFF < immediate) (destination : Reference) :
    m.halfReplaced join destination immediate = .error (.immediateOutOfRange immediate) := by
  unfold halfReplaced
  rw [if_pos large]
  rfl

theorem fails_immediateOutOfRange_iff (lower : Register.count < m.memory.size) (immediate : Word) :
    m.Fails (.immediateOutOfRange immediate) ↔ 65536 ≤ immediate.toNat ∧
      ∃ destination, m.Carries (.refImm .loadLow destination immediate) ∨
        m.Carries (.refImm .loadHigh destination immediate) := by
  constructor
  · intro fails
    obtain ⟨i, fetched, carried, large, destination, same⟩ := fails.blamed lower id
    refine ⟨large, destination, ?_⟩
    rcases same with rfl | rfl
    · exact Or.inl ⟨carried.resolve_right Bool.false_ne_true, fetched⟩
    · exact Or.inr ⟨carried.resolve_right Bool.false_ne_true, fetched⟩
  · rintro ⟨large, destination, ⟨outside, fetched⟩ | ⟨outside, fetched⟩⟩
    · rw [Fails, outcome_step_of_perform fetched (Or.inl outside), perform,
        halfReplaced_of_large large]
      rfl
    · rw [Fails, outcome_step_of_perform fetched (Or.inl outside), perform,
        halfReplaced_of_large large]
      rfl

theorem step_of_call_in_memory (lower : Register.count < m.memory.size) {function entry : Word}
    (carries : m.Carries (.imm .call function)) (defined : m.functions.find? function = some entry)
    (room : m.memory.InBounds (m.register .sp - 1)) : Action.step.outcome m = .ok .next := by
  have gives := outcome_step_of_perform carries.2 (Or.inl carries.1)
  obtain ⟨signal, success⟩ : ∃ signal, Action.step.outcome m = .ok signal := by
    apply outcome_of_never
    intro fault fails
    rcases carries.mayFail lower fails with ⟨undefined, _⟩ | ⟨_, missed⟩
    · rw [undefined] at defined
      cases defined
    · exact missed room
  cases done : { m with trace := false }.perform (.imm .call function) with
  | ok m' => rw [gives, done]; rfl
  | error fault =>
      rw [gives, done] at success
      cases success

/-- Every fault of a step is accounted for, whatever was loaded and run before. -/
theorem step_faults_accounted {config : Config} (reachable : m.Reachable config) :
    m.FaultsAccounted := by
  have lower : Register.count < m.memory.size := reachable.bounded.lower
  refine
    { address := ?address
      size := ?size
      image := ?image
      bare := ?bare
      skipped := fun i fetched inside unmarked => (Action.step_of_skipped fetched inside unmarked).1
      nested := fails_nestedFunction_iff lower
      immediate := fails_immediateOutOfRange_iff lower
      unknown := ?unknown
      input := ?input
      decoding := ?decoding
      twoRef := fun _ _ _ _ carries fails => (carries.mayFail lower fails).2
      addition := ?addition
      half := ?half
      condition := fun _ _ _ carries fails => (carries.mayFail lower fails).2
      operand := ?operand
      push := fun _ _ carries room fails =>
        (carries.mayFail lower fails).2.resolve_right fun outside => outside room
      call := fun _ _ carries defined room => step_of_call_in_memory lower carries defined room }
  case address =>
    intro a fails
    have outside : ¬ m.memory.InBounds a := by
      rcases step_fault_cases lower fails with
        ⟨_, ⟨other, same, outside⟩ | ⟨_, other⟩⟩ | ⟨i, _, _, may⟩
      · cases same
        exact outside
      · cases other
      · exact blamedOn_of_mayFail may
    unfold Memory.InBounds at outside
    omega
  case size =>
    intro words fails
    obtain ⟨_, _, _, none⟩ := fails.blamed lower id
    exact none
  case image =>
    intro words available fails
    obtain ⟨_, _, _, none⟩ := fails.blamed lower id
    exact none
  case bare =>
    intro op fetched
    apply outcome_of_never
    intro fault fails
    rcases Action.skipped_or_carried m (.bare op) with ⟨inside, unmarked⟩ | carried
    · rw [Fails, (Action.step_of_skipped fetched inside unmarked).1] at fails
      cases fails
    · exact mayFail_of_step lower fetched carried fails
  case unknown =>
    intro function fails
    obtain ⟨i, fetched, carried, same⟩ := fails.blamed lower id
    rcases same with rfl | ⟨source, rfl⟩
    · exact Or.inl ⟨carried.resolve_right Bool.false_ne_true, fetched⟩
    · exact Or.inr ⟨source, carried.resolve_right Bool.false_ne_true, fetched⟩
  case input =>
    intro fault ofInput fails
    have later : ¬ fault.OfFetch := by cases fault <;> first | exact id | cases ofInput
    obtain ⟨i, fetched, carried, blamed⟩ := fails.blamed lower later
    have reads : ∃ destination, i = .ref .read destination := by
      cases fault with
      | endOfInput | invalidInput | invalidUtf8 => exact blamed
      | _ => cases ofInput
    obtain ⟨destination, rfl⟩ := reads
    exact ⟨destination, carried.resolve_right Bool.false_ne_true, fetched⟩
  case decoding =>
    intro i fault fetched ofDecoding fails
    rcases step_fault_cases lower fails with ⟨failed, _⟩ | ⟨i, fetched, carried, may⟩
    · rw [fetched] at failed
      cases failed
    · have blamed := blamedOn_of_mayFail may
      have prints : ∃ index, i = .imm .printLiteral index := by
        cases fault with
        | literal => exact blamed
        | «instruction» => cases blamed
        | _ => cases ofDecoding
      obtain ⟨index, rfl⟩ := prints
      exact ⟨index, carried.resolve_right Bool.false_ne_true, fetched⟩
  case addition =>
    intro op destination immediate fault adds carries fails
    have may := carries.mayFail lower fails
    rcases adds with rfl | rfl <;> exact may.2
  case half =>
    intro op destination immediate fault loads small carries fails
    have fits : ¬ 0xFFFF < immediate := Nat.not_lt.mpr (Nat.le_of_lt_succ small)
    have may : m.MayFailHalf destination immediate fault := by
      have may := carries.mayFail lower fails
      rcases loads with rfl | rfl <;> exact may
    rw [MayFailHalf, if_neg fits] at may
    exact may.2
  case operand =>
    intro op operand fault either carries fails
    have may := carries.mayFail lower fails
    rcases either with rfl | rfl <;> exact may.2

/-- A print that follows two links fails at the address -1 behind a subtraction, and a start of a body inside
of a body fails with its own address. -/
theorem step_faults_accounted_of_print_and_nested_function :
    let after (program : List Instruction) : Machine :=
      let fresh : Machine := { memory := .zero 20, trace := false, input := [] }
      ((Action.load ⟨program.map Instruction.encode, []⟩).after fresh).afterSteps 1
    let printing := after [.refImm .subImm (.direct 3) 1, .ref .print ⟨2, 3⟩]
    let nested := after [.imm .beginFunction 4, .imm .beginFunction 5]
    printing.FaultsAccounted ∧ printing.Carries (.ref .print ⟨2, 3⟩) ∧
      printing.Fails (.addressOutOfBounds (-1)) ∧
      ((-1 : Word).toInt < 0 ∨ printing.memory.size ≤ (-1 : Word).toInt) ∧
      nested.FaultsAccounted ∧ nested.Fails (.nestedFunction 5 17) ∧
      ∀ address, nested.Fails (.nestedFunction 5 address) → address = 17 := by
  intro after printing nested
  have reachable (program : List Instruction) : (after program).Reachable ⟨20, false⟩ :=
    .stepped (.loaded (.created rfl) _)
  have prints : printing.FaultsAccounted := step_faults_accounted (reachable _)
  have nests : nested.FaultsAccounted := step_faults_accounted (reachable _)
  have printed : Action.fetch.outcome printing = .ok (.ref .print ⟨2, 3⟩) :=
    eq_ok_of_toOption (by decide +kernel)
  have printFails : printing.Fails (.addressOutOfBounds (-1)) :=
    eq_error_of_match (by decide +kernel)
  have nestedFails : nested.Fails (.nestedFunction 5 17) := eq_error_of_match (by decide +kernel)
  have here : nested.register .ip = 17 := by decide +kernel
  refine ⟨prints, ⟨by decide +kernel, printed⟩, printFails, prints.address _ printFails, nests,
    nestedFails, ?_⟩
  intro address fails
  obtain ⟨_, _, same⟩ := (nests.nested 5 address).mp fails
  rw [same, here]

end Machine
end StoredProgram
