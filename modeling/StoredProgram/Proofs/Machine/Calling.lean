import StoredProgram.Proofs.Machine.Perform
import StoredProgram.Proofs.Machine.Run
import StoredProgram.Proofs.Machine.Tracing

set_option autoImplicit false

namespace StoredProgram

@[simp, grind =]
theorem Register.val_ip : Register.ip.val = 0 := rfl

@[simp, grind =]
theorem Register.val_sp : Register.sp.val = 1 := rfl

/-- The code that leads back to where a function was called from, by way of a register. -/
def Instruction.returning (r : Register) : List Instruction :=
  [.twoRef .mov (.direct r) (.twice .sp), .bare .pop, .ref .jump (.once r)]

namespace Machine

variable {m m' : Machine} {i : Instruction} {code : List Instruction} {function entry back value : Word}
  {r : Register} {p k : Nat}

/-- An untraced machine goes on as `perform` says. -/
theorem goes_of_perform (untraced : m.trace = false) (outside : m.inBody = false)
    (fetched : Action.fetch.outcome m = .ok i) (next : i.signal = .next)
    (done : m.perform i = .ok m') : m.Goes 1 m' := by
  obtain ⟨gives, leaves⟩ := Action.step_of_perform untraced fetched (Or.inl outside)
  exact .one (by rw [gives, done, ← next]; rfl) (leaves m' done)

/-- An instruction is fetched from the code that it stands in. -/
theorem fetch_of_holds (small : m.memory.size < 2147483648)
    (holds : m.memory.Holds p (code.map Instruction.encode))
    (there : m.register .ip = BitVec.ofNat 32 (p + k)) (listed : code[k]? = some i) (fits : i.Fits) :
    Action.fetch.outcome m = .ok i := by
  have word : (code.map Instruction.encode)[k]? = some i.encode := by rw [List.getElem?_map, listed]; rfl
  have present := holds.read small word
  rw [← there] at present
  exact Action.fetch_of_read present (Instruction.decode_encode_of_fits fits)

/-- The next `n` steps go on and change nothing but the memory, which has the given cells afterwards. -/
def Rewrites (m : Machine) (n : Nat) (cells : Nat → Word) : Prop :=
  ∃ memory : Memory, m.Goes n { m with memory } ∧ memory.size = m.memory.size ∧
    ∀ k, memory.cell k = cells k

/-- The memory of the machine that is reached is its own. -/
theorem Rewrites.of_goes {cells : Nat → Word} (goes : m.Goes k m')
    (rest : m' = { m with memory := m'.memory }) (size : m'.memory.size = m.memory.size)
    (cell : ∀ k, m'.memory.cell k = cells k) :
    m.Rewrites k cells := ⟨m'.memory, rest ▸ goes, size, cell⟩

section
variable (lower : Register.count < m.memory.size) (untraced : m.trace = false) (outside : m.inBody = false)
  (fetched : Action.fetch.outcome m = .ok i) (next : i.signal = .next)
include lower untraced outside fetched next

/-- An instruction that sets a register, other than the instruction pointer. -/
theorem rewrites_set (apart : r ≠ .ip) (done : m.perform i = .ok (m.setRegister r value).advanced) :
    m.Rewrites 1 fun k =>
      if k = 0 then m.register .ip + 1 else if k = r.val then value else m.memory.cell k := by
  have few : r.val < m.memory.size := Nat.lt_trans r.isLt lower
  have pointer : (m.setRegister r value).register .ip = m.register .ip :=
    Memory.cell_put_other _ _ (Fin.val_ne_of_ne apart)
  refine .of_goes (goes_of_perform untraced outside fetched next done) rfl rfl ?_
  intro k
  rw [cell_advanced (m := m.setRegister r value) (Nat.lt_of_le_of_lt (Nat.zero_le _) few),
    cell_setRegister few, pointer]

/-- An instruction that goes to an address. -/
theorem rewrites_go (done : m.perform i = .ok (m.setRegister .ip value)) :
    m.Rewrites 1 fun k => if k = 0 then value else m.memory.cell k :=
  .of_goes (goes_of_perform untraced outside fetched next done) rfl rfl
    (cell_setRegister (Nat.lt_of_le_of_lt (Nat.zero_le _) lower) value)

end

/-- With an address on top of the stack, the code that returns goes there and drops the address. -/
theorem rewrites_returning (lower : Register.count < m.memory.size) (small : m.memory.size < 2147483648)
    (untraced : m.trace = false) (outside : m.inBody = false) (general : 3 ≤ r.val) (high : 16 ≤ p)
    (routine : m.memory.Holds p ((Instruction.returning r).map Instruction.encode))
    (there : m.register .ip = BitVec.ofNat 32 p)
    (top : m.memory.read (m.register .sp) = .ok back) :
    m.Rewrites 3 fun k => if k = 0 ∨ k = r.val then back
      else if k = 1 then m.register .sp + 1 else m.memory.cell k := by
  have few := r.isLt
  have notPointer : r ≠ .ip := by rintro rfl; exact absurd general (by decide)
  -- The address is taken into the register.
  have fetched₀ := fetch_of_holds (k := 0) small routine there rfl trivial
  have move := perform_move lower r ((resolve_twice lower .sp).trans top)
  obtain ⟨memory₁, goes₁, size₁, cell₁⟩ := rewrites_set lower untraced outside fetched₀ rfl notPointer move
  dsimp only at cell₁
  let m₁ : Machine := { m with memory := memory₁ }
  have lower₁ : Register.count < m₁.memory.size := size₁ ▸ lower
  have small₁ : m₁.memory.size < 2147483648 := size₁ ▸ small
  have routine₁ := routine.congr size₁ fun k after _ => by grind
  have there₁ : m₁.register .ip = BitVec.ofNat 32 (p + 1) := by
    rw [← Word.ofNat_add_one, ← there]
    exact cell₁ 0
  -- It is dropped from the stack.
  have fetched₁ := fetch_of_holds (m := m₁) (k := 1) small₁ routine₁ there₁ rfl trivial
  obtain ⟨memory₂, goes₂, size₂, cell₂⟩ := rewrites_set lower₁ untraced outside fetched₁ rfl
    (by decide) (perform_pop lower₁)
  dsimp only at cell₂
  let m₂ : Machine := { m with memory := memory₂ }
  have lower₂ : Register.count < m₂.memory.size := size₂ ▸ lower₁
  have small₂ : m₂.memory.size < 2147483648 := size₂ ▸ small₁
  have routine₂ := routine₁.congr size₂ fun k after _ => by grind
  have there₂ : m₂.register .ip = BitVec.ofNat 32 (p + 2) := by
    rw [← Word.ofNat_add_one, ← there₁]
    exact cell₂ 0
  -- It is jumped to.
  have link : m₂.register r = back := by
    show memory₂.cell r.val = back
    grind
  have fetched₂ := fetch_of_holds (m := m₂) (k := 2) small₂ routine₂ there₂ rfl trivial
  obtain ⟨memory₃, goes₃, size₃, cell₃⟩ := rewrites_go lower₂ untraced outside fetched₂ rfl
    (perform_jump ((resolve_once lower₂ r).trans (congrArg _ link)))
  dsimp only at cell₃
  refine ⟨memory₃, (goes₁.trans goes₂).trans goes₃, size₃.trans (size₂.trans size₁), ?_⟩
  intro k
  have stack : m₁.register .sp = m.register .sp := by
    show memory₁.cell 1 = m.memory.cell 1
    grind
  grind

/-- A push of a word that is found when the stack has grown. -/
theorem rewrites_push (lower : Register.count < m.memory.size) (untraced : m.trace = false)
    (outside : m.inBody = false) {source : Reference}
    (fetched : Action.fetch.outcome m = .ok (.ref .push source))
    (room : m.memory.InBounds (m.register .sp - 1)) (above : 16 ≤ (m.register .sp - 1).toNat)
    (found : m.grown.resolve source = .ok value) :
    m.Rewrites 1 fun k =>
      if k = 0 then m.register .ip + 1
      else if k = (m.register .sp - 1).toNat then value
      else if k = 1 then m.register .sp - 1 else m.memory.cell k := by
  refine .of_goes (goes_of_perform untraced outside fetched rfl (perform_push room found)) rfl rfl ?_
  intro k
  have positive : 0 < (m.pushed value).memory.size := Nat.lt_of_le_of_lt (Nat.zero_le _) lower
  have pointer : (m.pushed value).register .ip = m.register .ip := by
    rw [register, cell_pushed lower room, Register.val_ip, if_neg (by omega), if_neg (by omega)]
    rfl
  rw [cell_advanced positive, cell_pushed lower room, pointer]

/-- A call and an indirect call make the same of a machine. -/
theorem perform_of_calls (calls : m.Calls function) :
    ∃ i, Action.fetch.outcome m = .ok i ∧ i.signal = .next ∧ m.perform i = m.entered function := by
  obtain ⟨_, fetched | ⟨source, fetched, meant⟩⟩ := calls
  · exact ⟨_, fetched, rfl, rfl⟩
  · refine ⟨_, fetched, rfl, ?_⟩
    rw [perform, meant]
    rfl

/-- A call puts the address behind it on the stack and goes to the entry of the function. -/
theorem rewrites_call (lower : Register.count < m.memory.size) (untraced : m.trace = false)
    (calls : m.Calls function) (defined : m.functions.find? function = some entry)
    (room : m.memory.InBounds (m.register .sp - 1)) :
    m.Rewrites 1 fun k =>
      if k = 0 then entry
      else if k = (m.register .sp - 1).toNat then m.register .ip + 1
      else if k = 1 then m.register .sp - 1 else m.memory.cell k := by
  obtain ⟨i, fetched, next, done⟩ := perform_of_calls calls
  rw [entered_eq defined room] at done
  refine .of_goes (goes_of_perform untraced calls.1 fetched next done) rfl rfl ?_
  intro k
  have positive : 0 < (m.pushed (m.register .ip + 1)).memory.size := Nat.lt_of_le_of_lt (Nat.zero_le _) lower
  rw [cell_setRegister (m := m.pushed (m.register .ip + 1)) (r := .ip) positive, cell_pushed lower room]
  rfl

/-- A call and the way back. -/
theorem rewrites_call_returning (lower : Register.count < m.memory.size)
    (small : m.memory.size < 2147483648) (untraced : m.trace = false)
    (calls : m.Calls function) (defined : m.functions.find? function = some entry) (general : 3 ≤ r.val)
    (routine : m.memory.Holds entry.toNat ((Instruction.returning r).map Instruction.encode))
    (high : 16 ≤ entry.toNat) (room : m.memory.InBounds (m.register .sp - 1))
    (above : 16 ≤ (m.register .sp - 1).toNat)
    (apart : ∀ k < 3, (m.register .sp - 1).toNat ≠ entry.toNat + k) :
    m.Rewrites 4 fun k =>
      if k = 0 ∨ k = r.val ∨ k = (m.register .sp - 1).toNat then m.register .ip + 1
      else m.memory.cell k := by
  have few := r.isLt
  obtain ⟨memory₁, goes₁, size₁, cell₁⟩ := rewrites_call lower untraced calls defined room
  dsimp only at cell₁
  let m₁ : Machine := { m with memory := memory₁ }
  have lower₁ : Register.count < m₁.memory.size := size₁ ▸ lower
  have small₁ : m₁.memory.size < 2147483648 := size₁ ▸ small
  have routine₁ := routine.congr size₁ fun k after before => by
    have length : ((Instruction.returning r).map Instruction.encode).length = 3 := rfl
    have other := apart (k - entry.toNat) (by omega)
    rw [cell₁, if_neg (by omega), if_neg (by omega), if_neg (by omega)]
  have there₁ : m₁.register .ip = BitVec.ofNat 32 entry.toNat := by
    rw [BitVec.ofNat_toNat, BitVec.setWidth_eq]
    exact cell₁ 0
  have stack₁ : m₁.register .sp = m.register .sp - 1 := by
    show memory₁.cell 1 = _
    rw [cell₁, if_neg (by omega), if_neg (by omega), if_pos rfl]
  have top₁ : m₁.memory.read (m₁.register .sp) = .ok (m.register .ip + 1) := by
    rw [stack₁, Memory.read, if_pos (by unfold Memory.InBounds; rw [size₁]; exact room)]
    show Except.ok (memory₁.cell _) = _
    rw [cell₁, if_neg (by omega), if_pos rfl]
  obtain ⟨memory₂, goes₂, size₂, cell₂⟩ :=
    rewrites_returning lower₁ small₁ untraced calls.1 general high routine₁ there₁ top₁
  dsimp only at cell₂
  refine ⟨memory₂, goes₁.trans goes₂, size₂.trans size₁, ?_⟩
  intro k
  have restored : m₁.register .sp + 1 = m.memory.cell 1 := by
    rw [stack₁, BitVec.sub_add_cancel]
    rfl
  grind

/-- The machine has called a function that returned by way of a register: it is behind the call, and the
address of that is also left in the register and in the stack cell that was used. Everything else is as it
was, and so is the output if the machine is not traced. -/
structure HasReturned (m : Machine) (r : Register) (m' : Machine) : Prop where
  ip : (m'.register .ip).toInt = (m.register .ip).toInt + 1
  sp : m'.register .sp = m.register .sp
  link : m'.register r = m'.register .ip
  top : ∀ k : Nat, (k : Int) = (m.register .sp).toInt - 1 → m'.memory.cell k = m'.register .ip
  kept : ∀ k : Nat, k ≠ 0 → k ≠ r.val → (k : Int) ≠ (m.register .sp).toInt - 1 →
    m'.memory.cell k = m.memory.cell k
  size : m'.memory.size = m.memory.size
  functions : m'.functions = m.functions
  inBody : m'.inBody = m.inBody
  instructionCount : m'.instructionCount = m.instructionCount
  input : m'.input = m.input
  output : m.trace = false → m'.output = m.output

/-- A function that starts with the code that returns leads back behind its call, direct or indirect,
wherever the call, the function and the stack are, and whichever general register the way back takes. The
stack has to have room for a word outside of the register file and of that code. -/
theorem call_returns {config : Config} (reachable : m.Reachable config) (calls : m.Calls function)
    (defined : m.functions.find? function = some entry) (general : 3 ≤ r.val)
    (routine : m.memory.Holds entry.toNat ((Instruction.returning r).map Instruction.encode))
    (high : 16 ≤ entry.toInt)
    (room : 16 ≤ (m.register .sp).toInt - 1 ∧ (m.register .sp).toInt - 1 < m.memory.size)
    (apart : ∀ k : Nat, k < 3 → (m.register .sp).toInt - 1 ≠ entry.toInt + k) :
    (∀ k < 4, Action.step.outcome (m.afterSteps k) = .ok .next) ∧ m.HasReturned r (m.afterSteps 4) := by
  have lower : Register.count < m.memory.size := reachable.bounded.lower
  have small : m.memory.size < 2147483648 := reachable.bounded.upper
  have few := r.isLt
  have fits : entry.toNat + 3 ≤ m.memory.size := routine.fits
  have entrySigned : entry.toInt = entry.toNat := Word.toInt_of_small (by omega)
  have top : (m.register .sp - 1).toInt = (m.register .sp).toInt - 1 := by
    have one : (1 : Word).toInt = 1 := rfl
    rw [BitVec.toInt_sub, one, Int.bmod_eq_of_le (by omega) (by omega)]
  have within : m.memory.InBounds (m.register .sp - 1) := by
    unfold Memory.InBounds
    omega
  have topSigned := within.toInt_eq
  have above : 16 ≤ (m.register .sp - 1).toNat := by omega
  have clear (k : Nat) (few : k < 3) : (m.register .sp - 1).toNat ≠ entry.toNat + k := by
    have other := apart k few
    omega
  have located : m.memory.InBounds (m.register .ip) := by
    obtain ⟨i, fetched, _, _⟩ := perform_of_calls calls
    rcases Action.fetch_cases m with ⟨fault, failed, _⟩ | ⟨_, there, _⟩
    · rw [fetched] at failed
      cases failed
    · exact there
  have back : (m.register .ip + 1).toInt = (m.register .ip).toInt + 1 := by
    have lower := located.1
    have upper := located.2
    have one : (1 : Word).toInt = 1 := rfl
    rw [BitVec.toInt_add, one, Int.bmod_eq_of_le (by omega) (by omega)]
  -- The trace has no part in this, so the four steps are those of the machine without it.
  have plainCalls : { m with trace := false }.Calls function :=
    ⟨calls.1, by rw [fetch_untraced m]; exact calls.2⟩
  obtain ⟨memory, goes, size, cell⟩ := rewrites_call_returning (m := { m with trace := false }) lower small
    rfl plainCalls defined general routine (by omega) within above clear
  have next (k : Nat) (before : k < 4) : Action.step.outcome (m.afterSteps k) = .ok .next :=
    (afterSteps_untraced m k).1.trans (goes.next k before)
  obtain ⟨_, output, reached, silent⟩ := afterSteps_untraced m 4
  rw [goes.there] at reached
  refine ⟨next, ?_⟩
  generalize m.afterSteps 4 = m' at reached silent ⊢
  have cell (k : Nat) : m'.memory.cell k =
      if k = 0 ∨ k = r.val ∨ k = (m.register .sp - 1).toNat then m.register .ip + 1 else m.memory.cell k := by
    rw [← congrArg Machine.memory reached]
    exact cell k
  have ip : m'.register .ip = m.register .ip + 1 := (cell 0).trans (if_pos (Or.inl rfl))
  exact {
    ip := by rw [ip, back]
    sp := (cell 1).trans (if_neg (by omega))
    link := by rw [ip]; exact (cell r.val).trans (if_pos (Or.inr (Or.inl rfl)))
    top := fun k there => by rw [ip, cell, if_pos (by omega)]
    kept := fun k notIp notLink notTop => by rw [cell, if_neg (by omega)]
    size := by rw [← congrArg Machine.memory reached]; exact size
    functions := (congrArg Machine.functions reached).symm
    inBody := (congrArg Machine.inBody reached).symm
    instructionCount := (congrArg Machine.instructionCount reached).symm
    input := (congrArg Machine.input reached).symm
    output := fun untraced => by rw [← silent untraced]; exact (congrArg Machine.output reached).symm }

/-- A traced machine whose stack is the one word of memory behind the call. -/
theorem call_returns_in_small_memory :
    let program : List Instruction :=
      .imm .beginFunction 1 :: (Instruction.returning 3 ++ [.bare .endFunction, .imm .call 1])
    let fresh : Machine := { memory := .zero 23, trace := true, input := [] }
    let calling := ((Action.load ⟨program.map Instruction.encode, []⟩).after fresh).afterSteps 5
    calling.memory.cell 21 = Instruction.encode (.imm .call 1) ∧ (calling.register .ip).toInt = 21 ∧
      (∀ k < 4, Action.step.outcome (calling.afterSteps k) = .ok .next) ∧
      ((calling.afterSteps 4).register .ip).toInt = 22 ∧ calling.HasReturned 3 (calling.afterSteps 4) := by
  intro program fresh calling
  have here : (calling.register .ip).toInt = 21 := by decide +kernel
  have earlier : ((Action.load ⟨program.map Instruction.encode, []⟩).after fresh).Reachable ⟨23, true⟩ :=
    .loaded (.created rfl) _
  have routine : calling.memory.Holds (17 : Word).toNat ((Instruction.returning 3).map Instruction.encode) := by
    refine ⟨by decide +kernel, ?_⟩
    intro k word listed
    rcases k with _ | _ | _ | k
    · cases listed
      decide +kernel
    · cases listed
      decide +kernel
    · cases listed
      decide +kernel
    · cases listed
  have calls : calling.Calls 1 := ⟨by decide +kernel, Or.inl (eq_ok_of_toOption (by decide +kernel))⟩
  obtain ⟨next, returned⟩ := call_returns (m := calling) earlier.stepped.stepped.stepped.stepped.stepped calls
    (by decide +kernel) (r := 3) (by decide) routine (by decide) (by decide +kernel) (by decide +kernel)
  exact ⟨by decide +kernel, here, next, by rw [returned.ip, here]; rfl, returned⟩

end Machine
end StoredProgram
