import StoredProgram.Proofs.Machine.Perform
import StoredProgram.Proofs.Machine.Run

set_option autoImplicit false

namespace StoredProgram

namespace Machine

/-- A reference denotes cell `k`. -/
def Denotes (m : Machine) (r : Reference) (k : Nat) : Prop :=
  ∃ address, m.resolve r = .ok address ∧ address.toInt = k

/-- The cells that an instruction may change when it is carried out, besides that of the instruction
pointer. -/
def MayChange (m : Machine) (k : Nat) : Instruction → Prop
  | .twoRef _ destination _ => m.Denotes destination k
  | .refImm .jumpIfPositive _ _ => False
  | .refImm _ destination _ => m.Denotes destination k
  | .ref .read destination => m.Denotes destination k
  | .ref .push _ | .ref .callIndirect _ | .imm .call _ => k = 1 ∨ (m.register .sp - 1).toInt = k
  | .bare .pop => k = 1
  | _ => False

/-- What a step with instruction `i` leaves alone if it does not fail. -/
structure Framed (m : Machine) (i : Instruction) (m' : Machine) : Prop where
  /-- Inside of a body, only the instruction pointer moves. -/
  cell : ∀ k, m'.memory.cell k ≠ m.memory.cell k → k = 0 ∨ m.inBody = false ∧ m.MayChange k i
  size : m'.memory.size = m.memory.size
  functions : m'.functions ≠ m.functions → ∃ function, i = .imm .beginFunction function ∧
    ∀ other, other ≠ function → m'.functions.find? other = m.functions.find? other
  inBody : m'.inBody ≠ m.inBody →
    (∃ function, i = .imm .beginFunction function) ∨ i = .bare .endFunction
  output : ∃ text, m'.output = m.output ++ text ∧ (text ≠ "" → m.inBody = false ∧
    ((∃ source, i = .ref .print source) ∨ ∃ index, i = .imm .printLiteral index))
  input : m'.input ≠ m.input → m.inBody = false ∧ ∃ destination, i = .ref .read destination
  instructionCount : m'.instructionCount = m.instructionCount
  staticBase : m'.staticBase = m.staticBase

variable {m m₁ m' : Machine} {i : Instruction} {address value : Word}

namespace Framed

theorem refl (m : Machine) (i : Instruction) : Framed m i m :=
  ⟨fun _ changed => absurd rfl changed, rfl, fun changed => absurd rfl changed,
    fun changed => absurd rfl changed, ⟨"", by simp, fun some_text => absurd rfl some_text⟩,
    fun changed => absurd rfl changed, rfl, rfl⟩

/-- The cells may be changed one after the other. -/
theorem remember {memory : Memory} (framed : Framed m i m₁) (size : memory.size = m₁.memory.size)
    (cell : ∀ k, memory.cell k ≠ m₁.memory.cell k → k = 0 ∨ m.inBody = false ∧ m.MayChange k i) :
    Framed m i { m₁ with memory } := by
  refine { framed with cell := ?_, size := size.trans framed.size }
  intro k changed
  by_cases here : memory.cell k = m₁.memory.cell k
  · exact framed.cell k (here ▸ changed)
  · exact cell k here

theorem setRegister (framed : Framed m i m₁) {r : Register}
    (allowed : r.val = 0 ∨ m.inBody = false ∧ m.MayChange r.val i) (value : Word) :
    Framed m i (m₁.setRegister r value) := by
  apply framed.remember (Memory.size_put _ _ _)
  intro k changed
  by_cases same : r.val = k
  · exact same ▸ allowed
  · exact absurd (Memory.cell_put_other _ value same) changed

theorem advanced (framed : Framed m i m₁) : Framed m i m₁.advanced :=
  framed.setRegister (Or.inl rfl) _

theorem write (framed : Framed m i m₁) (written : m₁.write address value = .ok m')
    (allowed : ∀ k : Nat, address.toInt = k → k = 0 ∨ m.inBody = false ∧ m.MayChange k i) :
    Framed m i m' := by
  obtain ⟨within, rfl⟩ := write_eq_ok_iff.mp written
  apply framed.remember (Memory.size_put _ _ _)
  intro k changed
  by_cases same : address.toNat = k
  · apply allowed
    rw [within.toInt_eq, same]
  · exact absurd (Memory.cell_put_other _ value same) changed

theorem stored (framed : Framed m i m₁) (done : m₁.stored address value = .ok m')
    (allowed : ∀ k : Nat, address.toInt = k → k = 0 ∨ m.inBody = false ∧ m.MayChange k i) :
    Framed m i m' := by
  obtain ⟨between, written, done⟩ := exists_of_bind_eq_ok done
  cases done
  exact (framed.write written allowed).advanced

/-- A line that is printed stands behind all earlier output. -/
theorem printed (m : Machine) (line : String) (outside : m.inBody = false)
    (prints : (∃ source, i = .ref .print source) ∨ ∃ index, i = .imm .printLiteral index) :
    Framed m i (m.printed line) := by
  have shown : Framed m i { m with output := m.output ++ line ++ "\n" } :=
    { refl m i with output := ⟨line ++ "\n", String.append_assoc, fun _ => ⟨outside, prints⟩⟩ }
  exact shown.setRegister (Or.inl rfl) _

theorem afterLine (m : Machine) (destination : Reference) (outside : m.inBody = false) :
    Framed m (.ref .read destination) m.afterLine :=
  { refl m _ with input := fun _ => ⟨outside, destination, rfl⟩ }

theorem grown (outside : m.inBody = false) (allowed : m.MayChange 1 i) : Framed m i m.grown :=
  (refl m i).setRegister (Or.inr ⟨outside, allowed⟩) _

end Framed

theorem framed_halfReplaced {join : Word → BitVec 16 → Word} {destination : Reference}
    {immediate : Word} (done : m.halfReplaced join destination immediate = .ok m')
    (allowed : ∀ k : Nat, m.Denotes destination k → k = 0 ∨ m.inBody = false ∧ m.MayChange k i) :
    Framed m i m' := by
  unfold halfReplaced at done
  dsimp only at done
  split at done
  · cases done
  · obtain ⟨address, resolved, done⟩ := exists_of_bind_eq_ok done
    obtain ⟨word, _, done⟩ := exists_of_bind_eq_ok done
    exact (Framed.refl m i).stored done fun k same => allowed k ⟨address, resolved, same⟩

theorem framed_entered {function : Word} (done : m.entered function = .ok m')
    (outside : m.inBody = false)
    (allowed : ∀ k : Nat, k = 1 ∨ (m.register .sp - 1).toInt = k → m.MayChange k i) :
    Framed m i m' := by
  unfold entered at done
  split at done
  · obtain ⟨between, written, done⟩ := exists_of_bind_eq_ok done
    cases done
    have grown : Framed m i m.grown := .grown outside (allowed 1 (Or.inl rfl))
    have pushed := grown.write written fun k same => Or.inr ⟨outside, allowed k (Or.inr same)⟩
    exact pushed.setRegister (Or.inl rfl) _
  · cases done

/-- What is carried out keeps to its frame. -/
theorem framed_perform (carried : m.inBody = false ∨ i.marksBody = true)
    (done : m.perform i = .ok m') : Framed m i m' := by
  cases i with
  | twoRef op destination source =>
      have outside := carried.resolve_right Bool.false_ne_true
      obtain ⟨address, resolved, done⟩ := exists_of_bind_eq_ok done
      obtain ⟨right, _, done⟩ := exists_of_bind_eq_ok done
      exact (Framed.refl m _).stored done fun k same => Or.inr ⟨outside, address, resolved, same⟩
  | refImm op destination immediate =>
      have outside := carried.resolve_right Bool.false_ne_true
      cases op with
      | jumpIfPositive =>
          obtain ⟨value, _, done⟩ := exists_of_bind_eq_ok done
          split at done
          · apply (Framed.refl m _).write done
            intro k same
            rw [Register.toInt_address] at same
            exact Or.inl (Int.ofNat.inj same).symm
          · cases done
            exact (Framed.refl m _).advanced
      | loadLow =>
          have done : m.halfReplaced Word.withLow destination immediate = .ok m' := done
          exact framed_halfReplaced done fun k denoted => Or.inr ⟨outside, denoted⟩
      | loadHigh =>
          have done : m.halfReplaced Word.withHigh destination immediate = .ok m' := done
          exact framed_halfReplaced done fun k denoted => Or.inr ⟨outside, denoted⟩
      | addImm =>
          obtain ⟨address, resolved, done⟩ := exists_of_bind_eq_ok done
          exact (Framed.refl m _).stored done fun k same => Or.inr ⟨outside, address, resolved, same⟩
      | subImm =>
          obtain ⟨address, resolved, done⟩ := exists_of_bind_eq_ok done
          exact (Framed.refl m _).stored done fun k same => Or.inr ⟨outside, address, resolved, same⟩
  | ref op r =>
      have outside := carried.resolve_right Bool.false_ne_true
      cases op with
      | push =>
          obtain ⟨value, _, done⟩ := exists_of_bind_eq_ok done
          have grown : Framed m (.ref .push r) m.grown := .grown outside (Or.inl rfl)
          exact grown.stored done fun k same => Or.inr ⟨outside, Or.inr same⟩
      | jump =>
          obtain ⟨address, _, done⟩ := exists_of_bind_eq_ok done
          cases done
          exact (Framed.refl m _).setRegister (Or.inl rfl) _
      | print =>
          obtain ⟨value, _, done⟩ := exists_of_bind_eq_ok done
          cases done
          exact Framed.printed m _ outside (Or.inl ⟨r, rfl⟩)
      | read =>
          obtain ⟨address, resolved, done⟩ := exists_of_bind_eq_ok done
          dsimp only at done
          split at done
          · cases done
          · obtain ⟨value, _, done⟩ := exists_of_bind_eq_ok done
            exact (Framed.afterLine m r outside).stored done fun k same =>
              Or.inr ⟨outside, address, resolved, same⟩
      | callIndirect =>
          obtain ⟨function, _, done⟩ := exists_of_bind_eq_ok done
          exact framed_entered done outside fun k either => either
  | imm op immediate =>
      cases op with
      | call =>
          have outside := carried.resolve_right Bool.false_ne_true
          exact framed_entered done outside fun k either => either
      | printLiteral =>
          have outside := carried.resolve_right Bool.false_ne_true
          obtain ⟨literal, _, done⟩ := exists_of_bind_eq_ok done
          cases done
          exact Framed.printed m _ outside (Or.inr ⟨immediate, rfl⟩)
      | beginFunction =>
          cases inside : m.inBody with
          | true =>
            rw [perform_beginFunction_nested inside] at done
            cases done
          | false =>
            rw [perform_beginFunction inside] at done
            cases done
            have others (other : Word) (apart : other ≠ immediate) :
                (m.functions.define immediate (m.register .ip + 1)).find? other =
                  m.functions.find? other := FunctionTable.find?_define_other _ _ apart
            exact Framed.advanced
              { Framed.refl m _ with
                functions := fun _ => ⟨immediate, rfl, others⟩
                inBody := fun _ => Or.inl ⟨immediate, rfl⟩ }
  | bare op =>
      cases op with
      | pop =>
          have outside := carried.resolve_right Bool.false_ne_true
          apply (Framed.refl m _).stored done
          intro k same
          rw [Register.toInt_address] at same
          exact Or.inr ⟨outside, (Int.ofNat.inj same).symm⟩
      | endFunction =>
          cases done
          exact (Framed.advanced { Framed.refl m _ with inBody := fun _ => Or.inr rfl })
      | halt =>
          cases done
          exact .refl m _

/-- So does what is passed over. -/
theorem framed_step (off : m.trace = false) {signal : Signal}
    (success : Action.step.outcome m = .ok signal) :
    ∃ i, Action.fetch.outcome m = .ok i ∧ Framed m i (Action.step.after m) := by
  rcases Action.fetch_cases m with ⟨fault, failed, _⟩ | ⟨i, _, _, fetched, _⟩
  · rw [(Action.step_of_fetch_error failed).1] at success
    cases success
  refine ⟨i, fetched, ?_⟩
  rcases Action.skipped_or_carried m i with ⟨inside, unmarked⟩ | carried
  · rw [(Action.step_of_passed off fetched inside unmarked).2]
    exact (Framed.refl m i).advanced
  · obtain ⟨gives, leaves⟩ := Action.step_of_perform off fetched carried
    cases done : m.perform i with
    | error fault =>
        rw [gives, done] at success
        cases success
    | ok m' =>
        rw [leaves m' done]
        exact framed_perform carried done

theorem step_halts_iff (off : m.trace = false) :
    Action.step.outcome m = .ok .halt ↔
      m.inBody = false ∧ Action.fetch.outcome m = .ok (.bare .halt) := by
  constructor
  · intro halts
    obtain ⟨i, fetched, _⟩ := framed_step off halts
    rcases Action.skipped_or_carried m i with ⟨inside, unmarked⟩ | carried
    · rw [(Action.step_of_passed off fetched inside unmarked).1] at halts
      cases halts
    · rw [(Action.step_of_perform off fetched carried).1] at halts
      have last : i.signal = .halt := by
        cases done : m.perform i with
        | ok m' =>
            rw [done] at halts
            exact Except.ok.inj halts
        | error fault =>
            rw [done] at halts
            cases halts
      have same : i = .bare .halt := by
        unfold Instruction.signal at last
        split at last
        · rfl
        · cases last
      rw [same] at fetched carried
      exact ⟨carried.resolve_right Bool.false_ne_true, fetched⟩
  · rintro ⟨outside, fetched⟩
    exact (Action.step_of_perform off fetched (Or.inl outside)).1

/-- A machine that halts stays as it is, so that it halts again at every further step. -/
theorem afterSteps_of_halt (off : m.trace = false) (halts : Action.step.outcome m = .ok .halt)
    (n : Nat) : m.afterSteps n = m := by
  obtain ⟨outside, fetched⟩ := (step_halts_iff off).mp halts
  have unmoved : Action.step.after m = m :=
    (Action.step_of_perform off fetched (Or.inl outside)).2 m rfl
  induction n with
  | zero => rfl
  | succ n ih => rw [afterSteps, ih, unmoved]

/-- A step that does not fail keeps to the frame of the instruction that it fetched. It halts just for a
halt outside of all bodies; then nothing changes at all, and every further step halts as well. -/
theorem successful_step_keeps_frame (off : m.trace = false) :
    (∀ signal, Action.step.outcome m = .ok signal →
      ∃ i, Action.fetch.outcome m = .ok i ∧ Framed m i (Action.step.after m)) ∧
    (Action.step.outcome m = .ok .halt ↔
      m.inBody = false ∧ Action.fetch.outcome m = .ok (.bare .halt)) ∧
    (Action.step.outcome m = .ok .halt →
      ∀ n, m.afterSteps n = m ∧ Action.step.outcome (m.afterSteps n) = .ok .halt) := by
  refine ⟨fun signal success => framed_step off success, step_halts_iff off, ?_⟩
  intro halts n
  have unmoved := afterSteps_of_halt off halts n
  exact ⟨unmoved, unmoved.symm ▸ halts⟩

/-- A push whose stack has grown down into the code overwrites the instruction before it, and no other
cell apart from the stack pointer and the instruction pointer. The halt that follows is there for good. -/
theorem successful_step_keeps_frame_of_push_and_halt :
    let program : List Instruction :=
      [.refImm .subImm (.direct .sp) 3, .ref .push ⟨1, .ip⟩, .bare .halt]
    let fresh : Machine := { memory := .zero 20, trace := false, input := [] }
    let started := (Action.load ⟨program.map Instruction.encode, []⟩).after fresh
    let pushing := started.afterSteps 1
    let halting := started.afterSteps 2
    Action.step.outcome pushing = .ok .next ∧ pushing.memory.cell 16 ≠ 17 ∧
      halting.memory.cell 16 = 17 ∧
      (∀ k, k ≠ 0 → k ≠ 1 → k ≠ 16 → halting.memory.cell k = pushing.memory.cell k) ∧
      Action.step.outcome halting = .ok .halt ∧
      ∀ n, halting.afterSteps n = halting := by
  intro program fresh started pushing halting
  have pushes : Action.fetch.outcome pushing = .ok (.ref .push ⟨1, .ip⟩) :=
    eq_ok_of_toOption (by decide +kernel)
  have goesOn : Action.step.outcome pushing = .ok .next := eq_ok_of_toOption (by decide +kernel)
  have halts : Action.step.outcome halting = .ok .halt := eq_ok_of_toOption (by decide +kernel)
  have top : (pushing.register .sp - 1).toInt = 16 := by decide +kernel
  obtain ⟨framed, _, _⟩ := successful_step_keeps_frame (m := pushing) (by decide +kernel)
  obtain ⟨_, _, still⟩ := successful_step_keeps_frame (m := halting) (by decide +kernel)
  refine ⟨goesOn, by decide +kernel, by decide +kernel, ?_, halts, fun n => (still halts n).1⟩
  obtain ⟨i, fetched, kept⟩ := framed .next goesOn
  rw [pushes] at fetched
  cases fetched
  intro k notIp notSp notTop
  by_contra changed
  rcases kept.cell k changed with ip | ⟨_, sp | below⟩
  · exact notIp ip
  · exact notSp sp
  · omega

end Machine
end StoredProgram
