import StoredProgram.Proofs.Machine.Printing
import StoredProgram.Proofs.Machine.Reachable
import StoredProgram.Proofs.Memory.Unbounded

set_option autoImplicit false

namespace StoredProgram

namespace Machine

variable {config : Config} {m : Machine}

/-- Whatever is in memory, outside of bodies the literal that is printed is the one that a reading without
bounds on numbers finds, and a reading that fails prints nothing and changes nothing. No cell in front of the
pool has a part in it, and of the characters only those past the end of memory are out of bounds, from the
first one on. -/
theorem printing_reads_unbounded (reachable : m.Reachable config) (outside : m.inBody = false)
    (index : Word) :
    let print := Action.dispatch (.imm .printLiteral index)
    let read := m.memory.literalAt m.staticBase index.toNat
    Action.Prints print m m read ∧
      (Action.fetch.outcome m = .ok (.imm .printLiteral index) →
        Action.Prints Action.step m (Action.fetch.after m) read) ∧
      (∀ other : Memory, other.size = m.memory.size →
        (∀ k, m.staticBase ≤ k → other.cell k = m.memory.cell k) →
        Action.Prints print { m with memory := other } { m with memory := other } read) ∧
      ∀ count offset length, m.memory.numberAt m.staticBase = .ok count → index.toNat < count →
        m.memory.numberAt (m.staticBase + index.toNat) = .ok offset → count ≤ offset →
        m.memory.numberAt (m.staticBase + offset) = .ok length →
        ∀ address, print.outcome m = .error (.addressOutOfBounds address) →
          address.toInt = m.memory.size := by
  intro print read
  have bounded := reachable.bounded
  have small : m.memory.size < 2147483648 := bounded.upper
  have positive : 0 < m.memory.size := Nat.zero_lt_of_lt bounded.lower
  have within : m.staticBase ≤ m.memory.size := Nat.le_trans (Nat.le_of_eq bounded.base) bounded.counted
  have same : m.memory.literal (BitVec.ofNat 32 m.staticBase) index = read :=
    Memory.literal_eq_literalAt small within index
  have prints : Action.Prints print m m read := same ▸ Action.dispatch_prints positive index
  refine ⟨prints, fun fetched => same ▸ Action.step_prints outside fetched, ?_, ?_⟩
  · intro other size behind
    have otherSame : other.literal (BitVec.ofNat 32 m.staticBase) index = read := by
      rw [Memory.literal_eq_literalAt (size ▸ small) (size ▸ within),
        Memory.literalAt_congr size behind]
    exact otherSame ▸ Action.dispatch_prints (m := { m with memory := other }) (size ▸ positive) index
  · intro count offset length first listed entry past block address failed
    exact Memory.toInt_of_literalAt_outOfBounds small first listed entry past block
      (prints.read_eq_error failed)

/-- A pool whose one literal is longer than the memory, which is zero from there on. -/
theorem printing_reads_unbounded_up_to_end :
    let print : Instruction := .imm .printLiteral 0
    let fresh : Machine := { memory := .zero 40, trace := false, input := [] }
    let m := (Action.load ⟨[print.encode], [1, 0x7FFFFFFF]⟩).after fresh
    m.inBody = false ∧ Action.fetch.outcome m = .ok print ∧
      m.memory.literalAt 17 0 = .error (.addressOutOfBounds 40) ∧
      Action.step.outcome m = .error (.addressOutOfBounds 40) ∧ Action.step.after m = m := by
  intro print fresh m
  have reachable : m.Reachable ⟨40, false⟩ := .loaded (.created rfl) _
  have outside : m.inBody = false := by decide +kernel
  have base : m.staticBase = 17 := by decide +kernel
  have fetched : Action.fetch.outcome m = .ok print := eq_ok_of_toOption (by decide +kernel)
  have untraced : Action.fetch.after m = m := Action.after_fetch_of_off (by decide +kernel)
  have fault : Action.step.outcome m = .error (.addressOutOfBounds 40) :=
    eq_error_of_match (by decide +kernel)
  obtain ⟨_, prints, _, _⟩ := printing_reads_unbounded reachable outside 0
  have read := (prints fetched).read_eq_error fault
  have rest := ((prints fetched).stopped _ read).2
  rw [base] at read
  rw [untraced] at rest
  exact ⟨outside, fetched, read, fault, rest⟩

end Machine
end StoredProgram
