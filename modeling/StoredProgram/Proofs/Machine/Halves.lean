import StoredProgram.Proofs.Machine.Calling
import StoredProgram.Proofs.Memory.Links

set_option autoImplicit false

namespace StoredProgram

namespace Word

/-- The word with one half replaced, as a number. -/
theorem withLow_eq (word : Word) (half : BitVec 16) :
    word.withLow half = BitVec.ofNat 32 (word.toNat / 65536 * 65536 + half.toNat) := by
  rw [← toNat_withLow, BitVec.ofNat_toNat, BitVec.setWidth_eq]

theorem withHigh_eq (word : Word) (half : BitVec 16) :
    word.withHigh half = BitVec.ofNat 32 (half.toNat * 65536 + word.toNat % 65536) := by
  rw [← toNat_withHigh, BitVec.ofNat_toNat, BitVec.setWidth_eq]

/-- A word whose halves are both replaced, in either order, is made of the new halves alone. -/
theorem withHigh_withLow (word : Word) (low high : BitVec 16) :
    (word.withLow low).withHigh high = BitVec.ofNat 32 (high.toNat * 65536 + low.toNat) := by
  have kept : (word.withLow low).toNat % 65536 = low.toNat := by
    have bound := low.isLt
    rw [toNat_withLow]
    omega
  rw [withHigh_eq, kept]

theorem withLow_withHigh (word : Word) (low high : BitVec 16) :
    (word.withHigh high).withLow low = BitVec.ofNat 32 (high.toNat * 65536 + low.toNat) := by
  have kept : (word.withHigh high).toNat / 65536 = high.toNat := by
    rw [toNat_withHigh]
    omega
  rw [withLow_eq, kept]

end Word

namespace Instruction

def loadLow (destination : Reference) (half : BitVec 16) : Instruction :=
  .refImm .loadLow destination (half.setWidth 32)

def loadHigh (destination : Reference) (half : BitVec 16) : Instruction :=
  .refImm .loadHigh destination (half.setWidth 32)

/-- The instruction loads a half of the word that `destination` denotes, and this is what it makes of the
word. -/
inductive Loads (destination : Reference) : Instruction → (Word → Word) → Prop where
  | low (half : BitVec 16) : Loads destination (loadLow destination half) (·.withLow half)
  | high (half : BitVec 16) : Loads destination (loadHigh destination half) (·.withHigh half)

variable {destination : Reference} {i : Instruction} {change : Word → Word}

theorem Loads.signal (loads : i.Loads destination change) : i.signal = .next := by
  cases loads <;> rfl

theorem half_lt (half : BitVec 16) : (half.setWidth 32).toNat < 65536 := by
  rw [BitVec.toNat_setWidth]
  omega

theorem Loads.fits (loads : i.Loads destination change) : i.Fits := by
  cases loads with
  | low half | high half => exact Nat.lt_trans (half_lt half) (by decide)

end Instruction

namespace Machine

/-- The word at `address` is read on the way to what a reference denotes. -/
def Passes (m : Machine) (r : Reference) (address : Word) : Prop :=
  m.memory.Passes (BitVec.ofNat 32 r.register.val) r.level.val address

/-- The next `n` steps go on. They put `value` into the cell at `address`, move the instruction pointer `n`
words further and change nothing else, apart from what a trace adds to the output. -/
structure Puts (m : Machine) (n : Nat) (address value : Word) : Prop where
  next : ∀ k < n, Action.step.outcome (m.afterSteps k) = .ok .next
  ip : ((m.afterSteps n).register .ip).toInt = (m.register .ip).toInt + n
  there : (m.afterSteps n).memory.cell address.toNat = value
  kept : ∀ k, k ≠ 0 → k ≠ address.toNat → (m.afterSteps n).memory.cell k = m.memory.cell k
  size : (m.afterSteps n).memory.size = m.memory.size
  rest : m.afterSteps n =
    { m with memory := (m.afterSteps n).memory, output := (m.afterSteps n).output }
  output : m.trace = false → (m.afterSteps n).output = m.output

variable {m : Machine} {i j : Instruction} {destination : Reference} {address value : Word}
  {change further : Word → Word}

theorem perform_of_loads (loads : i.Loads destination change)
    (target : m.resolve destination = .ok address) (within : m.memory.InBounds address) :
    m.perform i = m.stored address (change (m.memory.cell address.toNat)) := by
  cases loads with
  | low half =>
      have replaced := halfReplaced_eq Word.withLow (Instruction.half_lt half) target within
      rwa [BitVec.setWidth_setWidth_of_le _ (by decide), BitVec.setWidth_eq] at replaced
  | high half =>
      have replaced := halfReplaced_eq Word.withHigh (Instruction.half_lt half) target within
      rwa [BitVec.setWidth_setWidth_of_le _ (by decide), BitVec.setWidth_eq] at replaced

/-- The way to a word does not change with the instruction pointer and the word, if it does not pass them. -/
theorem resolve_apart {memory : Memory} (size : memory.size = m.memory.size)
    (same : ∀ k, k ≠ 0 → k ≠ address.toNat → memory.cell k = m.memory.cell k)
    (clear : ¬ m.Passes destination 0) (free : ¬ m.Passes destination address) :
    ({ m with memory } : Machine).resolve destination = m.resolve destination := by
  apply Memory.resolve_congr size
  intro passed passes
  apply same
  · intro zero
    rw [BitVec.eq_of_toNat_eq (y := 0) zero] at passes
    exact clear passes
  · intro here
    rw [BitVec.eq_of_toNat_eq here] at passes
    exact free passes

section
variable (untraced : m.trace = false) (outside : m.inBody = false)
  (target : m.resolve destination = .ok address) (within : m.memory.InBounds address) (apart : address ≠ 0)
include untraced outside target within apart

/-- Without a trace, a load rewrites the word that its destination denotes. -/
theorem rewrites_load (loads : i.Loads destination change)
    (present : m.memory.read (m.register .ip) = .ok i.encode) :
    m.Rewrites 1 fun k =>
      if k = 0 then m.register .ip + 1
      else if k = address.toNat then change (m.memory.cell address.toNat) else m.memory.cell k := by
  have signed := within.toInt_eq
  have upper := within.2
  have notPointer : address.toNat ≠ 0 := BitVec.toNat_ne_iff_ne.mpr apart
  let value := change (m.memory.cell address.toNat)
  let written : Machine := { m with memory := m.memory.put address.toNat value }
  have pointer : written.register .ip = m.register .ip := Memory.cell_put_other m.memory value notPointer
  have done : m.perform i = .ok written.advanced := by
    rw [perform_of_loads loads target within, stored, write_eq_ok_iff.mpr ⟨within, rfl⟩]
    rfl
  have fetched := Action.fetch_of_read present (Instruction.decode_encode_of_fits loads.fits)
  refine .of_goes (goes_of_perform untraced outside fetched loads.signal done) rfl rfl ?_
  intro k
  have positive : 0 < written.memory.size := by show 0 < m.memory.size; omega
  rw [cell_advanced positive, pointer, Memory.cell_put (by omega)]

/-- The second of two loads finds the word where the first one found it, if neither the instruction pointer nor
the word itself is read on the way, and if the word is not the second load. -/
theorem rewrites_both (first : i.Loads destination change) (second : j.Loads destination further)
    (present : m.memory.read (m.register .ip) = .ok i.encode)
    (behind : m.memory.read (m.register .ip + 1) = .ok j.encode)
    (clear : ¬ m.Passes destination 0) (free : ¬ m.Passes destination address)
    (other : address ≠ m.register .ip + 1) :
    m.Rewrites 2 fun k =>
      if k = 0 then m.register .ip + 2
      else if k = address.toNat then further (change (m.memory.cell address.toNat))
      else m.memory.cell k := by
  obtain ⟨memory₁, goes₁, size₁, cell₁⟩ := rewrites_load untraced outside target within apart first present
  dsimp only at cell₁
  let m₁ : Machine := { m with memory := memory₁ }
  have same (k : Nat) (notPointer : k ≠ 0) (notTarget : k ≠ address.toNat) :
      memory₁.cell k = m.memory.cell k := by
    rw [cell₁, if_neg notPointer, if_neg notTarget]
  -- The way to the word is the same as before.
  have target₁ : m₁.resolve destination = .ok address := (resolve_apart size₁ same clear free).trans target
  have within₁ : m₁.memory.InBounds address := by
    unfold Memory.InBounds
    rw [size₁]
    exact within
  -- So is the second load, which is now at the instruction pointer.
  have pointer₁ : m₁.register .ip = m.register .ip + 1 := cell₁ 0
  have present₁ : m₁.memory.read (m₁.register .ip) = .ok j.encode := by
    have next : (m.register .ip + 1).toNat ≠ 0 := by
      rw [(Memory.inBounds_of_read present).toNat_succ]
      omega
    rw [pointer₁, ← behind]
    exact Memory.read_congr size₁ (same _ next fun here => other (BitVec.eq_of_toNat_eq here.symm))
  obtain ⟨memory₂, goes₂, size₂, cell₂⟩ :=
    rewrites_load (m := m₁) untraced outside target₁ within₁ apart second present₁
  refine ⟨memory₂, goes₁.trans goes₂, size₂.trans size₁, ?_⟩
  have notPointer : address.toNat ≠ 0 := BitVec.toNat_ne_iff_ne.mpr apart
  have changed : m₁.memory.cell address.toNat = change (m.memory.cell address.toNat) := by
    show memory₁.cell _ = _
    rw [cell₁, if_neg notPointer, if_pos rfl]
  intro k
  rw [cell₂, changed, pointer₁, BitVec.add_assoc]
  dsimp only
  by_cases zero : k = 0
  · rw [if_pos zero, if_pos zero]
    rfl
  by_cases here : k = address.toNat
  · rw [if_neg zero, if_neg zero, if_pos here, if_pos here]
  · rw [if_neg zero, if_neg zero, if_neg here, if_neg here]
    exact same k zero here

end

/-- Steps that put a word somewhere without a trace do so with one. -/
theorem Puts.of_rewrites {n : Nat} (located : m.memory.InBounds (m.register .ip))
    (room : (m.register .ip).toInt + n < 2147483648) (apart : address ≠ 0)
    (rewrites : ({ m with trace := false } : Machine).Rewrites n fun k =>
      if k = 0 then m.register .ip + BitVec.ofNat 32 n
      else if k = address.toNat then value else m.memory.cell k) :
    m.Puts n address value := by
  obtain ⟨memory, goes, size, cell⟩ := rewrites
  dsimp only at cell
  obtain ⟨_, output, reached, silent⟩ := afterSteps_untraced m n
  rw [goes.there] at reached
  have memory_eq : (m.afterSteps n).memory = memory := (congrArg Machine.memory reached).symm
  have notPointer : address.toNat ≠ 0 := BitVec.toNat_ne_iff_ne.mpr apart
  have ip : ((m.register .ip + BitVec.ofNat 32 n : Word)).toInt = (m.register .ip).toInt + n := by
    have lower := located.1
    have number := Word.toNat_ofNat_of_small (n := n) (by omega)
    rw [BitVec.toInt_add, Word.toInt_of_small (w := BitVec.ofNat 32 n) (by omega), number,
      Int.bmod_eq_of_le (by omega) (by omega)]
  exact {
    next := fun k before => (afterSteps_untraced m k).1.trans (goes.next k before)
    ip := by rw [register, memory_eq, ← ip]; exact congrArg BitVec.toInt (cell 0)
    there := by rw [memory_eq, cell, if_neg notPointer, if_pos rfl]
    kept := fun k zero here => by rw [memory_eq, cell, if_neg zero, if_neg here]
    size := by rw [memory_eq]; exact size
    rest := by
      have traced := trace_afterSteps m n
      generalize m.afterSteps n = m' at reached traced ⊢
      cases m'
      cases reached
      cases traced
      rfl
    output := fun untraced => by rw [← silent untraced]; exact (congrArg Machine.output reached).symm }

section
variable (small : m.memory.size < 2147483648) (outside : m.inBody = false)
  (target : m.resolve destination = .ok address) (within : m.memory.InBounds address) (apart : address ≠ 0)
include small outside target within apart

theorem puts_load (loads : i.Loads destination change)
    (present : m.memory.read (m.register .ip) = .ok i.encode) :
    m.Puts 1 address (change (m.memory.cell address.toNat)) := by
  have located := Memory.inBounds_of_read present
  have upper := located.2
  exact .of_rewrites located (by omega) apart
    (rewrites_load (m := { m with trace := false }) rfl outside target within apart loads present)

theorem puts_both (first : i.Loads destination change) (second : j.Loads destination further)
    (present : m.memory.read (m.register .ip) = .ok i.encode)
    (behind : m.memory.read (m.register .ip + 1) = .ok j.encode)
    (clear : ¬ m.Passes destination 0) (free : ¬ m.Passes destination address)
    (other : address ≠ m.register .ip + 1) :
    m.Puts 2 address (further (change (m.memory.cell address.toNat))) := by
  have located := Memory.inBounds_of_read present
  have last := Memory.inBounds_of_read behind
  have upper := last.2
  rw [last.toInt_eq, located.toNat_succ] at upper
  have signed := located.toInt_eq
  exact .of_rewrites located (by omega) apart
    (rewrites_both (m := { m with trace := false }) rfl outside target within apart first second present behind
      clear free other)

end

/-- A load replaces its own half of a word. Two loads, one for each half, set the word to the two halves
whatever it held before, and in either order. The second load has to find the word where the first one did:
the instruction pointer, which has moved, and the word, which has changed, must not be read on the way. The
word may take the place of the load that is carried out, but not of the one behind it. -/
theorem halves_make_a_word {config : Config} (reachable : m.Reachable config) (outside : m.inBody = false)
    (target : m.resolve destination = .ok address) (within : m.memory.InBounds address)
    (apart : address ≠ 0) (lo hi : BitVec 16) :
    let low := Instruction.loadLow destination lo
    let high := Instruction.loadHigh destination hi
    let held := (m.memory.cell address.toNat).toNat
    (m.memory.read (m.register .ip) = .ok low.encode →
      m.Puts 1 address (BitVec.ofNat 32 (held / 65536 * 65536 + lo.toNat))) ∧
    (m.memory.read (m.register .ip) = .ok high.encode →
      m.Puts 1 address (BitVec.ofNat 32 (hi.toNat * 65536 + held % 65536))) ∧
    ∀ first second, first = low ∧ second = high ∨ first = high ∧ second = low →
      m.memory.read (m.register .ip) = .ok first.encode →
      m.memory.read (m.register .ip + 1) = .ok second.encode →
      ¬ m.Passes destination 0 → ¬ m.Passes destination address → address ≠ m.register .ip + 1 →
      m.Puts 2 address (BitVec.ofNat 32 (hi.toNat * 65536 + lo.toNat)) := by
  have small : m.memory.size < 2147483648 := reachable.bounded.upper
  intro low high held
  refine ⟨?_, ?_, ?_⟩
  · intro present
    have puts := puts_load small outside target within apart (.low lo) present
    rwa [Word.withLow_eq] at puts
  · intro present
    have puts := puts_load small outside target within apart (.high hi) present
    rwa [Word.withHigh_eq] at puts
  · intro first second order present behind clear free other
    rcases order with ⟨rfl, rfl⟩ | ⟨rfl, rfl⟩
    · have puts := puts_both small outside target within apart (.low lo) (.high hi) present behind clear free
        other
      rwa [Word.withHigh_withLow] at puts
    · have puts := puts_both small outside target within apart (.high hi) (.low lo) present behind clear free
        other
      rwa [Word.withLow_withHigh] at puts

/-- A traced machine loads -2 over a seven behind its code, by way of two registers. -/
theorem halves_make_a_word_through_two_registers :
    let destination : Reference := ⟨2, 3⟩
    let program : List Instruction :=
      [.refImm .addImm (.direct 3) 4, .refImm .addImm (.direct 4) 20,
        .loadHigh destination 0xFFFF, .loadLow destination 0xFFFE]
    let fresh : Machine := { memory := .zero 21, trace := true, input := [] }
    let loading := ((Action.load ⟨program.map Instruction.encode, [7]⟩).after fresh).afterSteps 2
    loading.memory.cell 20 = 7 ∧ loading.Puts 1 20 (BitVec.ofNat 32 (65535 * 65536 + 7)) ∧
      loading.Puts 2 20 (BitVec.ofNat 32 (65535 * 65536 + 65534)) ∧
      (BitVec.ofNat 32 (65535 * 65536 + 65534)).toInt = -2 := by
  intro destination program fresh loading
  have earlier : ((Action.load ⟨program.map Instruction.encode, [7]⟩).after fresh).Reachable ⟨21, true⟩ :=
    .loaded (.created rfl) _
  have held : loading.memory.cell 20 = 7 := by decide +kernel
  have target : loading.resolve destination = .ok 20 := eq_ok_of_toOption (by decide +kernel)
  have present : loading.memory.read (loading.register .ip) =
      .ok (Instruction.loadHigh destination 0xFFFF).encode := eq_ok_of_toOption (by decide +kernel)
  have behind : loading.memory.read (loading.register .ip + 1) =
      .ok (Instruction.loadLow destination 0xFFFE).encode := eq_ok_of_toOption (by decide +kernel)
  have passed : ∀ n < 2, loading.memory.link 3 n ≠ 0 ∧ loading.memory.link 3 n ≠ 20 := by decide +kernel
  have clear : ¬ loading.Passes destination 0 := fun ⟨n, before, here⟩ => (passed n before).1 here
  have free : ¬ loading.Passes destination 20 := fun ⟨n, before, here⟩ => (passed n before).2 here
  obtain ⟨_, alone, both⟩ := halves_make_a_word (m := loading) earlier.stepped.stepped (by decide +kernel)
    target (by decide +kernel) (by decide) 0xFFFE 0xFFFF
  have one : loading.Puts 1 20
      (BitVec.ofNat 32 (65535 * 65536 + (loading.memory.cell 20).toNat % 65536)) := alone present
  rw [held] at one
  have two := both _ _ (Or.inr ⟨rfl, rfl⟩) present behind clear free (by decide +kernel)
  exact ⟨held, one, two, by decide⟩

end Machine
end StoredProgram
