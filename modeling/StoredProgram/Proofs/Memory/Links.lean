import StoredProgram.Proofs.Memory

set_option autoImplicit false

namespace StoredProgram.Memory

/-- The `n`-th value of the chain that starts with `value`. Behind an address of no cell it means nothing. -/
def link (m : Memory) (value : Word) : Nat → Word
  | 0 => value
  | n + 1 => m.cell (m.link value n).toNat

/-- The word at `address` is one of those that are read when `level` links are followed. -/
def Passes (m : Memory) (value : Word) (level : Nat) (address : Word) : Prop :=
  ∃ n < level, m.link value n = address

variable {m other : Memory} {value address x : Word} {level : Nat} {fault : Fault}

/-- The rest of a chain is the chain that starts with its second value. -/
theorem link_succ (m : Memory) (value : Word) (n : Nat) :
    m.link value (n + 1) = m.link (m.cell value.toNat) n := by
  induction n with
  | zero => rfl
  | succ n ih => rw [link, ih, link]

theorem passes_succ_iff :
    m.Passes value (level + 1) address ↔
      value = address ∨ m.Passes (m.cell value.toNat) level address := by
  constructor
  · rintro ⟨n, before, here⟩
    cases n with
    | zero => exact Or.inl here
    | succ n => exact Or.inr ⟨n, Nat.lt_of_succ_lt_succ before, (link_succ m value n).symm.trans here⟩
  · rintro (here | ⟨n, before, here⟩)
    · exact ⟨0, Nat.zero_lt_succ level, here⟩
    · exact ⟨n + 1, Nat.succ_lt_succ before, (link_succ m value n).trans here⟩

/-- The first link is followed if it leads to a cell. -/
theorem resolve_inside (within : m.InBounds value) (level : Nat) :
    m.resolve value (level + 1) = m.resolve (m.cell value.toNat) level := by
  rw [resolve, read_inside within]
  rfl

theorem resolve_outside (outside : ¬ m.InBounds value) (level : Nat) :
    m.resolve value (level + 1) = .error (.addressOutOfBounds value) := by
  rw [resolve, read_outside outside]
  rfl

/-- A chain is followed in two parts, and the first fault ends it. -/
theorem resolve_add (m : Memory) (value : Word) (j k : Nat) :
    m.resolve value (j + k) = m.resolve value j >>= fun address => m.resolve address k := by
  induction j generalizing value with
  | zero =>
      rw [Nat.zero_add]
      rfl
  | succ j ih =>
      rw [Nat.add_right_comm]
      by_cases within : m.InBounds value
      · rw [resolve_inside within, resolve_inside within, ih]
      · rw [resolve_outside within, resolve_outside within]
        rfl

/-- Links that lead to cells are all followed. -/
theorem resolve_of_inBounds (within : ∀ n < level, m.InBounds (m.link value n)) :
    m.resolve value level = .ok (m.link value level) := by
  induction level generalizing value with
  | zero => rfl
  | succ level ih =>
      have first : m.InBounds value := within 0 (Nat.zero_lt_succ level)
      rw [resolve_inside first, link_succ]
      apply ih
      intro n before
      rw [← link_succ]
      exact within (n + 1) (Nat.succ_lt_succ before)

/-- The first link that leads to no cell ends the chain, and what would come behind it has no part in that. -/
theorem resolve_of_first_outside {n : Nat} (before : n < level)
    (within : ∀ j < n, m.InBounds (m.link value j)) (outside : ¬ m.InBounds (m.link value n)) :
    m.resolve value level = .error (.addressOutOfBounds (m.link value n)) := by
  obtain ⟨more, rfl⟩ := Nat.exists_eq_add_of_lt before
  rw [Nat.add_assoc, resolve_add, resolve_of_inBounds within]
  exact resolve_outside outside more

/-- All of the links lead to cells, or there is a first one that does not. -/
theorem links_cases (m : Memory) (value : Word) (level : Nat) :
    (∀ n < level, m.InBounds (m.link value n)) ∨
      ∃ n < level, (∀ j < n, m.InBounds (m.link value j)) ∧ ¬ m.InBounds (m.link value n) := by
  induction level with
  | zero => exact Or.inl fun n before => absurd before (Nat.not_lt_zero n)
  | succ level ih =>
      rcases ih with within | ⟨n, before, within, outside⟩
      · by_cases last : m.InBounds (m.link value level)
        · exact Or.inl (Nat.forall_lt_succ_right.mpr ⟨within, last⟩)
        · exact Or.inr ⟨level, Nat.lt_succ_self level, within, last⟩
      · exact Or.inr ⟨n, Nat.lt_succ_of_lt before, within, outside⟩

theorem resolve_eq_ok_iff :
    m.resolve value level = .ok x ↔
      (∀ n < level, m.InBounds (m.link value n)) ∧ m.link value level = x := by
  rcases links_cases m value level with within | ⟨n, before, within, outside⟩
  · rw [resolve_of_inBounds within, and_iff_right within]
    exact ⟨Except.ok.inj, congrArg Except.ok⟩
  · rw [resolve_of_first_outside before within outside]
    constructor
    · intro same
      cases same
    · exact fun both => absurd (both.1 n before) outside

theorem resolve_eq_error_iff :
    m.resolve value level = .error fault ↔
      ∃ n < level, (∀ j < n, m.InBounds (m.link value j)) ∧ ¬ m.InBounds (m.link value n) ∧
        fault = .addressOutOfBounds (m.link value n) := by
  constructor
  · intro failed
    rcases links_cases m value level with within | ⟨n, before, within, outside⟩
    · rw [resolve_of_inBounds within] at failed
      cases failed
    · rw [resolve_of_first_outside before within outside] at failed
      exact ⟨n, before, within, outside, (Except.error.inj failed).symm⟩
  · rintro ⟨n, before, within, outside, rfl⟩
    exact resolve_of_first_outside before within outside

/-- Only the words that are read on the way count. -/
theorem resolve_congr (size : other.size = m.size)
    (same : ∀ address, m.Passes value level address → other.cell address.toNat = m.cell address.toNat) :
    other.resolve value level = m.resolve value level := by
  induction level generalizing value with
  | zero => rfl
  | succ level ih =>
      have here : other.cell value.toNat = m.cell value.toNat := same value (passes_succ_iff.mpr (Or.inl rfl))
      rw [resolve, read_congr size here, resolve]
      by_cases within : m.InBounds value
      · rw [read_inside within]
        exact ih fun address passed => same address (passes_succ_iff.mpr (Or.inr passed))
      · rw [read_outside within]
        rfl

theorem write_eq_ok_iff : m.write address x = .ok other ↔
    m.InBounds address ∧ m.put address.toNat x = other := by
  unfold write
  by_cases within : m.InBounds address
  · rw [if_pos within, and_iff_right within]
    exact ⟨Except.ok.inj, congrArg Except.ok⟩
  · rw [if_neg within]
    constructor
    · intro same
      cases same
    · exact fun both => absurd both.1 within

/-- Following links one after the other is following them in one go. A chain without links is not looked up in
memory at all. Any other chain can be followed if each of its values but the last is the address of a cell,
and then it leads to the last one; if not, the first value that is no such address is out of bounds. What is
written elsewhere leaves the chain alone. -/
theorem resolve_follows_links (m : Memory) (value : Word) :
    (∀ any : Memory, any.resolve value 0 = .ok value) ∧
    (∀ j k, m.resolve value (j + k) = m.resolve value j >>= fun address => m.resolve address k) ∧
    (∀ k x, m.resolve value k = .ok x ↔
      (∀ n < k, m.InBounds (m.link value n)) ∧ m.link value k = x) ∧
    (∀ k fault, m.resolve value k = .error fault ↔
      ∃ n < k, (∀ j < n, m.InBounds (m.link value j)) ∧ ¬ m.InBounds (m.link value n) ∧
        fault = .addressOutOfBounds (m.link value n)) ∧
    ∀ k x, m.resolve value k = .ok x → ∀ address word other,
      ¬ m.Passes value k address → m.write address word = .ok other → other.resolve value k = .ok x := by
  refine ⟨fun _ => rfl, resolve_add m value, fun k x => resolve_eq_ok_iff,
    fun k fault => resolve_eq_error_iff, ?_⟩
  intro k x resolved address word other apart written
  obtain ⟨_, rfl⟩ := write_eq_ok_iff.mp written
  rw [← resolved]
  apply resolve_congr (size_put m address.toNat word)
  intro passed passes
  apply cell_put_other
  intro same
  rw [BitVec.eq_of_toNat_eq same] at apart
  exact apart passes

/-- A circle of two registers, and beside it a register that holds no address. -/
theorem resolve_follows_links_around_a_circle :
    let circle := ((Memory.zero 20).put 3 5).put 5 3
    let marked := circle.put 4 (-1)
    circle.resolve 3 (2 + 3) = .ok 5 ∧ circle.write 4 (-1) = .ok marked ∧ marked.resolve 3 5 = .ok 5 ∧
      marked.resolve 4 1 = .ok (-1) ∧ marked.resolve 4 2 = .error (.addressOutOfBounds (-1)) := by
  intro circle marked
  obtain ⟨_, _, follows, _, kept⟩ := resolve_follows_links circle 3
  obtain ⟨_, _, ends, fails, _⟩ := resolve_follows_links marked 4
  have around : circle.resolve 3 5 = .ok 5 := (follows 5 5).mpr (by decide +kernel)
  have written : circle.write 4 (-1) = .ok marked := write_eq_ok_iff.mpr ⟨by decide, rfl⟩
  have beside : ¬ circle.Passes 3 5 4 := by
    have each : ∀ n < 5, circle.link 3 n ≠ 4 := by decide +kernel
    rintro ⟨n, before, here⟩
    exact each n before here
  exact ⟨around, written, kept 5 5 around 4 (-1) marked beside written, (ends 1 (-1)).mpr (by decide +kernel),
    (fails 2 _).mpr ⟨1, by decide, by decide +kernel, by decide +kernel, by decide +kernel⟩⟩

end StoredProgram.Memory
