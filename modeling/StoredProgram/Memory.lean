import StoredProgram.Fault
import StoredProgram.Register

set_option autoImplicit false

namespace StoredProgram

/-- A row of `size` words, addressed by signed words from 0 on. Pages that were never written are one and
the same, so a large memory costs little until it is used; `Memory.cell` is the view in which every
operation is described. -/
structure Memory where
  /-- The number of cells. -/
  size : Nat
  pages : Vector (Vector Word 256) ((size + 255) / 256)

namespace Memory

def zero (size : Nat) : Memory := ⟨size, Vector.replicate _ (Vector.replicate 256 0)⟩

/-- The word in cell `i`, and zero outside of the memory. -/
def cell (m : Memory) (i : Nat) : Word :=
  if h : i < m.size then
    have page : i / 256 < (m.size + 255) / 256 := by omega
    have slot : i % 256 < 256 := by omega
    m.pages[i / 256][i % 256]
  else 0

/-- The memory with `value` in cell `i`. Outside of the memory nothing changes. -/
def put (m : Memory) (i : Nat) (value : Word) : Memory :=
  { m with
    pages :=
      ⟨m.pages.toArray.modify (i / 256) fun page => page.set (i % 256) value (by omega), by simp⟩ }

@[simp] theorem size_zero (size : Nat) : (zero size).size = size := rfl

@[simp] theorem size_put (m : Memory) (i : Nat) (value : Word) : (m.put i value).size = m.size := rfl

@[simp] theorem cell_zero (size i : Nat) : (zero size).cell i = 0 := by
  simp [cell, zero]

theorem cell_put_same (m : Memory) {i : Nat} (value : Word) (h : i < m.size) :
    (m.put i value).cell i = value := by
  simp only [cell, put, h, ↓reduceDIte, Vector.getElem_mk, Array.getElem_modify, if_true,
    Vector.getElem_set_self]

theorem cell_put_other (m : Memory) {i j : Nat} (value : Word) (h : i ≠ j) :
    (m.put i value).cell j = m.cell j := by
  unfold cell put
  by_cases within : j < m.size
  · simp only [within, ↓reduceDIte, Vector.getElem_mk, Array.getElem_modify]
    split
    · rw [Vector.getElem_set_ne]
      · simp only [Vector.getElem_toArray]
      · omega
    · simp
  · simp [within]

/-- A signed address of one of the cells. -/
def InBounds (m : Memory) (address : Word) : Prop :=
  0 ≤ address.toInt ∧ address.toInt < m.size

instance (m : Memory) (address : Word) : Decidable (m.InBounds address) :=
  inferInstanceAs (Decidable (_ ∧ _))

/-- The word at an address, which must be one of a cell. -/
def read (m : Memory) (address : Word) : Except Fault Word :=
  if m.InBounds address then .ok (m.cell address.toNat) else .error (.addressOutOfBounds address)

@[inline] def write (m : Memory) (address value : Word) : Except Fault Memory :=
  if m.InBounds address then .ok (m.put address.toNat value)
  else .error (.addressOutOfBounds address)

/-- Follows `level` links from `value` on: each time the value so far is an address, and the word there
is the next value. At level zero the memory is not looked at. -/
def resolve (m : Memory) (value : Word) : Nat → Except Fault Word
  | 0 => .ok value
  | level + 1 => do m.resolve (← m.read value) level

def putAll (m : Memory) (start : Nat) : List Word → Memory
  | [] => m
  | word :: words => (m.put start word).putAll (start + 1) words

/-- Copies `words` to the cells from `start` on, if all of them fit. -/
@[inline] def copy (m : Memory) (start : Nat) (words : List Word) : Except Fault Memory :=
  if start + words.length ≤ m.size then .ok (m.putAll start words)
  else .error (.imageTooLarge words.length m.size)

/-- The register file, as far as the memory reaches. -/
def registers (m : Memory) : List Word :=
  (List.range (min Register.count m.size)).map m.cell

end Memory
end StoredProgram
