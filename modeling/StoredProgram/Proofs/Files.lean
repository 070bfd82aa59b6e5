import StoredProgram.Files

set_option autoImplicit false

namespace StoredProgram

namespace FileView

variable {σ File : Type} {view : FileView σ File} {s s' s'' : σ} {path : String} {file : File}
  {earlier bytes : List UInt8}

theorem Puts.trans (first : view.Puts s s' file earlier) (second : view.Puts s' s'' file bytes) :
    view.Puts s s'' file bytes where
  put := second.put
  kept other apart := (second.kept other apart).trans (first.kept other apart)
  paths path other leads := second.paths path other (first.paths path other leads)

/-- Between two states the file at a path got new contents, and nothing else changed. -/
def Replaced (view : FileView σ File) (s s' : σ) (path : String) (bytes : List UInt8) : Prop :=
  ∃ file, view.Puts s s' file bytes ∧ view.fileAt s' path = some file

theorem Replaced.holds (replaced : view.Replaced s s' path bytes) : view.Holds s' path bytes := by
  obtain ⟨file, puts, leads⟩ := replaced
  exact ⟨file, leads, puts.put⟩

end FileView

namespace Files

/-- Files by their paths alone: different paths lead to different files, and every path can be opened for
writing. -/
abbrev ByPath : Type := String → Option (List UInt8)

namespace ByPath

def files : Files (StateM ByPath) String where
  read path := fun s =>
    match s path with
    | some bytes => (.ok bytes, s)
    | none => (.error "No such file or directory (os error 2)", s)
  create path := fun s => (.ok path, fun other => if other = path then some [] else s other)
  write file bytes := fun s =>
    (.ok (), fun other => if other = file then (s other).map (· ++ bytes) else s other)

def view : FileView ByPath String where
  fileAt s path := (s path).map fun _ => path
  contents s file := s file

theorem fileAt_eq_some_iff {s : ByPath} {path file : String} :
    view.fileAt s path = some file ↔ (∃ bytes, s path = some bytes) ∧ path = file := by
  simp only [view, Option.map_eq_some_iff, exists_and_right]

theorem holds_iff {s : ByPath} {path : String} {bytes : List UInt8} :
    view.Holds s path bytes ↔ s path = some bytes := by
  constructor
  · rintro ⟨file, leads, held⟩
    obtain ⟨_, rfl⟩ := fileAt_eq_some_iff.mp leads
    exact held
  · intro held
    exact ⟨path, fileAt_eq_some_iff.mpr ⟨⟨bytes, held⟩, rfl⟩, held⟩

theorem lawful : files.Lawful view where
  read_state path s := by
    simp only [files]
    cases s path <;> rfl
  read_ok := by
    intro path s bytes read
    cases held : s path with
    | none => simp [files, held] at read
    | some stored =>
        simp only [files, held, Except.ok.injEq] at read
        subst read
        exact ⟨path, fileAt_eq_some_iff.mpr ⟨⟨stored, held⟩, rfl⟩, held⟩
  create_error failed := by cases failed
  create_ok := by
    intro path s s' file created
    cases created
    refine ⟨⟨if_pos rfl, fun other apart => if_neg apart, ?_⟩,
      fileAt_eq_some_iff.mpr ⟨⟨[], if_pos rfl⟩, rfl⟩⟩
    intro other file leads
    obtain ⟨⟨bytes, held⟩, rfl⟩ := fileAt_eq_some_iff.mp leads
    refine fileAt_eq_some_iff.mpr ⟨?_, rfl⟩
    by_cases same : other = path
    · exact ⟨[], if_pos same⟩
    · exact ⟨bytes, (if_neg same).trans held⟩
  write_created := by
    intro path s s' file bytes created
    cases created
    refine ⟨_, rfl, ?_, ?_, ?_⟩
    · simp [view]
    · intro other apart
      exact if_neg apart
    · intro other file leads
      obtain ⟨⟨held, stored⟩, rfl⟩ := fileAt_eq_some_iff.mp leads
      refine fileAt_eq_some_iff.mpr ⟨?_, rfl⟩
      by_cases same : other = path
      · exact ⟨bytes, by simp [same]⟩
      · exact ⟨held, (if_neg same).trans stored⟩

end ByPath
end Files
end StoredProgram
