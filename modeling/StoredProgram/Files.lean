set_option autoImplicit false

namespace StoredProgram

/-- The calls by which a command reaches files. They take effect in `m`, and a call that fails gives the
words of the system for it. -/
structure Files (m : Type → Type) (File : Type) where
  /-- Reads the file at a path to its end. -/
  read : String → m (Except String (List UInt8))
  /-- Opens the file at a path for writing. If there is one, it loses what it holds. -/
  create : String → m (Except String File)
  /-- Writes to a file that was opened for writing. -/
  write : File → List UInt8 → m (Except String Unit)

/-- How files are seen in a state. Several paths may lead to one file, and of a file that is not there
nothing is held. -/
structure FileView (σ File : Type) where
  fileAt : σ → String → Option File
  contents : σ → File → Option (List UInt8)

namespace FileView

variable {σ File : Type} (view : FileView σ File)

/-- The file at the end of a path holds the given bytes. -/
def Holds (s : σ) (path : String) (bytes : List UInt8) : Prop :=
  ∃ file, view.fileAt s path = some file ∧ view.contents s file = some bytes

/-- Between two states one file got new contents. No other file changed, and the paths that led to a file
lead there still. -/
structure Puts (s s' : σ) (file : File) (bytes : List UInt8) : Prop where
  put : view.contents s' file = some bytes
  kept : ∀ other, other ≠ file → view.contents s' other = view.contents s other
  paths : ∀ path other, view.fileAt s path = some other → view.fileAt s' path = some other

end FileView

/-- What is known of the calls. -/
structure Files.Lawful {σ File : Type} (files : Files (StateM σ) File) (view : FileView σ File) : Prop where
  /-- Reading changes nothing. -/
  read_state (path : String) (s : σ) : (files.read path s).2 = s
  read_ok {path : String} {s : σ} {bytes : List UInt8} :
    (files.read path s).1 = .ok bytes → view.Holds s path bytes
  /-- A file that cannot be opened for writing is left as it is, and so is every other one. -/
  create_error {path : String} {s s' : σ} {message : String} :
    files.create path s = (.error message, s') → s' = s
  create_ok {path : String} {s s' : σ} {file : File} :
    files.create path s = (.ok file, s') → view.Puts s s' file [] ∧ view.fileAt s' path = some file
  /-- Writing to a file that was just opened does not fail. -/
  write_created {path : String} {s s' : σ} {file : File} (bytes : List UInt8) :
    files.create path s = (.ok file, s') →
      ∃ s'', files.write file bytes s' = (.ok (), s'') ∧ view.Puts s' s'' file bytes

end StoredProgram
