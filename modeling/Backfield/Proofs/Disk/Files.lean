import Backfield.Proofs.Disk.Directories
import Backfield.Proofs.Disk.TemporaryFiles

/-!
# Files in a directory

Writing a file into a directory that is there has one of two ends: the file is there and nothing
else has changed, or a directory is in its place and nothing has changed.  `writeBytes_cases` says
so.
-/

namespace Backfield.Disk

variable {disk : Disk} {cwd : Key} {p : Path} {bytes : List UInt8}

/-! ## The two ends -/

/-- The file is there, and nothing else has changed. -/
def Change.Writes (change : Change) (disk : Disk) (key : Key) (bytes : List UInt8) : Prop :=
  disk.get? key ≠ some .directory ∧ change.result = .ok () ∧
    change.disk.get? = View.withFile disk.get? key bytes

/-- A directory is in the place of the file, and nothing has changed. -/
def Change.MeetsDirectory (change : Change) (disk : Disk) (key : Key) : Prop :=
  disk.get? key = some .directory ∧ change.disk.get? = disk.get? ∧
    ∃ p, change.result = .error (p, .isDirectory)

theorem get?_put_file {key : Key} (hkey : key ≠ []) :
    (disk.put key (.file bytes)).get? = View.withFile disk.get? key bytes := by
  funext other
  exact get?_put hkey other _

theorem writeBytes_cases (htree : View.IsTree disk.get?)
    (hstart : disk.get? (startOf cwd p.root) = some .directory) (hdots : ".." ∉ p.parts)
    (hparent : disk.get? (keyOf cwd p.parent) = some .directory) :
    (disk.writeBytes cwd p bytes).Writes disk (keyOf cwd p) bytes ∨
      (disk.writeBytes cwd p bytes).MeetsDirectory disk (keyOf cwd p) := by
  rw [writeBytes, locate_of_directory htree hstart hdots hparent]
  dsimp only
  split
  · rename_i hdirectory
    exact Or.inr ⟨hdirectory, rfl, p, rfl⟩
  · rename_i hfree
    exact Or.inl ⟨hfree, rfl, get?_put_file (ne_nil_of_not_directory hfree)⟩

end Backfield.Disk
