import Courier.Files.Basic
import Courier.Text.Quoted
import Courier.Transfer.Error

/-!
# Staged files

What is received goes to a file of its own first, next to its destination and named after it:
the name of the destination, a point, six random letters or digits, and `.part`.

* `Staged.make`: makes such a file;
* `Staged.isFor`: recognises one by its name.
-/

namespace Courier

/-- A staged file: where it is, and the file opened there. -/
structure Staged where
  path : Path
  handle : FileHandle
deriving Repr, Inhabited

namespace Staged

/-- What stands before and after the random part of the name. -/
def lead (dest : Path) : Bytes :=
  dest.fileName?.getD [] ++ [Path.dot]

def tail : Bytes :=
  bytes ".part"

/-- The fault of making the file at a path, with the path in its text. -/
def faultAt (f : Fault) (p : Path) : Fault :=
  .described f.kind s!"{f.text} at path {Quoted.render p.text}"

/-- Makes a staged file for a destination, under an absolute path. -/
def make (dest : Path) (fs : Files) : Except TransferError Staged × Files :=
  let folder := (Files.pathOf fs.here).join dest.folder
  match Files.createUnique folder (lead dest) tail 0o644 fs.draws fs with
  | (.ok (path, handle), fs) => (.ok ⟨path, handle⟩, fs)
  | (.error (f, p), fs) => (.error (.filesystem .createStaged dest.folder (faultAt f p)), fs)

/-- Whether `candidate` is named as a staged file for `dest` is. The names are compared as they
are shown, their lengths in octets. -/
def isFor (dest candidate : Path) : Bool :=
  match dest.fileName?, candidate.fileName?, candidate.parent? with
  | some destName, some name, some parent =>
    let destName := (Utf8.lossy destName).toList
    let name := (Utf8.lossy name).toList
    decide (parent.Same dest.folder)
      && (Utf8.encodeChars destName).length + 1 < (Utf8.encodeChars name).length
      && (destName ++ ['.']).isPrefixOf name
      && ".part".toList.isSuffixOf name
  | _, _, _ => false

end Staged

end Courier
