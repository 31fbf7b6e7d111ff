import Courier.Files.Basic
import Courier.Journal.Record
import Courier.Text.Blank
import Courier.Text.Lines

/-!
# The journal

A file with one line for each finished transfer, only ever added to.

* `Journal.add`: one more record at the end;
* `Journal.read`: all records, in the order in which they were added.
-/

namespace Courier.Journal

/-- Why a record was not added. -/
inductive AddError where
  | notOpened (fault : Fault)
  | pathNotText
  | notWritten (fault : Fault)
deriving DecidableEq, Repr, Inhabited

def AddError.text : AddError → String
  | .notOpened _ => "Failed to open transfer log file"
  | .pathNotText => "path contains invalid UTF-8 characters"
  | .notWritten fault => fault.text

/-- Makes the folder of a file that is to be added to, where that works. -/
def makeRoom (p : Path) (fs : Files) : Files :=
  match p.parent? with
  | some parent => (fs.makeFolders parent).2
  | none => fs

/-- Adds a record. A record whose path is no text fails when the path is reached; what is
written before it stays, as far as it gets into the file. -/
def add (journal : Path) (r : Record) (fs : Files) : Except AddError Unit × Files :=
  match (makeRoom journal fs).openToAppend journal with
  | (.error f, fs) => (.error (.notOpened f), fs)
  | (.ok h, fs) =>
    match r.render? with
    | none => (.error .pathNotText, (fs.append h (Utf8.encodeChars r.start)).2)
    | some line =>
      match fs.append h (Utf8.encodeChars (line ++ ['\n'])) with
      | (.ok (), fs) => (.ok (), fs)
      | (.error f, fs) => (.error (.notWritten f), fs)

/-- Why a journal could not be read. -/
inductive ReadError where
  | fault (fault : Fault)
  | noRecord (line : String)
deriving DecidableEq, Repr, Inhabited

/-- The records in some lines, onto those read before with the newest in front. A line of
blanks counts for nothing. -/
def recordsOnto (read : List Record) : List Bytes → Except ReadError (List Record)
  | [] => .ok read.reverse
  | line :: rest =>
    match Utf8.decode? line with
    | none => .error (.fault .notText)
    | some text =>
      if (Text.trim text.toList).isEmpty then recordsOnto read rest
      else
        match Record.parse? text.toList with
        | some r => recordsOnto (r :: read) rest
        | none => .error (.noRecord text)

def records (content : Bytes) : Except ReadError (List Record) :=
  recordsOnto [] (Text.lines 0x0A 0x0D content)

/-- The records of a journal; none if there is no such file. -/
def read (journal : Path) (fs : Files) : Except ReadError (List Record) :=
  if fs.existsAt journal then
    match fs.read journal with
    | .ok content => records content
    | .error f => .error (.fault f)
  else .ok []

/-- The identifier of the `n`-th record, a UUID of version 4. -/
def idOf (n : Nat) : String :=
  let digit (place : Nat) : Char := Violation.hexDigit ((n >>> (4 * place)) % 16)
  String.ofList ("00000000-0000-4000-8000-".toList ++ ((List.range 12).reverse.map digit))

end Courier.Journal
