import Courier.Program.Client
import Courier.Program.Daemon

/-!
# The command line

The words `ferry` and `ferryd` in front of the arguments name the client and the daemon.
Several programs, set apart by a plus sign, run one after the other on one machine, so that a
client reaches the daemons in front of it. They find the files below the working folder and
the settings file of the user; what they change there is then changed on the disk.
-/

namespace Courier.Main

open Program (Outcome)

/-! ## Running programs -/

/-- The command lines between the plus signs. -/
def commandLines : List String → List (List String)
  | [] => [[]]
  | "+" :: rest => [] :: commandLines rest
  | word :: rest =>
    match commandLines rest with
    | [] => [[word]]
    | line :: lines => (word :: line) :: lines

def runOne (line : List String) (n : Network) (m : Machine) : Outcome × Network × Machine :=
  match line with
  | "ferry" :: args => Program.Client.run args n m
  | "ferryd" :: args => Program.Daemon.run args n m
  | _ => (.refused .unknownCommand, n, m)

/-- Runs programs in turn. The outcome is that of the last one. -/
def runAll : List (List String) → Network → Machine → Outcome × Network × Machine
  | [], n, m => (.done, n, m)
  | [line], n, m => runOne line n m
  | line :: lines, n, m =>
    let (_, n, m) := runOne line n m
    runAll lines n m

def usage : String :=
  "usage: ferry push LOCAL REMOTE | ferry pull REMOTE LOCAL [--print] | ferryd [--root DIR]"

/-! ## The disk -/

def locationOf (path : String) : Location :=
  (Path.of path).names

def textOf (l : Location) : String :=
  (Files.pathOf l).display

def octetsOf (content : ByteArray) : Bytes :=
  content.toList

/-- A folder of the disk and all that is in it. -/
partial def loadFolder (path : String) : IO (List (Location × Entry)) := do
  let folder ← IO.FS.realPath path
  let mut found := [(locationOf path, Entry.folder 0o755)]
  for e in ← folder.readDir do
    if ← e.path.isDir then
      found := found ++ (← loadFolder e.path.toString)
    else
      let content := octetsOf (← IO.FS.readBinFile e.path)
      found := (locationOf e.path.toString, .file 0o644 found.length content) :: found
  return found

/-- A single file of the disk, if it is there. -/
def loadFile (path : String) : IO (List (Location × Entry)) := do
  try
    return [(locationOf path, .file 0o600 0 (octetsOf (← IO.FS.readBinFile path)))]
  catch _ => return []

/-- The time of day: that of a file made just now. -/
def wallClock : IO Int := do
  let (_, path) ← IO.FS.createTempFile
  let stamp := (← path.metadata).modified
  IO.FS.removeFile path
  return stamp.sec * 1000000000 + stamp.nsec.toNat

/-- Every entry with the folders above it. -/
def treeOf (entries : List (Location × Entry)) : Tree :=
  entries.foldl (fun t (l, e) =>
    let above := (List.range l.length).map l.take
    let t := above.foldl (fun t l => if (t.get? l).isSome then t else t.put l (.folder 0o755)) t
    t.put l e) ⟨[([], .folder 0o755)]⟩

def loadMachine : IO Machine := do
  let here := (← IO.currentDir).toString
  let home := (← IO.getEnv "HOME").map Path.of
  let settings ← loadFile (Settings.userFile home).display
  let entries := settings ++ (← loadFolder here)
  return {
    files := { tree := treeOf entries, here := locationOf here, drawn := entries.length }
    ambient :=
      { clock := { wall := ← wallClock, steady := 0, pauses := [] }, others := 0, own := 0 }
    home }

/-- Does on the disk what was done to the tree. -/
def carryOut : Change → IO Unit
  | .create l (.folder _) => IO.FS.createDir (textOf l)
  | .create l (.file _ _ content) | .overwrite l content =>
    IO.FS.writeBinFile (textOf l) ⟨content.toArray⟩
  | .append l octets => do
    let h ← IO.FS.Handle.mk (textOf l) .append
    h.write ⟨octets.toArray⟩
  | .move source target => IO.FS.rename (textOf source) (textOf target)
  | .remove l => IO.FS.removeFile (textOf l)
  | .create _ (.link _) | .setMode _ _ => pure ()

end Courier.Main

def main (args : List String) : IO UInt32 := do
  let (outcome, n, m) := Courier.Main.runAll (Courier.Main.commandLines args) {}
    (← Courier.Main.loadMachine)
  m.files.changes.reverse.forM Courier.Main.carryOut
  for console in n.listeners.map (·.console) ++ [m.console] do
    IO.print console.outText
    console.errLines.forM IO.eprintln
  match outcome with
  | .refused .versionAsked => IO.println Courier.Program.version
  | .refused .helpAsked => IO.println Courier.Main.usage
  | .refused _ => IO.eprintln Courier.Main.usage
  | _ => pure ()
  return (outcome.exitCode?.getD 0).toUInt32
