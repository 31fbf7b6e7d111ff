import Courier.Files.Basic
import Courier.Stream.Ambient
import Courier.Transfer.Content

/-!
# The machine

What a program finds around it: the file system, the clock and the count of transfers, the
two streams of the console, and the home folder of the user.
-/

namespace Courier

/-- What was printed, latest in front: text on the one stream, whole lines on the other. -/
structure Console where
  out : List String := []
  err : List String := []
deriving Repr, Inhabited

namespace Console

def print (c : Console) (text : String) : Console :=
  { c with out := text :: c.out }

def warn (c : Console) (line : String) : Console :=
  { c with err := line :: c.err }

def outText (c : Console) : String :=
  String.join c.out.reverse

/-- The lines of the second stream, in order. -/
def errLines (c : Console) : List String :=
  c.err.reverse

end Console

structure Machine where
  files : Files
  ambient : Ambient
  console : Console := {}
  home : Option Path := none
deriving Repr, Inhabited

namespace Machine

def print (m : Machine) (text : String) : Machine :=
  { m with console := m.console.print text }

def warn (m : Machine) (line : String) : Machine :=
  { m with console := m.console.warn line }

def mapFiles (m : Machine) (f : Files → Files) : Machine :=
  { m with files := f m.files }

/-- Shows a file on the console; one that cannot be read is reported. -/
def showContent (m : Machine) (p : Path) : Machine :=
  match Transfer.writeContent m.files p .willing m.ambient with
  | (.ok (), s, _) => m.print (Utf8.lossy s.wire)
  | (.error f, s, _) =>
    (m.print (Utf8.lossy s.wire)).warn s!"failed to print {p.display}: {f.text}"

end Machine

end Courier
