import Courier.Files.Basic
import Courier.Journal.Basic
import Courier.Time.Timestamp
import Courier.Transfer.Report
import Courier.Wire.Header

/-!
# The event log

A text file to which a listener adds a line for every event, each with the time in front. A
line that cannot be written is left out, and no one is told.
-/

namespace Courier

inductive Event where
  | listening (address : String) (root : Path) (workers : Nat)
  | session (peer : String) (command : Command) (path : String)
  | done (direction : Direction) (path : Path) (size : Nat) (seconds : Double)
  | error (context : String) (path : Path) (message : String)
deriving DecidableEq, Repr, Inhabited

def Event.text : Event → String
  | .listening address root workers =>
    s!"LISTEN bind={address} root={root.display} workers={workers}"
  | .session peer command path => s!"SESSION peer={peer} cmd={command.text} path={path}"
  | .done direction path size seconds =>
    s!"DONE dir={direction.text} path={path.display} bytes={size} seconds={seconds.fixed 3}"
  | .error context path message => s!"ERROR ctx={context} path={path.display} msg={message}"

/-- The log file, opened once; without one nothing is written. -/
structure EventLog where
  handle : Option FileHandle
deriving DecidableEq, Repr, Inhabited

namespace EventLog

def silent : EventLog :=
  ⟨none⟩

/-- Opens the log at a path and makes the folder for it where that works. -/
def start (p : Path) (fs : Files) : Except Fault EventLog × Files :=
  match (Journal.makeRoom p fs).openToAppend p with
  | (.ok h, fs) => (.ok ⟨some h⟩, fs)
  | (.error f, fs) => (.error f, fs)

def line (wall : Int) (e : Event) : String :=
  s!"[{Timestamp.render wall}] {e.text}\n"

def note (log : EventLog) (clock : Clock) (e : Event) (fs : Files) : Files :=
  match log.handle with
  | some h => (fs.append h (bytes (line clock.wall e))).2
  | none => fs

end EventLog

end Courier
