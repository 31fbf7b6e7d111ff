import Courier.CommandLine.Programs
import Courier.Endpoint.Network
import Courier.Program.Outcome

/-!
# The daemon

Serves a folder: the settings are checked, the folder and the event log are made ready, and
then it listens. Whatever fails on the way ends the program with a report.
-/

namespace Courier.Program.Daemon

open CommandLine (DaemonOptions)

/-- The settings that the daemon runs with: the number of workers may be given apart. -/
def settingsOf (options : DaemonOptions) (home : Option Path) (fs : Files) :
    Except Settings.LoadError Settings :=
  match options.tuning.resolve home fs with
  | .error e => .error e
  | .ok s => { s with workers := options.workers.getD s.workers }.validated

/-- The served folder without links, made if it is missing. -/
def prepareRoot (root : Path) (fs : Files) : Except (List String) Path × Files :=
  match fs.makeFolders root with
  | (.error f, fs) => (.error [s!"create root directory {root.display}", f.text], fs)
  | (.ok (), fs) =>
    if fs.isFolder root then
      match fs.canonical root with
      | .ok root => (.ok root, fs)
      | .error f =>
        (.error [s!"Failed to canonicalize root path: {root.display}", f.text], fs)
    else (.error [s!"Error: Root path is not a directory: {root.display}"], fs)

def openLog (file : Option Path) (fs : Files) : Except (List String) EventLog × Files :=
  match file with
  | none => (.ok .silent, fs)
  | some file =>
    match EventLog.start file fs with
    | (.ok log, fs) => (.ok log, fs)
    | (.error f, fs) => (.error [s!"open log {file.display}", f.text], fs)

def banner (root : Path) (options : DaemonOptions) (s : Settings) : String :=
  let journal := match options.journal with
    | some file => s!"  Journal: {file.display}\n"
    | none => ""
  "Starting ferry daemon:\n" ++
    s!"  Root: {root.display}\n" ++
    s!"  Bind: {options.bind}\n" ++
    s!"  Workers: {s.workers}  base rate: {s.baseRate} B/s  " ++
    s!"retries: {s.maxRetries} x {s.retryDelayMillis}ms\n" ++ journal

def listeningLine (l : Listener) : String :=
  s!"ferryd listening on {l.address.text} root={l.context.root.display} workers={l.workers}"

/-- Tells that a listener waits. It takes the console of the program over. -/
def announce (l : Listener) (m : Machine) : Listener × Machine :=
  let event := .listening l.address.text l.context.root l.workers
  let m := m.mapFiles (l.context.log.note m.ambient.clock event)
  ({ l with console := m.console.warn (listeningLine l) }, { m with console := {} })

/-- Listens with everything at hand. -/
def serve (options : DaemonOptions) (s : Settings) (root : Path) (log : EventLog) (n : Network)
    (m : Machine) : Outcome × Network × Machine :=
  let m := m.print (banner root options s)
  let context := { root, settings := s, log, journal := options.journal }
  match n.listen options.bind s.workers.toNat context with
  | .error e => fail e.texts n m
  | .ok (l, n) =>
    let (l, m) := announce l m
    let place := n.listeners.length - 1
    (.serving place, { n with listeners := n.listeners.set place l }, m)

def start (options : DaemonOptions) (n : Network) (m : Machine) : Outcome × Network × Machine :=
  match settingsOf options m.home m.files with
  | .error e => fail e.texts n m
  | .ok s =>
    match prepareRoot options.root m.files with
    | (.error texts, files) => fail texts n { m with files }
    | (.ok root, files) =>
      match openLog options.logFile files with
      | (.error texts, files) => fail texts n { m with files }
      | (.ok log, files) => serve options s root log n { m with files }

/-- What is printed when the user interrupts the daemon. -/
def interruption : String :=
  "\nInterrupted. Exiting (Ctrl-C)..."

def run (args : List String) (n : Network) (m : Machine) : Outcome × Network × Machine :=
  match DaemonOptions.parse args with
  | .error refusal => (.refused refusal, n, m)
  | .ok options => start options n m

end Courier.Program.Daemon
