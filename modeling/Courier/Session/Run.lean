import Courier.EventLog
import Courier.Machine
import Courier.Session.Resolve
import Courier.Transfer.Receive
import Courier.Wire.Header

/-!
# Sessions

A session reads a header, resolves its path under the served root and runs one transfer. What
comes of the transfer is noted in the event log and in the journal; a session that does not
get that far, or panics in its transfer, leaves at most its opening line in the log.
-/

namespace Courier.Session

/-- What sessions of one listener have in common. -/
structure Context where
  root : Path
  settings : Settings
  log : EventLog := .silent
  journal : Option Path := none
deriving Repr, Inhabited

/-- The two sides of one connection. -/
structure Connection where
  inbound : Inbound
  outbound : Outbound
deriving Repr, Inhabited

def direction : Command → Direction
  | .store => .receive
  | .retrieve => .send

def noRegularFile : Fault :=
  .described .notFound "no such regular file"

/-- Runs the one transfer of a session. -/
def transfer (ctx : Context) (command : Command) (file : Path) (c : Connection) (m : Machine) :
    Except TransferError Report × Connection × Machine :=
  match command with
  | .store =>
    let (result, inbound, ambient, files) :=
      Transfer.receiveFile ctx.settings file c.inbound m.ambient m.files
    (result, { c with inbound }, { m with ambient, files })
  | .retrieve =>
    if m.files.isFile file then
      let (result, outbound, ambient) :=
        Transfer.sendFile ctx.settings m.files file c.outbound m.ambient
      (result, { c with outbound }, { m with ambient })
    else (.error (.filesystem .requestFile file noRegularFile), c, m)

/-- What the event log says of a transfer. -/
def eventOf (command : Command) (file : Path) : Except TransferError Report → Event
  | .ok report => .done (direction command) report.path report.size report.seconds
  | .error e => .error command.text file e.text

/-- What the journal says of a transfer. -/
def recordOf (clock : Clock) (id : Nat) (command : Command) (peer : String) (file : Path)
    (result : Except TransferError Report) : Record :=
  let r :=
    Record.begin (Timestamp.render clock.wall) (Journal.idOf id) (direction command) peer file
  match result with
  | .ok report => r.completed report.size.toUInt64
  | .error e => r.failed e.text

/-- Adds a transfer to the journal, if there is one. A journal that cannot be written is
reported and changes nothing else. -/
def journalize (ctx : Context) (command : Command) (peer : String) (file : Path)
    (result : Except TransferError Report) (m : Machine) : Machine :=
  match ctx.journal with
  | none => m
  | some journal =>
    let record := recordOf m.ambient.clock m.files.drawn command peer file result
    match Journal.add journal record { m.files with drawn := m.files.drawn + 1 } with
    | (.ok (), files) => { m with files }
    | (.error e, files) =>
      { m with files }.warn s!"journal write failed ({journal.display}): {e.text}"

/-- An entry in the journal takes no time and makes no sound on the streams. -/
theorem ambient_journalize (ctx : Context) (command : Command) (peer : String) (file : Path)
    (result : Except TransferError Report) (m : Machine) :
    (journalize ctx command peer file result m).ambient = m.ambient := by
  unfold journalize
  split
  · rfl
  · dsimp only
    split <;> rfl

/-- What is written down of a transfer that is over: a line in the log, and a record in the
journal. Of one that panicked nothing is. -/
def conclude (ctx : Context) (command : Command) (peer : String) (file : Path)
    (result : Except TransferError Report) (m : Machine) : Machine :=
  if TransferError.hasPanicked result then m
  else
    journalize ctx command peer file result
      (m.mapFiles (ctx.log.note m.ambient.clock (eventOf command file result)))

/-- Nor do the last entries of a session. -/
theorem ambient_conclude (ctx : Context) (command : Command) (peer : String) (file : Path)
    (result : Except TransferError Report) (m : Machine) :
    (conclude ctx command peer file result m).ambient = m.ambient := by
  unfold conclude
  split
  · rfl
  · rw [ambient_journalize]
    rfl

/-- The part of a session that follows a valid header. -/
def serve (ctx : Context) (peer : String) (header : Header) (c : Connection) (m : Machine) :
    Except TransferError Report × Connection × Machine :=
  let m := m.mapFiles (ctx.log.note m.ambient.clock (.session peer header.command header.path))
  match resolve m.files ctx.root (.of header.path) with
  | .error e => (.error e, c, m)
  | .ok location =>
    let file := Files.pathOf location
    let (result, c, m) := transfer ctx header.command file c m
    (result, c, conclude ctx header.command peer file result m)

def run (ctx : Context) (peer : String) (c : Connection) (m : Machine) :
    Except TransferError Report × Connection × Machine :=
  match Header.read c.inbound m.ambient with
  | (.error e, inbound, ambient) => (.error e, { c with inbound }, { m with ambient })
  | (.ok header, inbound, ambient) => serve ctx peer header { c with inbound } { m with ambient }

end Courier.Session
