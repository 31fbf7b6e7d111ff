import Courier.Session.Run
import Courier.Transfer.Receiver
import Courier.Transfer.Sender

/-!
# Sessions in steps

A session taken apart into steps, so that others can take theirs in between: it reads its header,
notes that in the log, resolves the path, runs its transfer step by step, notes what has come of it
in the log, and adds it to the journal. It is over at once when its transfer panics.

* `Course.step`: the next step of a session.
-/

namespace Courier.Session

open Transfer (Phase SendPhase Receiver Sender)

/-- How far a session has come. -/
inductive Stage where
  | fresh
  /-- There is a valid header. -/
  | heard (header : Header)
  /-- The log has been told. -/
  | announced (header : Header)
  /-- The path is resolved to a file. -/
  | located (header : Header) (file : Path)
  | storing (header : Header) (file : Path) (phase : Phase)
  | sending (header : Header) (file : Path) (source : Inbound) (phase : SendPhase)
  /-- The transfer is over, or the file to be sent is none. -/
  | settled (header : Header) (file : Path) (result : Except TransferError Report)
  /-- The log has been told of that, too. -/
  | noted (header : Header) (file : Path) (result : Except TransferError Report)
  | finished (result : Except TransferError Report)
deriving Repr, Inhabited

/-- Whether the transfer of a session counts among those running. -/
def Stage.counted : Stage → Bool
  | .storing _ _ phase => phase.counted
  | .sending _ _ _ phase => phase.counted
  | _ => false

/-- The receive of a session, with its destination. -/
def Stage.receive? : Stage → Option (Path × Phase)
  | .storing _ file phase => some (file, phase)
  | _ => none

/-- Whether a session takes no more steps. -/
def Stage.isOver : Stage → Bool
  | .finished _ => true
  | _ => false

/-- Where a session goes on when its transfer is over. -/
def Stage.afterTransfer (header : Header) (file : Path) (result : Except TransferError Report) :
    Stage :=
  if TransferError.hasPanicked result then .finished result else .settled header file result

/-- After a panic nothing is noted. -/
theorem Stage.afterTransfer_of_panicked {result : Except TransferError Report}
    (h : TransferError.hasPanicked result = true) (header : Header) (file : Path) :
    afterTransfer header file result = .finished result :=
  if_pos h

/-- A transfer that has ended in any other way is noted. -/
theorem Stage.afterTransfer_of_not {result : Except TransferError Report}
    (h : TransferError.hasPanicked result = false) (header : Header) (file : Path) :
    afterTransfer header file result = .settled header file result := by
  unfold afterTransfer
  rw [h]
  rfl

structure Course where
  ctx : Context
  peer : String
  connection : Connection
  stage : Stage := .fresh
  /-- The session has begun a transfer. -/
  began : Bool := false
deriving Repr, Inhabited

/-- The next step of a session; one that is over takes none. -/
def Course.step (c : Course) (m : Machine) : Course × Machine :=
  match c.stage with
  | .fresh =>
    match Header.read c.connection.inbound m.ambient with
    | (.error e, inbound, ambient) =>
      ({ c with connection := { c.connection with inbound }, stage := .finished (.error e) },
        { m with ambient })
    | (.ok header, inbound, ambient) =>
      ({ c with connection := { c.connection with inbound }, stage := .heard header },
        { m with ambient })
  | .heard header =>
    ({ c with stage := .announced header },
      m.mapFiles (c.ctx.log.note m.ambient.clock (.session c.peer header.command header.path)))
  | .announced header =>
    match resolve m.files c.ctx.root (.of header.path) with
    | .error e => ({ c with stage := .finished (.error e) }, m)
    | .ok location => ({ c with stage := .located header (Files.pathOf location) }, m)
  | .located header file =>
    match header.command with
    | .store => ({ c with stage := .storing header file .fresh }, m)
    | .retrieve =>
      if m.files.isFile file then ({ c with stage := .sending header file (.of []) .fresh }, m)
      else
        let e : TransferError := .filesystem .requestFile file noRegularFile
        ({ c with stage := .settled header file (.error e) }, m)
  -- a transfer that has ended is over for the session too; until then its steps are the session's
  | .storing header file (.ended result) =>
    ({ c with stage := .afterTransfer header file result }, m)
  | .storing header file phase =>
    let (r, ambient, files) := Receiver.step file ⟨c.ctx.settings, c.connection.inbound, phase⟩
      m.ambient m.files
    ({ c with
        connection := { c.connection with inbound := r.inbound }
        stage := .storing header file r.phase
        began := true }, { m with ambient, files })
  | .sending header file _ (.ended result) =>
    ({ c with stage := .afterTransfer header file result }, m)
  | .sending header file source phase =>
    let (s, ambient) := Sender.step
      ⟨c.ctx.settings, some file, source, c.connection.outbound, phase⟩ m.ambient m.files
    ({ c with
        connection := { c.connection with outbound := s.outbound }
        stage := .sending header file s.source s.phase
        began := true }, { m with ambient })
  | .settled header file result =>
    ({ c with stage := .noted header file result },
      m.mapFiles (c.ctx.log.note m.ambient.clock (eventOf header.command file result)))
  | .noted header file result =>
    ({ c with stage := .finished result }, journalize c.ctx header.command c.peer file result m)
  | .finished _ => (c, m)

end Courier.Session
