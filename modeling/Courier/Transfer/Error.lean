import Courier.Fault.Basic
import Courier.Path

/-!
# Transfer errors

Why a session or a transfer ended without success: the connection failed, the peer broke the
rules of the wire, the file system refused, or a chunk did not get through in the attempts
allowed. `TransferError.text` is the only place where an error is put into words.

A transfer can also panic. That is no error which anyone is told of, but it goes the way of one up
to whoever runs the transfer, and what the transfer held is let go of on that way, so it stands
among the errors here.
-/

namespace Courier

/-- The longest path, in octets, that a header may carry. -/
def maxPathLength : Nat := 4096

/-- The fields of a session header, in the order in which they come. -/
inductive HeaderField where
  | command
  | pathLength
  | path
deriving DecidableEq, Repr, Inhabited

def HeaderField.text : HeaderField → String
  | .command => "command byte"
  | .pathLength => "path length"
  | .path => "path"

/-- What a peer may not send, and where a path may not lead. -/
inductive Violation where
  | pathLength (n : Nat)
  | unknownCommand (octet : UInt8)
  | closedWithin (field : HeaderField)
  | pathNotText
  | parentPart (path : Path)
  | namesNoFile (path : Path)
  | escapesRoot (path : Path)
  | worded (text : String)
deriving DecidableEq, Repr, Inhabited

namespace Violation

def hexDigit (n : Nat) : Char :=
  if n < 10 then Char.ofNat ('0'.toNat + n) else Char.ofNat ('a'.toNat + (n - 10))

def hexOctet (b : UInt8) : String :=
  String.ofList [hexDigit (b.toNat / 16), hexDigit (b.toNat % 16)]

def text : Violation → String
  | pathLength n => s!"path length {n} outside 1..={maxPathLength}"
  | unknownCommand octet => s!"unknown command byte 0x{hexOctet octet}"
  | closedWithin field => s!"connection closed while reading {field.text}"
  | pathNotText => "path is not valid UTF-8"
  | parentPart path => s!"path {path.display} contains a parent component"
  | namesNoFile path => s!"path {path.display} does not name a file"
  | escapesRoot path => s!"path {path.display} escapes the served root"
  | worded text => text

end Violation

/-- What was being done when a connection or the file system failed. -/
inductive Activity where
  | connect (host : String) (port : Nat)
  | writeHeader
  | readField (field : HeaderField)
  | flushStream
  | openSource
  | readSource
  | validateDestination
  | checkFolder
  | createFolder
  | createStaged
  | writeStaged
  | syncStaged
  | promoteStaged
  | requestFile
  | resolveRoot
  | resolvePath
  | worded (text : String)
deriving DecidableEq, Repr, Inhabited

def Activity.text : Activity → String
  | connect host port => s!"connect {host}:{port}"
  | writeHeader => "write header"
  | readField field => s!"read {field.text}"
  | flushStream => "flush stream"
  | openSource => "open source file"
  | readSource => "read source"
  | validateDestination => "validate destination"
  | checkFolder => "check destination directory"
  | createFolder => "create destination directory"
  | createStaged => "create staged file"
  | writeStaged => "write staged file"
  | syncStaged => "sync staged file"
  | promoteStaged => "promote staged file"
  | requestFile => "requested file"
  | resolveRoot => "resolve served root"
  | resolvePath => "resolve path"
  | worded text => text

/-- The call that moves a chunk over the connection. -/
inductive ChunkCall where
  | read
  | write
deriving DecidableEq, Repr, Inhabited

def ChunkCall.text : ChunkCall → String
  | read => "chunk read"
  | write => "chunk write"

inductive TransferError where
  | transport (during : Activity) (fault : Fault)
  | protocol (violation : Violation)
  | filesystem (during : Activity) (path : Path) (fault : Fault)
  | retriesExhausted (call : ChunkCall) (attempts : Nat) (fault : Fault)
  /-- A buffer was asked for that is larger than any buffer can be. -/
  | panicked
deriving DecidableEq, Repr, Inhabited

namespace TransferError

def text : TransferError → String
  | transport during fault => s!"transport error ({during.text}): {fault.text}"
  | protocol violation => s!"protocol error: {violation.text}"
  | filesystem during path fault =>
    s!"filesystem error ({during.text}) at {path.display}: {fault.text}"
  | retriesExhausted call attempts fault =>
    s!"{call.text} failed after {attempts} attempts: {fault.text}"
  | panicked => "capacity overflow"

/-- The fault underneath; a violation has none, and neither has a panic. -/
def fault? : TransferError → Option Fault
  | transport _ fault => some fault
  | protocol _ => none
  | filesystem _ _ fault => some fault
  | retriesExhausted _ _ fault => some fault
  | panicked => none

/-- What is said of the error, and then of what is behind it. -/
def texts (e : TransferError) : List String :=
  e.text :: (e.fault?.map Fault.text).toList

/-- Whether permission on the local file system was what was missing. -/
def isPermissionDenied : TransferError → Bool
  | filesystem _ _ fault => fault.kind = .permissionDenied
  | _ => false

/-- Whether something ended in a panic. -/
def hasPanicked {α : Type} : Except TransferError α → Bool
  | .error .panicked => true
  | _ => false

end TransferError

end Courier
