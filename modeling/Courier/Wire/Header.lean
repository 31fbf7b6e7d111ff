import Courier.Transfer.Error
import Courier.Stream.Inbound
import Courier.Stream.Outbound

/-!
# Session headers

A session opens with a header: one octet for the command, the length of the path in eight
octets with the lowest first, and the path. The octets of the file follow until the sender
closes; no field gives their number.

* `Header.octets`: the header as it goes over the wire;
* `Header.write`, `Header.read`: the two ends of it.
-/

namespace Courier

inductive Command where
  /-- The peer sends a file. -/
  | store
  /-- The peer asks for a file. -/
  | retrieve
deriving DecidableEq, Repr, Inhabited

namespace Command

def octet : Command → UInt8
  | store => 0x53
  | retrieve => 0x52

def ofOctet? (b : UInt8) : Option Command :=
  if b = 0x53 then some store else if b = 0x52 then some retrieve else none

def text : Command → String
  | store => "store"
  | retrieve => "retrieve"

/-- A command is read back from its octet. -/
theorem ofOctet?_octet (c : Command) : ofOctet? c.octet = some c := by
  cases c <;> rfl

/-- Only the octet of a command is read as that command. -/
theorem ofOctet?_eq_some {b : UInt8} {c : Command} (h : ofOctet? b = some c) : b = c.octet := by
  unfold ofOctet? at h
  split at h
  · cases h; assumption
  · split at h
    · cases h; assumption
    · cases h

end Command

structure Header where
  command : Command
  path : String
deriving DecidableEq, Repr, Inhabited

namespace Header

/-! ## Numbers -/

/-- The lowest `width` octets of a number, the lowest first. -/
def lowFirst : Nat → Nat → Bytes
  | 0, _ => []
  | width + 1, n => UInt8.ofNat (n % 256) :: lowFirst width (n / 256)

def ofLowFirst : Bytes → Nat
  | [] => 0
  | b :: rest => b.toNat + 256 * ofLowFirst rest

/-! ## Writing -/

def octets (h : Header) : Bytes :=
  let path := bytes h.path
  h.command.octet :: lowFirst 8 path.length ++ path

/-- Whether a path of so many octets may be sent. -/
def lengthAllowed (n : Nat) : Bool :=
  0 < n && n ≤ maxPathLength

/-- The header goes out in one piece; a path that a reader would refuse is not sent. -/
def write (h : Header) (s : Outbound) (a : Ambient) :
    Except TransferError Unit × Outbound × Ambient :=
  let n := (bytes h.path).length
  if lengthAllowed n then
    match s.writeAll h.octets a with
    | (.error f, s, a) => (.error (.transport .writeHeader f), s, a)
    | (.ok (), s, a) =>
      match s.flush with
      | .error f => (.error (.transport .writeHeader f), s, a)
      | .ok () => (.ok (), s, a)
  else (.error (.protocol (.pathLength n)), s, a)

/-! ## Reading -/

/-- Reads the `n` octets of a field. A stream that ends too early, or says so by a fault,
breaks the rules of the wire. -/
def readField (field : HeaderField) (n : Nat) (s : Inbound) (a : Ambient) :
    Except TransferError Bytes × Inbound × Ambient :=
  match s.fill n a with
  | (.ok octets, s, a) =>
    if octets.length < n then (.error (.protocol (.closedWithin field)), s, a)
    else (.ok octets, s, a)
  | (.error f, s, a) =>
    if f.kind = .unexpectedEof then (.error (.protocol (.closedWithin field)), s, a)
    else (.error (.transport (.readField field) f), s, a)

def readCommand (s : Inbound) (a : Ambient) : Except TransferError Command × Inbound × Ambient :=
  match readField .command 1 s a with
  | (.error e, s, a) => (.error e, s, a)
  | (.ok octets, s, a) =>
    let b := octets.headD 0
    match Command.ofOctet? b with
    | some c => (.ok c, s, a)
    | none => (.error (.protocol (.unknownCommand b)), s, a)

def readPath (s : Inbound) (a : Ambient) : Except TransferError String × Inbound × Ambient :=
  match readField .pathLength 8 s a with
  | (.error e, s, a) => (.error e, s, a)
  | (.ok octets, s, a) =>
    let n := ofLowFirst octets
    if lengthAllowed n then
      match readField .path n s a with
      | (.error e, s, a) => (.error e, s, a)
      | (.ok octets, s, a) =>
        match Utf8.decode? octets with
        | some path => (.ok path, s, a)
        | none => (.error (.protocol .pathNotText), s, a)
    else (.error (.protocol (.pathLength n)), s, a)

def read (s : Inbound) (a : Ambient) : Except TransferError Header × Inbound × Ambient :=
  match readCommand s a with
  | (.error e, s, a) => (.error e, s, a)
  | (.ok command, s, a) =>
    match readPath s a with
    | (.error e, s, a) => (.error e, s, a)
    | (.ok path, s, a) => (.ok ⟨command, path⟩, s, a)

end Header

end Courier
