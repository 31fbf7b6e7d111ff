import Courier.Fault.Basic
import Courier.Remote

/-!
# Addresses of endpoints

Where a listener waits and where a caller calls: four numbers for the machine and one for the
port. Only the addresses of the machine itself can be bound.

* `Address.resolve`: the address of a host that is named apart from its port;
* `Address.parse`: the address that a text names, port included.
-/

namespace Courier

structure Host where
  first : Nat
  second : Nat
  third : Nat
  fourth : Nat
deriving DecidableEq, Repr, Inhabited

namespace Host

def loopback : Host := ⟨127, 0, 0, 1⟩

/-- Stands for every address of the machine. -/
def any : Host := ⟨0, 0, 0, 0⟩

def text (h : Host) : String :=
  s!"{h.first}.{h.second}.{h.third}.{h.fourth}"

/-- Whether a host is the machine itself. -/
def isLocal (h : Host) : Bool :=
  h.first = 127 || h = any

/-- One of the four numbers: at most 255, and no zero in front of another digit. -/
def number? (cs : List Char) : Option Nat :=
  if cs.length ≤ 3 ∧ (cs.head? = some '0' → cs.length = 1) then
    (Decimal.value? cs).filter (· ≤ 255)
  else none

/-- The texts between the dots. -/
def fields : List Char → List (List Char)
  | [] => [[]]
  | '.' :: cs => [] :: fields cs
  | c :: cs =>
    match fields cs with
    | [] => [[c]]
    | field :: rest => (c :: field) :: rest

def ofNumbers? (cs : List Char) : Option Host :=
  match (fields cs).mapM number? with
  | some [a, b, c, d] => some ⟨a, b, c, d⟩
  | _ => none

/-- The one name that is known without asking anyone. -/
def localName : String := "localhost"

def ofText? (s : String) : Option Host :=
  if s = localName then some loopback else ofNumbers? s.toList

end Host

structure Address where
  host : Host
  port : Nat
deriving DecidableEq, Repr, Inhabited

namespace Address

def text (a : Address) : String :=
  s!"{a.host.text}:{a.port}"

def noAddress : Fault :=
  .described .invalidInput "invalid socket address"

def noPort : Fault :=
  .described .invalidInput "invalid port value"

def unknownHost : Fault :=
  .described .uncategorized
    "failed to lookup address information: Name or service not known"

def resolve (host : String) (port : Nat) : Except Fault Address :=
  match Host.ofText? host with
  | some host => .ok ⟨host, port⟩
  | none => .error unknownHost

def parse (s : String) : Except Fault Address :=
  match Remote.splitLastColon? s.toList with
  | none => .error noAddress
  | some (host, port) =>
    match Decimal.unsigned? 65535 port with
    | none => .error noPort
    | some port => resolve (String.ofList host) port

/-- Whether two addresses cannot both be listened on. -/
def clashes (a b : Address) : Bool :=
  a.port = b.port && (a.host = b.host || a.host = .any || b.host = .any)

/-- Whether a call to `target` comes to a listener here. A call to any address of the machine
goes to the loopback one. -/
def answers (a target : Address) : Bool :=
  let host := if target.host = .any then Host.loopback else target.host
  a.port = target.port && (a.host = host || (a.host = .any && host.isLocal))

end Address

end Courier
