import Courier.Json.Value
import Courier.Text.Decimal
import Courier.Transfer.Report

/-!
# Journal records

What the journal keeps of a finished transfer, and the line of JSON that stands for it.

* `Record.render?`: the line, if the path of the record is text;
* `Record.parse?`: the record of a line. Members may come in any order and with others among
  them, or their values as an array in the order in which they are written.
-/

namespace Courier

inductive Status where
  | completed
  | failed
deriving DecidableEq, Repr, Inhabited

def Status.text : Status → String
  | .completed => "Completed"
  | .failed => "Failed"

structure Record where
  timestamp : String
  /-- Tells this transfer from all others. -/
  id : String
  direction : Direction
  peer : String
  path : Path
  status : Status
  size : UInt64
  error : Option String
deriving DecidableEq, Repr, Inhabited

namespace Record

/-- A record taken at some wall time; it counts as completed until something else is said. -/
def begin (timestamp id : String) (direction : Direction) (peer : String) (path : Path) : Record :=
  { timestamp, id, direction, peer, path, status := .completed, size := 0, error := none }

def completed (r : Record) (size : UInt64) : Record :=
  { r with status := .completed, size }

def failed (r : Record) (error : String) : Record :=
  { r with status := .failed, error := some error }

/-! ## Writing -/

def quoted (s : String) : List Char :=
  Json.quote s.toList

def member (key : String) (value : List Char) : List Char :=
  quoted key ++ ':' :: value

/-- The line as far as the name of the path. -/
def start (r : Record) : List Char :=
  '\x7b' :: member "timestamp" (quoted r.timestamp) ++ ',' :: member "transfer_id" (quoted r.id)
    ++ ',' :: member "direction" (quoted r.direction.text) ++ ',' :: member "peer" (quoted r.peer)
    ++ ',' :: member "path" []

/-- The line from behind the path. -/
def finish (r : Record) : List Char :=
  ',' :: member "status" (quoted r.status.text)
    ++ ',' :: member "bytes" (Decimal.digits r.size.toNat)
    ++ ',' :: member "error" (match r.error with
      | some e => quoted e
      | none => "null".toList)
    ++ ['\x7d']

def render? (r : Record) : Option (List Char) :=
  (Utf8.decode? r.path.text).map fun path => r.start ++ quoted path ++ r.finish

/-! ## Reading -/

def keys : List String :=
  ["timestamp", "transfer_id", "direction", "peer", "path", "status", "bytes", "error"]

def text? : Json → Option String
  | .string units => Json.join? units
  | _ => none

/-- A word, alone or as the only key of an object that holds `null`. -/
def word? : Json → Option String
  | .string units => Json.join? units
  | .object [(key, .null)] => Json.join? key
  | _ => none

def direction? (json : Json) : Option Direction := do
  let word ← word? json
  if word = "send" then some .send else if word = "receive" then some .receive else none

def status? (json : Json) : Option Status := do
  let word ← word? json
  if word = "Completed" then some .completed else if word = "Failed" then some .failed else none

def size? : Json → Option UInt64
  | .number literal => do
    let n ← Decimal.value? literal
    if n < UInt64.size then some n.toUInt64 else none
  | _ => none

def error? : Json → Option (Option String)
  | .null => some none
  | .string units => (Json.join? units).map some
  | _ => none

/-- The record with these values, in the order of `keys`. -/
def ofValues? : List Json → Option Record
  | [timestamp, id, direction, peer, path, status, size, error] => do
    return {
      timestamp := ← text? timestamp
      id := ← text? id
      direction := ← direction? direction
      peer := ← text? peer
      path := .of (← text? path)
      status := ← status? status
      size := ← size? size
      error := ← error? error }
  | _ => none

/-- The value of a member that may stand only once; an `error` that is not there is `null`. -/
def memberOf? (members : List (String × Json)) (key : String) : Option Json :=
  match members.filter (·.1 = key) with
  | [(_, value)] => some value
  | [] => if key = "error" then some .null else none
  | _ => none

def ofJson? : Json → Option Record
  | .array values => ofValues? values
  | .object members => do
    let members ← members.mapM fun (key, value) => return (← Json.join? key, value)
    ofValues? (← keys.mapM (memberOf? members))
  | _ => none

def parse? (line : List Char) : Option Record :=
  Json.parse? line >>= ofJson?

end Record

end Courier
