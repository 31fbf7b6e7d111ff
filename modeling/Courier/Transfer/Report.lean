import Courier.Number.Double
import Courier.Path

/-!
# Transfer reports

What is known of a transfer that went through.
-/

namespace Courier

inductive Direction where
  | send
  | receive
deriving DecidableEq, Repr, Inhabited

def Direction.text : Direction → String
  | .send => "send"
  | .receive => "receive"

structure Report where
  direction : Direction
  path : Path
  /-- The octets moved. -/
  size : Nat
  /-- How long it took, in nanoseconds. -/
  elapsed : Nat
deriving DecidableEq, Repr, Inhabited

namespace Report

def seconds (r : Report) : Double :=
  Double.seconds r.elapsed

/-- Nothing was received. A listener without the requested file closes at once, which looks
the same from here as an empty file. -/
def isEmptyReceive (r : Report) : Bool :=
  r.direction = .receive && r.size = 0

end Report

end Courier
