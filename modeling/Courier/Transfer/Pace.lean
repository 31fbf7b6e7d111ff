import Courier.Time.Clock

/-!
# Pacing

A transfer is held to its rate in whole seconds: after `n` octets it should have taken
`n / rate` of them, and when it is ahead of that it pauses for the difference.
-/

namespace Courier

structure Pace where
  /-- Octets per second, at least one. -/
  rate : Nat
  /-- When the transfer began, on the steady clock. -/
  start : Nat
  /-- The octets moved so far. -/
  moved : Nat
deriving Repr, Inhabited, DecidableEq

namespace Pace

def begin (rate : Nat) (clock : Clock) : Pace :=
  { rate := max 1 rate, start := clock.steady, moved := 0 }

def elapsed (p : Pace) (clock : Clock) : Nat :=
  clock.steady - p.start

/-- How long the transfer should have taken by now. -/
def expected (p : Pace) : Nat :=
  p.moved / p.rate * 1000000000

/-- How long to pause now. -/
def due (p : Pace) (clock : Clock) : Nat :=
  p.expected - p.elapsed clock

/-- Counts `n` more octets and pauses where that is due. -/
def record (p : Pace) (n : Nat) (clock : Clock) : Pace × Clock :=
  let p := { p with moved := p.moved + n }
  (p, clock.pause (p.due clock))

end Pace

end Courier
