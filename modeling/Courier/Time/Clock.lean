/-!
# Clocks

Time in nanoseconds. A pause that was asked for takes exactly as long as asked, and is noted;
other time passes unasked in ticks. The wall clock may be set, the steady one only runs.
-/

namespace Courier

structure Clock where
  /-- Since the start of 1970; negative before it. -/
  wall : Int
  /-- Since some moment in the past. -/
  steady : Nat
  /-- The pauses taken, latest in front. -/
  pauses : List Nat
deriving Repr, Inhabited, DecidableEq

namespace Clock

def tick (c : Clock) (nanos : Nat) : Clock :=
  { c with wall := c.wall + nanos, steady := c.steady + nanos }

/-- A pause of no length is not taken. -/
def pause (c : Clock) (nanos : Nat) : Clock :=
  if nanos = 0 then c else { c.tick nanos with pauses := nanos :: c.pauses }

@[simp] theorem tick_steady (c : Clock) (nanos : Nat) :
    (c.tick nanos).steady = c.steady + nanos := rfl

@[simp] theorem pause_steady (c : Clock) (nanos : Nat) :
    (c.pause nanos).steady = c.steady + nanos := by
  unfold pause
  split <;> simp_all

end Clock

end Courier
