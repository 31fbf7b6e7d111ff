import Courier.Time.Clock

/-!
# Surroundings of a transfer

What changes around a transfer while it runs: time passes, and other transfers begin and end.
-/

namespace Courier

/-- Something that happens meanwhile. -/
inductive Ripple where
  /-- So many other transfers begin. -/
  | join (n : Nat)
  /-- So many other transfers end, or all of them if there are fewer. -/
  | leave (n : Nat)
  | tick (nanos : Nat)
deriving Repr, DecidableEq, Inhabited

structure Ambient where
  clock : Clock
  /-- The transfers that others have running. -/
  others : Nat
  /-- The transfers of this process's own sessions. -/
  own : Nat
deriving Repr, Inhabited

namespace Ambient

/-- What the counter of running transfers shows. -/
def active (a : Ambient) : Nat :=
  a.others + a.own

def feel (a : Ambient) : Ripple → Ambient
  | .join n => { a with others := a.others + n }
  | .leave n => { a with others := a.others - n }
  | .tick nanos => { a with clock := a.clock.tick nanos }

def register (a : Ambient) : Ambient :=
  { a with own := a.own + 1 }

def deregister (a : Ambient) : Ambient :=
  { a with own := a.own - 1 }

def pause (a : Ambient) (nanos : Nat) : Ambient :=
  { a with clock := a.clock.pause nanos }

end Ambient

end Courier
