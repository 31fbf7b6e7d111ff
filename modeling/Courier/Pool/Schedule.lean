import Courier.Pool.Basic

/-!
# One schedule of a pool

Of the actions that a pool can take by itself, this schedule takes calls first, then the first
worker that can move, until nothing moves. What a task does is given from outside; one
without an ending keeps its worker.
-/

namespace Courier.Pool

variable {α : Type}

/-- What worker `i` can do next. -/
def move? (ending : α → Option Ending) (i : Nat) : Worker α → Option (Action α)
  | .awake => some (.look i)
  | .busy t => (ending t).map (.finish i)
  | _ => none

def next? (ending : α → Option Ending) (p : Pool α) : Option (Action α) :=
  if 0 < p.stopCalls then some .callAll
  else if 0 < p.calls then some (.call (p.workers.findIdx? Worker.isAsleep))
  else p.workers.zipIdx.findSome? fun (w, i) => move? ending i w

/-- What workers add to the bound on their actions. -/
def workLeft : List (Worker α) → Nat
  | [] => 0
  | .awake :: rest => 1 + workLeft rest
  | .busy _ :: rest => 3 + workLeft rest
  | _ :: rest => workLeft rest

/-- A bound on the actions of the schedule: each of them makes it smaller. -/
def potential (p : Pool α) : Nat :=
  4 * p.queue.length + workLeft p.workers + 2 * p.calls +
    (p.size + 1) * p.stopCalls

/-- At most `n` actions of the schedule. -/
def settleWithin (ending : α → Option Ending) : Nat → Pool α → Pool α
  | 0, p => p
  | n + 1, p =>
    match (next? ending p).bind p.step with
    | some q => settleWithin ending n q
    | none => p

/-- The pool once nothing moves any more. -/
def settle (ending : α → Option Ending) (p : Pool α) : Pool α :=
  settleWithin ending p.potential p

/-- Stops the pool, lets it come to rest and waits for its workers; they have gone unless a
task does not end. -/
def shutdown (ending : α → Option Ending) (p : Pool α) : Pool α :=
  let p := settle ending p.stop
  (p.step .join).getD p

end Courier.Pool
