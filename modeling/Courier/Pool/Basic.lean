/-!
# Worker pools

A fixed number of workers drain one queue of tasks. The queue and the stop flag lie behind a
lock; a worker that finds no task sleeps until someone calls. What happens while the lock is
held is one action, and so are each call to the sleepers and each end of a task: a submission
and a stop make their call only after they let the lock go, and anything may come between. A
run of the pool is any sequence of actions that `step` allows.

A worker looks at the queue before it looks at the stop flag, so a stopped pool still empties
its queue.
-/

namespace Courier

inductive PoolError where
  | noWorkers
  | shutDown
deriving DecidableEq, Repr, Inhabited

def PoolError.text : PoolError → String
  | .noWorkers => "worker pool needs at least one worker"
  | .shutDown => "worker pool is shutting down"

/-- What a worker does. -/
inductive Worker (α : Type) where
  /-- About to look at the queue: new, called, or back from a task. -/
  | awake
  | asleep
  | busy (task : α)
  | gone
deriving DecidableEq, Repr, Inhabited

/-- How a task ends. -/
inductive Ending where
  | returned
  | panicked
deriving DecidableEq, Repr, Inhabited

structure Pool (α : Type) where
  workers : List (Worker α)
  queue : List α := []
  stopped : Bool := false
  /-- Submissions that have queued their task and not called yet. -/
  calls : Nat := 0
  /-- Stops that have set the flag and not called yet. -/
  stopCalls : Nat := 0
  /-- The tasks that were let in, in that order. -/
  accepted : List α := []
  /-- The tasks that came too late. -/
  refused : List α := []
  /-- The tasks that left the queue for a worker, in that order. -/
  taken : List α := []
  /-- The tasks that ended, however that was, in that order. -/
  finished : List α := []
  /-- The worker of each task that panicked, in that order. -/
  panics : List Nat := []
deriving DecidableEq, Repr, Inhabited

inductive Action (α : Type) where
  | submit (task : α)
  /-- The call of a submission: it wakes one sleeper, or no one if all are up. -/
  | call (sleeper : Option Nat)
  | stop
  /-- The call of a stop: it wakes every sleeper. -/
  | callAll
  /-- A worker takes a task, or goes if there is none and the pool is stopped, or sleeps. -/
  | look (worker : Nat)
  | finish (worker : Nat) (ending : Ending)
  /-- A sleeper wakes though no one called. -/
  | stir (worker : Nat)
  /-- The one who stopped the pool has waited for every worker to go. -/
  | join
deriving DecidableEq, Repr, Inhabited

namespace Worker

variable {α : Type}

def isAsleep : Worker α → Bool
  | .asleep => true
  | _ => false

def isGone : Worker α → Bool
  | .gone => true
  | _ => false

def task? : Worker α → Option α
  | .busy t => some t
  | _ => none

def called : Worker α → Worker α
  | .asleep => .awake
  | w => w

end Worker

namespace Pool

variable {α : Type}

def create (size : Nat) : Except PoolError (Pool α) :=
  if size = 0 then .error .noWorkers
  else .ok { workers := List.replicate size .awake }

def size (p : Pool α) : Nat :=
  p.workers.length

/-- The tasks that workers are busy with. -/
def running (p : Pool α) : List α :=
  p.workers.filterMap Worker.task?

def nameOf (worker : Nat) : String :=
  s!"ferry-worker-{worker}"

/-- What the pool reports of a task that panicked; its worker goes on. -/
def panicLine (worker : Nat) : String :=
  s!"{nameOf worker}: task panicked; worker continues"

def submit (p : Pool α) (t : α) : Except PoolError (Pool α) :=
  if p.stopped then .error .shutDown
  else
    .ok { p with
      queue := p.queue ++ [t]
      accepted := p.accepted ++ [t]
      calls := p.calls + 1 }

def stop (p : Pool α) : Pool α :=
  { p with stopped := true, stopCalls := p.stopCalls + 1 }

def setWorker (p : Pool α) (i : Nat) (w : Worker α) : Pool α :=
  { p with workers := p.workers.set i w }

/-- What an awake worker does under the lock. -/
def look (p : Pool α) (i : Nat) : Pool α :=
  match p.queue with
  | t :: rest => { p with queue := rest, taken := p.taken ++ [t] }.setWorker i (.busy t)
  | [] => p.setWorker i (if p.stopped then .gone else .asleep)

def finish (p : Pool α) (i : Nat) (t : α) (ending : Ending) : Pool α :=
  let panics := match ending with
    | .returned => p.panics
    | .panicked => p.panics ++ [i]
  { p with finished := p.finished ++ [t], panics }.setWorker i .awake

/-- The pool after an action, or nothing if the action is not possible. -/
def step (p : Pool α) : Action α → Option (Pool α)
  | .submit t =>
    match p.submit t with
    | .ok p => some p
    | .error _ => some { p with refused := p.refused ++ [t] }
  | .call none =>
    if 0 < p.calls ∧ !p.workers.any Worker.isAsleep then some { p with calls := p.calls - 1 }
    else none
  | .call (some i) =>
    match p.workers[i]? with
    | some .asleep =>
      if 0 < p.calls then some ({ p with calls := p.calls - 1 }.setWorker i .awake) else none
    | _ => none
  | .stop => some p.stop
  | .callAll =>
    if 0 < p.stopCalls then
      some { p with stopCalls := p.stopCalls - 1, workers := p.workers.map Worker.called }
    else none
  | .look i =>
    match p.workers[i]? with
    | some .awake => some (p.look i)
    | _ => none
  | .finish i ending =>
    match p.workers[i]? with
    | some (.busy t) => some (p.finish i t ending)
    | _ => none
  | .stir i =>
    match p.workers[i]? with
    | some .asleep => some (p.setWorker i .awake)
    | _ => none
  | .join =>
    if p.stopped ∧ p.stopCalls = 0 ∧ p.workers.all Worker.isGone then
      some { p with workers := [] }
    else none

/-- The pools that some run of a new pool of this size comes to. -/
inductive Reachable (size : Nat) : Pool α → Prop where
  | create {p : Pool α} : create size = .ok p → Reachable size p
  | step {p q : Pool α} (a : Action α) : Reachable size p → p.step a = some q → Reachable size q

end Pool

end Courier
