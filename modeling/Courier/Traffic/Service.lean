import Courier.Pool.Basic
import Courier.Traffic.Basic

/-!
# Sessions run by a pool

A listener hands each session to a pool of workers. A session takes a step only while a worker is
busy with it, and the worker is done with it only when it is over.

* `Service.Reachable`: all that can come of a machine on which a pool runs sessions.
-/

namespace Courier

open Session (Course)

/-- A pool whose tasks are the places of sessions in the traffic. -/
structure Service where
  pool : Pool Nat
  traffic : Traffic
deriving Inhabited

namespace Service

/-- Whether a session has run to its end. -/
def isOver : Party → Bool
  | .session c => c.stage.isOver
  | _ => false

/-- The actions of a pool that neither bring a task nor end one. -/
def isInternal : Action Nat → Bool
  | .submit _ | .finish .. => false
  | _ => true

inductive Reachable (size : Nat) (first : Machine) : Service → Prop where
  | create {pool : Pool Nat} (hcreate : Pool.create size = .ok pool) :
      Reachable size first ⟨pool, { machine := first }⟩
  /-- A connection comes in, and its session is given to the pool. -/
  | enlist {s : Service} {c : Course} {pool : Pool Nat} (h : Reachable size first s)
      (hfresh : (Party.session c).isFresh = true)
      (hsubmit : s.pool.step (.submit s.traffic.members.length) = some pool) :
      Reachable size first ⟨pool, s.traffic.join (.session c)⟩
  | manage {s : Service} {a : Action Nat} {pool : Pool Nat} (h : Reachable size first s)
      (hinternal : isInternal a = true) (hstep : s.pool.step a = some pool) :
      Reachable size first ⟨pool, s.traffic⟩
  /-- A worker goes on with its session. -/
  | work {s : Service} {i task : Nat} {traffic : Traffic} (h : Reachable size first s)
      (hbusy : s.pool.workers[i]? = some (.busy task))
      (hstep : s.traffic.step task = some traffic) : Reachable size first ⟨s.pool, traffic⟩
  /-- The session of a worker is over. -/
  | finish {s : Service} {i task : Nat} {x : Member} {ending : Ending} {pool : Pool Nat}
      (h : Reachable size first s) (hbusy : s.pool.workers[i]? = some (.busy task))
      (hmember : s.traffic.members[task]? = some x) (hover : isOver x.party = true)
      (hstep : s.pool.step (.finish i ending) = some pool) :
      Reachable size first ⟨pool, s.traffic⟩
  | elsewhere {s : Service} (h : Reachable size first s) (clock : Clock) (others : Nat) :
      Reachable size first ⟨s.pool, s.traffic.elsewhere clock others⟩

end Service

end Courier
