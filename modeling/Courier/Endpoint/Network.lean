import Courier.Endpoint.Address
import Courier.Pool.Schedule
import Courier.Session.Run

/-!
# The network of a machine

Listeners wait at addresses and hand each connection to their pool of workers. A connection is
carried out as a whole before the next one: what the caller sends is known when the session
begins, and what the session writes reaches the caller once it is over.

* `Network.listen`: a new listener;
* `Network.connect`: the listener that a call comes to;
* `Network.exchange`: a session for what a caller sends, and what it writes back.
-/

namespace Courier

/-- A listener waits at its address. Its pool works on one task per session, named for the
peer; its console is that of the program it belongs to. -/
structure Listener where
  address : Address
  context : Session.Context
  pool : Pool String
  console : Console := {}
deriving Repr, Inhabited

namespace Listener

def workers (l : Listener) : Nat :=
  l.pool.size

/-- What is reported of a session that is over. -/
def sessionLine (peer : String) : Except TransferError Report → String
  | .ok r => s!"{peer} {r.direction.text} {r.size} bytes in {r.seconds.fixed 3}s"
  | .error e => s!"session {peer} failed: {e.text}"

/-- How the task of a session ends for the worker that runs it. -/
def endingOf (result : Except TransferError Report) : Ending :=
  if TransferError.hasPanicked result then .panicked else .returned

/-- The last line about a session. Of one that panicked it comes from the pool. -/
def closingLine (peer : String) (pool : Pool String) (result : Except TransferError Report) :
    String :=
  match endingOf result with
  | .returned => sessionLine peer result
  | .panicked => Pool.panicLine (pool.panics.getLastD 0)

/-- Runs the session of a connection and prints to the listener's own console. -/
def accept (l : Listener) (peer : String) (inbound : Inbound) (m : Machine) :
    Outbound × Listener × Machine :=
  let console := l.console.warn s!"conn from {peer}"
  match l.pool.submit peer with
  | .error e => (.willing, { l with console := console.warn s!"accept error: {e.text}" }, m)
  | .ok pool =>
    let (result, c, after) := Session.run l.context peer ⟨inbound, .willing⟩ { m with console }
    let pool := pool.settle fun _ => some (endingOf result)
    (c.outbound, { l with pool, console := after.console.warn (closingLine peer pool result) },
      { after with console := m.console })

end Listener

structure Network where
  listeners : List Listener := []
  /-- The port that goes to the next end which asks for no particular one. -/
  freePort : Nat := 1024
deriving Repr, Inhabited

inductive ListenError where
  | notBound (address : String) (fault : Fault)
  | noPool (error : PoolError)
deriving DecidableEq, Repr, Inhabited

/-- What is said of the error, and then of what is behind it. -/
def ListenError.texts : ListenError → List String
  | .notBound address fault => [s!"bind {address}", fault.text]
  | .noPool error => ["start worker pool", error.text]

namespace Network

/-- The address that a listener gets. -/
def bind (n : Network) (wanted : Address) : Except Fault (Address × Network) :=
  if !wanted.host.isLocal then .error .addressNotAvailable
  else if wanted.port = 0 then
    .ok ({ wanted with port := n.freePort }, { n with freePort := n.freePort + 1 })
  else if n.listeners.any (·.address.clashes wanted) then .error .addressInUse
  else .ok (wanted, n)

/-- A new listener, the last one of the network. -/
def listen (n : Network) (wanted : String) (workers : Nat) (context : Session.Context) :
    Except ListenError (Listener × Network) :=
  match Address.parse wanted >>= n.bind with
  | .error f => .error (.notBound wanted f)
  | .ok (address, n) =>
    match Pool.create workers with
    | .error e => .error (.noPool e)
    | .ok pool =>
      let l := { address, context, pool }
      .ok (l, { n with listeners := n.listeners ++ [l] })

/-- The place of the listener that a call comes to, and the caller's own address. -/
def connect (n : Network) (host : String) (port : Nat) : Except Fault (Nat × String × Network) :=
  match Address.resolve host port with
  | .error f => .error f
  | .ok target =>
    match n.listeners.findIdx? (·.address.answers target) with
    | none => .error .connectionRefused
    | some place =>
      .ok (place, Address.text ⟨.loopback, n.freePort⟩, { n with freePort := n.freePort + 1 })

/-- The session for a caller that sends these octets and then closes its side: what comes
back. -/
def exchange (n : Network) (place : Nat) (peer : String) (octets : Bytes) (m : Machine) :
    Bytes × Network × Machine :=
  match n.listeners[place]? with
  | none => ([], n, m)
  | some l =>
    let (outbound, l, m) := l.accept peer (.ofBytes octets) m
    (outbound.wire, { n with listeners := n.listeners.set place l }, m)

end Network

end Courier
