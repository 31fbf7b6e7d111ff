import Courier.Transfer.Receive

/-!
# Receives side by side

A receive taken apart into steps, so that others can take theirs in between: it is counted, makes
its folder ready, stages a file, reads chunks and adds them to the staged file, waits until that
file is on the disk, gives it the name of the destination or removes it, and is no longer counted.
All receives of a crowd have the same destination; each has its own settings and its own stream.

* `Receiver.step`: the next step of a receive;
* `Crowd.Reachable`: what a crowd comes to when its receives take their steps in any order.
-/

namespace Courier.Transfer

/-- How far a receive has come. -/
inductive Phase where
  | fresh
  /-- It counts among those running. -/
  | registered
  /-- The folder of the destination is ready. -/
  | ready
  /-- A chunk is to be read. -/
  | reading (staged : Staged) (pace : Pace)
  /-- A chunk was read, and is to be added to the staged file. -/
  | writing (staged : Staged) (pace : Pace) (chunk : Bytes)
  /-- The stream has ended. -/
  | received (staged : Staged) (pace : Pace)
  /-- The staged file is on the disk. -/
  | synced (staged : Staged) (pace : Pace)
  /-- The receive has failed, and its staged file is to be removed. -/
  | discarding (staged : Staged) (e : TransferError)
  | ending (result : Except TransferError Report)
  | ended (result : Except TransferError Report)
deriving Repr, Inhabited

/-- Whether a receive has taken a step. -/
def Phase.begun : Phase → Bool
  | .fresh => false
  | _ => true

/-- Whether a receive counts among those running. -/
def Phase.counted : Phase → Bool
  | .fresh | .ended _ => false
  | _ => true

/-- The staged file that a receive has at the moment. -/
def Phase.staged? : Phase → Option Staged
  | .reading staged _ => some staged
  | .writing staged _ _ => some staged
  | .received staged _ => some staged
  | .synced staged _ => some staged
  | .discarding staged _ => some staged
  | _ => none

/-- What has come of a receive, once that is known. -/
def Phase.result? : Phase → Option (Except TransferError Report)
  | .ending result => some result
  | .ended result => some result
  | _ => none

/-- Whether a receive takes no more steps. -/
def Phase.isEnded : Phase → Bool
  | .ended _ => true
  | _ => false

structure Receiver where
  settings : Settings
  inbound : Inbound
  phase : Phase := .fresh
deriving Repr, Inhabited

/-- The next step of a receive; one that has ended takes none. -/
def Receiver.step (dest : Path) (r : Receiver) (a : Ambient) (fs : Files) :
    Receiver × Ambient × Files :=
  match r.phase with
  | .fresh => ({ r with phase := .registered }, a.register, fs)
  | .registered =>
    if dest.isEmpty then
      let e := TransferError.filesystem .validateDestination dest emptyDestination
      ({ r with phase := .ending (.error e) }, a, fs)
    else
      match prepareFolder dest fs with
      | (.error e, fs) => ({ r with phase := .ending (.error e) }, a, fs)
      | (.ok (), fs) => ({ r with phase := .ready }, a, fs)
  | .ready =>
    match Staged.make dest fs with
    | (.error e, fs) => ({ r with phase := .ending (.error e) }, a, fs)
    | (.ok staged, fs) =>
      ({ r with phase := .reading staged (Pace.begin r.settings.baseRate.toNat a.clock) }, a, fs)
  | .reading staged pace =>
    match nextChunk r.settings r.inbound a with
    | (.error e, inbound, a) => ({ r with inbound, phase := .discarding staged e }, a, fs)
    | (.ok [], inbound, a) => ({ r with inbound, phase := .received staged pace }, a, fs)
    | (.ok (b :: octets), inbound, a) =>
      ({ r with inbound, phase := .writing staged pace (b :: octets) }, a, fs)
  | .writing staged pace chunk =>
    match fs.append staged.handle chunk with
    | (.error f, fs) =>
      ({ r with phase := .discarding staged (.filesystem .writeStaged staged.path f) }, a, fs)
    | (.ok (), fs) =>
      let (pace, clock) := pace.record chunk.length a.clock
      ({ r with phase := .reading staged pace }, { a with clock }, fs)
  | .received staged pace =>
    match fs.sync with
    | (.error f, fs) =>
      ({ r with phase := .discarding staged (.filesystem .syncStaged staged.path f) }, a, fs)
    | (.ok (), fs) => ({ r with phase := .synced staged pace }, a, fs)
  | .synced staged pace =>
    match fs.rename staged.path dest with
    | (.error f, fs) =>
      ({ r with phase := .discarding staged (.filesystem .promoteStaged dest f) }, a, fs)
    | (.ok (), fs) =>
      ({ r with phase := .ending (.ok ⟨.receive, dest, pace.moved, pace.elapsed a.clock⟩) }, a, fs)
  -- whether the removal succeeds is not looked at, and the first error is the one reported
  | .discarding staged e => ({ r with phase := .ending (.error e) }, a, (fs.remove staged.path).2)
  | .ending result => ({ r with phase := .ended result }, a.deregister, fs)
  | .ended _ => (r, a, fs)

/-- Receives into one destination, and what they share. -/
structure Crowd where
  receivers : List Receiver
  ambient : Ambient
  files : Files
  /-- Whose file was given the name of the destination, the latest in front. -/
  promoted : List Nat := []
deriving Repr, Inhabited

namespace Crowd

/-- A crowd none of whose receives has begun. -/
def begin (receives : List (Settings × Inbound)) (ambient : Ambient) (files : Files) : Crowd :=
  { receivers := receives.map fun (settings, inbound) => { settings, inbound }, ambient, files }

/-- Whether a step has given a staged file the name of the destination. -/
def promotes : Phase → Phase → Bool
  | .synced .., .ending (.ok _) => true
  | _, _ => false

/-- Whether all the receives have ended. -/
def isOver (c : Crowd) : Bool :=
  c.receivers.all (·.phase.isEnded)

/-- One receive takes its next step. -/
def step (dest : Path) (i : Nat) (c : Crowd) : Option Crowd :=
  match c.receivers[i]? with
  | none => none
  | some r =>
    let (r', ambient, files) := r.step dest c.ambient c.files
    some {
      receivers := c.receivers.set i r', ambient, files
      promoted := if promotes r.phase r'.phase then i :: c.promoted else c.promoted }

/-- The receives take steps in this order. -/
def run (dest : Path) : List Nat → Crowd → Option Crowd
  | [], c => some c
  | i :: turns, c => (c.step dest i).bind (run dest turns)

/-- What some receives into `dest` come to, in whatever order they take their steps. Meanwhile time
passes, and transfers elsewhere begin and end. -/
inductive Reachable (dest : Path) (receives : List (Settings × Inbound)) (files : Files) :
    Crowd → Prop where
  | begin (ambient : Ambient) : Reachable dest receives files (.begin receives ambient files)
  | step {c d : Crowd} {i : Nat} (h : Reachable dest receives files c)
      (hstep : c.step dest i = some d) : Reachable dest receives files d
  | elsewhere {c : Crowd} (h : Reachable dest receives files c) (ambient : Ambient) :
      Reachable dest receives files { c with ambient }

end Crowd

end Courier.Transfer
