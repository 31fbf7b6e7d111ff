import Courier.Session.Course

/-!
# Traffic

Any number of sends, receives and sessions that share one counter and one tree of files, each of
them somewhere on its way. They take their steps in any order, and new ones come along at any time.

Beside what they share, three things are kept of what happened: how often each of them has raised
and lowered the counter, which staged files were made, and which of these could not be removed when
they were to be.

* `Traffic.step`: one of them takes its next step;
* `Traffic.Reachable`: all that can come of a machine in this way.
-/

namespace Courier

open Transfer (Phase SendPhase Receiver Sender)
open Session (Stage Course)

/-- Who takes part in the traffic. -/
inductive Party where
  | sender (s : Sender)
  | receiver (dest : Path) (r : Receiver)
  | session (c : Course)
deriving Repr, Inhabited

namespace Party

/-- The next step of a party. -/
def step (p : Party) (m : Machine) : Party × Machine :=
  match p with
  | .sender s =>
    let (s, ambient) := s.step m.ambient m.files
    (.sender s, { m with ambient })
  | .receiver dest r =>
    let (r, ambient, files) := r.step dest m.ambient m.files
    (.receiver dest r, { m with ambient, files })
  | .session c =>
    let (c, m) := c.step m
    (.session c, m)

/-- Whether a party has not taken a step. -/
def isFresh : Party → Bool
  | .sender s => !s.phase.begun
  | .receiver _ r => !r.phase.begun
  | .session ⟨_, _, _, .fresh, began⟩ => !began
  | .session _ => false

/-- Whether a party has begun a transfer. -/
def begun : Party → Bool
  | .sender s => s.phase.begun
  | .receiver _ r => r.phase.begun
  | .session c => c.began

/-- Whether a party has begun a transfer that has not ended. -/
def counted : Party → Bool
  | .sender s => s.phase.counted
  | .receiver _ r => r.phase.counted
  | .session c => c.stage.counted

/-- The receive of a party, with its destination. -/
def receive? : Party → Option (Path × Phase)
  | .sender _ => none
  | .receiver dest r => some (dest, r.phase)
  | .session c => c.stage.receive?

/-- The staged file that a party has at the moment. -/
def staged? (p : Party) : Option Staged :=
  p.receive?.bind fun (_, phase) => phase.staged?

/-- The staged file that a party is about to remove. -/
def discards? (p : Party) : Option Staged :=
  p.receive?.bind fun
    | (_, .discarding staged _) => some staged
    | _ => none

end Party

/-- A party as it came along, as it is now, and how often it has raised and lowered the counter. -/
structure Member where
  origin : Party
  party : Party
  raised : Nat := 0
  lowered : Nat := 0
deriving Repr, Inhabited

structure Traffic where
  members : List Member := []
  machine : Machine
  /-- The staged files that were made, the latest in front. -/
  made : List FileHandle := []
  /-- The staged files that could not be removed when they were to be. -/
  stuck : List FileHandle := []
deriving Repr, Inhabited

namespace Traffic

/-- How many transfers have begun and not ended. -/
def running (t : Traffic) : Nat :=
  t.members.countP (·.party.counted)

/-- Someone comes along. -/
def join (t : Traffic) (p : Party) : Traffic :=
  { t with members := t.members ++ [{ origin := p, party := p }] }

/-- What one step of a party makes of a member, when it finds the machine as `m` and leaves it as
`m'`. -/
def advance (x : Member) (p : Party) (m m' : Machine) : Member :=
  { x with
    party := p
    raised := x.raised + (m'.ambient.own - m.ambient.own)
    lowered := x.lowered + (m.ambient.own - m'.ambient.own) }

/-- The staged file that came with a step, if one did. -/
def staging (before after : Party) : List FileHandle :=
  match before.staged?, after.staged? with
  | none, some staged => [staged.handle]
  | _, _ => []

/-- The staged file that is about to be removed, if that does not work. -/
def sticking (p : Party) (fs : Files) : List FileHandle :=
  match p.discards? with
  | none => []
  | some staged => if (fs.remove staged.path).1.isOk then [] else [staged.handle]

/-- One of the parties takes its next step. -/
def step (i : Nat) (t : Traffic) : Option Traffic :=
  match t.members[i]? with
  | none => none
  | some x =>
    let (p, machine) := x.party.step t.machine
    some {
      members := t.members.set i (advance x p t.machine machine)
      machine
      made := staging x.party p ++ t.made
      stuck := sticking x.party t.machine.files ++ t.stuck }

/-- Elsewhere time passes, and transfers begin and end. -/
def elsewhere (t : Traffic) (clock : Clock) (others : Nat) : Traffic :=
  { t with machine := { t.machine with ambient := { t.machine.ambient with clock, others } } }

/-- What traffic on a machine can come to. -/
inductive Reachable (first : Machine) : Traffic → Prop where
  | begin : Reachable first { machine := first }
  | join {t : Traffic} {p : Party} (h : Reachable first t) (hfresh : p.isFresh = true) :
      Reachable first (t.join p)
  | step {t u : Traffic} {i : Nat} (h : Reachable first t) (hstep : t.step i = some u) :
      Reachable first u
  | elsewhere {t : Traffic} (h : Reachable first t) (clock : Clock) (others : Nat) :
      Reachable first (t.elsewhere clock others)

/-- Whether a staged file is still where it was made. -/
def isStaged (fs : Files) (h : FileHandle) : Bool :=
  match fs.tree.get? h.location with
  | some (.file _ serial _) => serial = h.serial
  | _ => false

/-- The staged files of this traffic that are on the disk. -/
def staged (t : Traffic) : List FileHandle :=
  t.made.filter (isStaged t.machine.files)

end Traffic

end Courier
