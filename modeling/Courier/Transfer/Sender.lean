import Courier.Transfer.Send

/-!
# Sends in steps

A send taken apart into steps, so that others can take theirs in between: it is counted, opens its
source, fills chunks from it and writes them, flushes the stream, and is no longer counted.

* `Sender.step`: the next step of a send.
-/

namespace Courier.Transfer

/-- How far a send has come. -/
inductive SendPhase where
  | fresh
  /-- It counts among those running. -/
  | registered
  /-- A chunk is to be filled from the source. -/
  | filling (pace : Pace)
  /-- A chunk was filled, and is to be written. -/
  | writing (pace : Pace) (chunk : Bytes)
  /-- The source has ended. -/
  | flushing (pace : Pace)
  | ending (result : Except TransferError Report)
  | ended (result : Except TransferError Report)
deriving Repr, Inhabited

/-- Whether a send has taken a step. -/
def SendPhase.begun : SendPhase → Bool
  | .fresh => false
  | _ => true

/-- Whether a send counts among those running. -/
def SendPhase.counted : SendPhase → Bool
  | .fresh | .ended _ => false
  | _ => true

/-- Whether a send takes no more steps. -/
def SendPhase.isEnded : SendPhase → Bool
  | .ended _ => true
  | _ => false

structure Sender where
  settings : Settings
  /-- The file that is sent, if the source is one. -/
  file : Option Path
  source : Inbound
  outbound : Outbound
  phase : SendPhase := .fresh
deriving Repr, Inhabited

namespace Sender

/-- A send of the file at a path. -/
def ofFile (settings : Settings) (path : Path) (outbound : Outbound) : Sender :=
  { settings, file := some path, source := .of [], outbound }

/-- A send of a source that is no file. -/
def ofReader (settings : Settings) (source : Inbound) (outbound : Outbound) : Sender :=
  { settings, file := none, source, outbound }

/-- What the source is called. -/
def path (s : Sender) : Path :=
  s.file.getD (.of "<reader>")

/-- The next step of a send; one that has ended takes none. -/
def step (s : Sender) (a : Ambient) (fs : Files) : Sender × Ambient :=
  match s.phase with
  | .fresh => ({ s with phase := .registered }, a.register)
  | .registered =>
    match s.file with
    | none => ({ s with phase := .filling (Pace.begin s.settings.baseRate.toNat a.clock) }, a)
    | some path =>
      match fs.stat path with
      | .error f => ({ s with phase := .ending (.error (.filesystem .openSource path f)) }, a)
      | .ok (_, entry) =>
        ({ s with
            source := sourceOf entry
            phase := .filling (Pace.begin s.settings.baseRate.toNat a.clock) }, a)
  | .filling pace =>
    match fillChunk s.settings s.path s.source a with
    | (.error e, source, a) => ({ s with source, phase := .ending (.error e) }, a)
    | (.ok [], source, a) => ({ s with source, phase := .flushing pace }, a)
    | (.ok (b :: octets), source, a) => ({ s with source, phase := .writing pace (b :: octets) }, a)
  | .writing pace chunk =>
    match writeChunk s.settings 0 s.outbound chunk a with
    | (.error e, outbound, a) => ({ s with outbound, phase := .ending (.error e) }, a)
    | (.ok (), outbound, a) =>
      let (pace, clock) := pace.record chunk.length a.clock
      ({ s with outbound, phase := .filling pace }, { a with clock })
  | .flushing pace =>
    match s.outbound.flush with
    | .error f => ({ s with phase := .ending (.error (.transport .flushStream f)) }, a)
    | .ok () =>
      ({ s with phase := .ending (.ok ⟨.send, s.path, pace.moved, pace.elapsed a.clock⟩) }, a)
  | .ending result => ({ s with phase := .ended result }, a.deregister)
  | .ended _ => (s, a)

end Sender

end Courier.Transfer
