import Courier.Files.Basic
import Courier.Settings.Basic
import Courier.Stream.Inbound
import Courier.Stream.Outbound
import Courier.Transfer.Error
import Courier.Transfer.Pace
import Courier.Transfer.Report
import Courier.Transfer.Share

/-!
# Sending

A source goes out chunk by chunk. The size of a chunk is the fair share at that moment; short
reads of the source are topped up to it. A chunk that is taken only in part is resumed at the
first octet not taken, and given up after so many failed calls.

* `Transfer.fillChunk`: the next chunk of a source; `Transfer.writeChunk`: one chunk goes out;
* `Transfer.sendChunks`: the whole source, at the pace of the settings;
* `Transfer.sendReader`, `Transfer.sendFile`: a transfer that counts among those running.
-/

namespace Courier.Transfer

/-- The share of one transfer in the budget, as the counter stands. -/
def chunkSize (settings : Settings) (a : Ambient) : Nat :=
  fairChunkSize settings.baseRate.toNat (min a.active (UInt64.size / 2 - 1))

/-- A chunk is never empty. -/
theorem chunkSize_pos (settings : Settings) (a : Ambient) : 0 < chunkSize settings a :=
  fairChunkSize_pos ..

/-- No buffer can be larger, in octets. -/
def maxBuffer : Nat := 9223372036854775807

/-- The room that is made for the next chunk. -/
def chunkRoom (settings : Settings) (a : Ambient) : Except TransferError Nat :=
  if chunkSize settings a ≤ maxBuffer then .ok (chunkSize settings a) else .error .panicked

def nothingAccepted : Fault :=
  .described .writeZero "stream accepted no bytes"

/-- The fault of a call to write that got nowhere. -/
def writeFault? : Except Fault Nat → Option Fault
  | .ok 0 => some nothingAccepted
  | .ok (_ + 1) => none
  | .error f => some f

/-- Writes a chunk after `failures` calls for it have failed. -/
def writeChunk (settings : Settings) (failures : Nat) (s : Outbound) (chunk : Bytes) (a : Ambient) :
    Except TransferError Unit × Outbound × Ambient :=
  if _hchunk : chunk = [] then (.ok (), s, a)
  else
    match _h : s.write chunk a with
    | (outcome, s, a) =>
      match writeFault? outcome with
      | none => writeChunk settings failures s (Outbound.remaining chunk outcome) a
      | some f =>
        if f.isInterruption then
          writeChunk settings failures s (Outbound.remaining chunk outcome) a
        -- an interruption does not count as a failure, and is not waited for
        else if settings.maxRetries.toNat ≤ failures + 1 then
          (.error (.retriesExhausted .write (failures + 1) f), s, a)
        else
          writeChunk settings (failures + 1) s (Outbound.remaining chunk outcome)
            (a.pause settings.retryDelay)
termination_by s.work chunk
decreasing_by all_goals exact Outbound.write_decreases _hchunk _h

/-- The next chunk of a source, topped up to the size that it may have. -/
def fillChunk (settings : Settings) (path : Path) (source : Inbound) (a : Ambient) :
    Except TransferError Bytes × Inbound × Ambient :=
  match chunkRoom settings a with
  | .error e => (.error e, source, a)
  | .ok room =>
    match source.fill room a with
    | (.error f, source, a) => (.error (.filesystem .readSource path f), source, a)
    | (.ok octets, source, a) => (.ok octets, source, a)

/-- A chunk that can be held is filled from the source. -/
theorem fillChunk_of_le {settings : Settings} {a : Ambient} (h : chunkSize settings a ≤ maxBuffer)
    (path : Path) (source : Inbound) :
    fillChunk settings path source a = match source.fill (chunkSize settings a) a with
      | (.error f, source, a) => (.error (.filesystem .readSource path f), source, a)
      | (.ok octets, source, a) => (.ok octets, source, a) := by
  unfold fillChunk chunkRoom
  rw [if_pos h]

/-- For a chunk that is too large to be held nothing is read. -/
theorem fillChunk_of_lt {settings : Settings} {a : Ambient} (h : maxBuffer < chunkSize settings a)
    (path : Path) (source : Inbound) :
    fillChunk settings path source a = (.error .panicked, source, a) := by
  unfold fillChunk chunkRoom
  rw [if_neg (Nat.not_le.mpr h)]

/-- What was filled was filled in one go. -/
theorem fill_of_fillChunk {settings : Settings} {path : Path} {source t : Inbound} {a b : Ambient}
    {octets : Bytes} (h : fillChunk settings path source a = (.ok octets, t, b)) :
    chunkSize settings a ≤ maxBuffer ∧
      source.fill (chunkSize settings a) a = (.ok octets, t, b) := by
  rcases Nat.lt_or_ge maxBuffer (chunkSize settings a) with hlt | hle
  · rw [fillChunk_of_lt hlt] at h
    cases h
  · rw [fillChunk_of_le hle] at h
    refine ⟨hle, ?_⟩
    split at h
    · cases h
    · rename_i hfill
      cases h
      exact hfill

/-- A chunk with something in it brought the end of the source nearer. -/
theorem weight_fillChunk_lt {settings : Settings} {path : Path} {source t : Inbound}
    {a b : Ambient} {o : UInt8} {octets : Bytes}
    (h : fillChunk settings path source a = (.ok (o :: octets), t, b)) :
    t.weight < source.weight :=
  Inbound.weight_fill_lt (fill_of_fillChunk h).2

/-- A chunk is not filled if the source fails, or if it is too large to be held. -/
theorem fillChunk_error {settings : Settings} {path : Path} {source t : Inbound} {a b : Ambient}
    {e : TransferError} (h : fillChunk settings path source a = (.error e, t, b)) :
    (maxBuffer < chunkSize settings a ∧ e = .panicked ∧ t = source ∧ b = a) ∨
      chunkSize settings a ≤ maxBuffer ∧ ∃ f, e = .filesystem .readSource path f ∧
        source.fill (chunkSize settings a) a = (.error f, t, b) := by
  rcases Nat.lt_or_ge maxBuffer (chunkSize settings a) with hlt | hle
  · rw [fillChunk_of_lt hlt] at h
    cases h
    exact .inl ⟨hlt, rfl, rfl, rfl⟩
  · rw [fillChunk_of_le hle] at h
    split at h
    · rename_i f u c hfill
      cases h
      exact .inr ⟨hle, f, rfl, hfill⟩
    · cases h

/-- Sends what the source still holds, at a pace already begun. -/
def sendRest (settings : Settings) (path : Path) (pace : Pace) (source : Inbound) (s : Outbound)
    (a : Ambient) : Except TransferError Pace × Inbound × Outbound × Ambient :=
  match _h : fillChunk settings path source a with
  | (.error e, source, a) => (.error e, source, s, a)
  | (.ok [], source, a) =>
    -- the end of the source: what the stream may hold back is put on the wire
    match s.flush with
    | .error f => (.error (.transport .flushStream f), source, s, a)
    | .ok () => (.ok pace, source, s, a)
  | (.ok (b :: octets), source, a) =>
    match writeChunk settings 0 s (b :: octets) a with
    | (.error e, s, a) => (.error e, source, s, a)
    | (.ok (), s, a) =>
      let (pace, clock) := pace.record (b :: octets).length a.clock
      sendRest settings path pace source s { a with clock }
termination_by source.weight
decreasing_by exact weight_fillChunk_lt _h

def sendChunks (settings : Settings) (path : Path) (source : Inbound) (s : Outbound) (a : Ambient) :
    Except TransferError Pace × Inbound × Outbound × Ambient :=
  sendRest settings path (Pace.begin settings.baseRate.toNat a.clock) source s a

/-- Sends a source that is no file, as one of the running transfers. The octets sent. -/
def sendReader (settings : Settings) (source : Inbound) (s : Outbound) (a : Ambient) :
    Except TransferError Nat × Inbound × Outbound × Ambient :=
  let (result, source, s, a) := sendChunks settings (.of "<reader>") source s a.register
  (result.map Pace.moved, source, s, a.deregister)

/-- What reading an opened entry gives: a folder opens like a file, but no read of it works. -/
def sourceOf : Entry → Inbound
  | .file _ _ content => .ofBytes content
  | _ => .of [.fault .isADirectory]

/-- Sends the file at a path. -/
def sendFile (settings : Settings) (fs : Files) (path : Path) (s : Outbound) (a : Ambient) :
    Except TransferError Report × Outbound × Ambient :=
  let a := a.register
  match fs.stat path with
  | .error f => (.error (.filesystem .openSource path f), s, a.deregister)
  | .ok (_, entry) =>
    let (result, _, s, a) := sendChunks settings path (sourceOf entry) s a
    (result.map fun pace => ⟨.send, path, pace.moved, pace.elapsed a.clock⟩, s, a.deregister)

end Courier.Transfer
