import Courier.Settings.Basic
import Courier.Stream.Inbound
import Courier.Transfer.Report
import Courier.Transfer.Send
import Courier.Transfer.Staged

/-!
# Receiving

What arrives is added to a staged file, and when the stream has ended and all of it is on the
disk, the staged file takes the name of the destination in one step. Any failure before that
removes the staged file, and the destination stays as it was.

* `Transfer.readChunk`: one read, made again after a fault as often as the settings allow;
* `Transfer.nextChunk`: one chunk, as large as it may be at the moment;
* `Transfer.promote`: the staged file takes the place of the destination;
* `Transfer.receiveFile`: the whole transfer.
-/

namespace Courier.Transfer

def notWritable : Fault :=
  .described .permissionDenied "directory is not writable"

def parentNotFolder : Fault :=
  .described .other "parent is not a directory"

def emptyDestination : Fault :=
  .described .invalidInput "empty destination path"

/-- Whether no one may write to something of this mode. -/
def isReadOnly (mode : Nat) : Bool :=
  mode &&& 0o222 = 0

/-- Sees to it that the folder of a destination is there and takes new files. -/
def prepareFolder (dest : Path) (fs : Files) : Except TransferError Unit × Files :=
  let folder := dest.folder
  match fs.stat folder with
  | .ok (_, .folder mode) =>
    if isReadOnly mode then (.error (.filesystem .checkFolder folder notWritable), fs)
    else (.ok (), fs)
  | .ok _ => (.error (.filesystem .checkFolder folder parentNotFolder), fs)
  | .error f =>
    if f.kind = .notFound then
      match fs.makeFolders folder with
      | (.ok (), fs) => (.ok (), fs)
      | (.error f, fs) => (.error (.filesystem .createFolder folder f), fs)
    else (.error (.filesystem .checkFolder folder f), fs)

/-- Reads once, after `failures` reads for the same chunk have failed. Nothing is read when
the peer has closed its side. -/
def readChunk (settings : Settings) (failures room : Nat) (s : Inbound) (a : Ambient) :
    Except TransferError Bytes × Inbound × Ambient :=
  if _hroom : 0 < room then
    match _h : s.read room a with
    | (.ok octets, s, a) => (.ok octets, s, a)
    | (.error f, s, a) =>
      if f.isInterruption then readChunk settings failures room s a
      else if settings.maxRetries.toNat ≤ failures + 1 then
        (.error (.retriesExhausted .read (failures + 1) f), s, a)
      else readChunk settings (failures + 1) room s (a.pause settings.retryDelay)
  else (.ok [], s, a)
termination_by s.weight
decreasing_by all_goals exact Inbound.weight_read_lt _hroom _h (by simp)

/-- A chunk that brought something brought the end nearer. -/
theorem weight_readChunk_lt {settings : Settings} {failures room : Nat} {s t : Inbound}
    {a b : Ambient} {o : UInt8} {octets : Bytes}
    (h : readChunk settings failures room s a = (.ok (o :: octets), t, b)) :
    t.weight < s.weight := by
  -- a call that is made again has taken a fault off the stream
  fun_induction readChunk settings failures room s a with
  | case1 _ _ _ hroom _ _ _ hread =>
    cases h
    exact Inbound.weight_read_lt hroom hread (by simp)
  | case2 _ _ _ _ _ _ _ hread _ ih => exact Nat.lt_of_lt_of_le (ih h) (Inbound.weight_read_le hread)
  | case3 => cases h
  | case4 _ _ _ _ _ _ _ hread _ _ ih =>
    exact Nat.lt_of_lt_of_le (ih h) (Inbound.weight_read_le hread)
  | case5 => cases h

/-- Reads the next chunk into the room that is made for it. -/
def nextChunk (settings : Settings) (s : Inbound) (a : Ambient) :
    Except TransferError Bytes × Inbound × Ambient :=
  match chunkRoom settings a with
  | .error e => (.error e, s, a)
  | .ok room => readChunk settings 0 room s a

/-- A chunk that can be held is read into as much room as it may have. -/
theorem nextChunk_of_le {settings : Settings} {a : Ambient}
    (h : chunkSize settings a ≤ maxBuffer) (s : Inbound) :
    nextChunk settings s a = readChunk settings 0 (chunkSize settings a) s a := by
  unfold nextChunk chunkRoom
  rw [if_pos h]

/-- For a chunk that is too large to be held nothing is read. -/
theorem nextChunk_of_lt {settings : Settings} {a : Ambient}
    (h : maxBuffer < chunkSize settings a) (s : Inbound) :
    nextChunk settings s a = (.error .panicked, s, a) := by
  unfold nextChunk chunkRoom
  rw [if_neg (Nat.not_le.mpr h)]

/-- What was read was read in one call, made again as often as need be. -/
theorem readChunk_of_nextChunk {settings : Settings} {s t : Inbound} {a b : Ambient}
    {octets : Bytes} (h : nextChunk settings s a = (.ok octets, t, b)) :
    readChunk settings 0 (chunkSize settings a) s a = (.ok octets, t, b) := by
  rcases Nat.lt_or_ge maxBuffer (chunkSize settings a) with hlt | hle
  · rw [nextChunk_of_lt hlt] at h
    cases h
  · rwa [nextChunk_of_le hle] at h

theorem weight_nextChunk_lt {settings : Settings} {s t : Inbound} {a b : Ambient} {o : UInt8}
    {octets : Bytes} (h : nextChunk settings s a = (.ok (o :: octets), t, b)) :
    t.weight < s.weight :=
  weight_readChunk_lt (readChunk_of_nextChunk h)

/-- Receives what the stream still brings into a staged file, at a pace already begun. -/
def receiveRest (settings : Settings) (staged : Staged) (pace : Pace) (s : Inbound) (a : Ambient)
    (fs : Files) : Except TransferError Pace × Inbound × Ambient × Files :=
  match _h : nextChunk settings s a with
  | (.error e, s, a) => (.error e, s, a, fs)
  | (.ok [], s, a) => (.ok pace, s, a, fs)
  | (.ok (b :: octets), s, a) =>
    match fs.append staged.handle (b :: octets) with
    | (.error f, fs) => (.error (.filesystem .writeStaged staged.path f), s, a, fs)
    | (.ok (), fs) =>
      let (pace, clock) := pace.record (b :: octets).length a.clock
      receiveRest settings staged pace s { a with clock } fs
termination_by s.weight
decreasing_by exact weight_nextChunk_lt _h

/-- The staged file takes the place of the destination once it is on the disk, or is removed. -/
def promote (staged : Staged) (dest : Path) (fs : Files) : Except TransferError Unit × Files :=
  match fs.sync with
  | (.error f, fs) => (.error (.filesystem .syncStaged staged.path f), (fs.remove staged.path).2)
  | (.ok (), fs) =>
    match fs.rename staged.path dest with
    | (.ok (), fs) => (.ok (), fs)
    | (.error f, fs) => (.error (.filesystem .promoteStaged dest f), (fs.remove staged.path).2)

/-- Receives into a destination whose folder is ready. -/
def receiveStaged (settings : Settings) (dest : Path) (s : Inbound) (a : Ambient) (fs : Files) :
    Except TransferError Report × Inbound × Ambient × Files :=
  match Staged.make dest fs with
  | (.error e, fs) => (.error e, s, a, fs)
  | (.ok staged, fs) =>
    match receiveRest settings staged (Pace.begin settings.baseRate.toNat a.clock) s a fs with
    | (.error e, s, a, fs) => (.error e, s, a, (fs.remove staged.path).2)
    | (.ok pace, s, a, fs) =>
      match promote staged dest fs with
      | (.error e, fs) => (.error e, s, a, fs)
      | (.ok (), fs) => (.ok ⟨.receive, dest, pace.moved, pace.elapsed a.clock⟩, s, a, fs)

/-- The part of a transfer between its registration and its end. -/
def receiveRegistered (settings : Settings) (dest : Path) (s : Inbound) (a : Ambient) (fs : Files) :
    Except TransferError Report × Inbound × Ambient × Files :=
  if dest.isEmpty then
    (.error (.filesystem .validateDestination dest emptyDestination), s, a, fs)
  else
    match prepareFolder dest fs with
    | (.error e, fs) => (.error e, s, a, fs)
    | (.ok (), fs) => receiveStaged settings dest s a fs

/-- Receives a stream into the file at `dest`. -/
def receiveFile (settings : Settings) (dest : Path) (s : Inbound) (a : Ambient) (fs : Files) :
    Except TransferError Report × Inbound × Ambient × Files :=
  let (result, s, a, fs) := receiveRegistered settings dest s a.register fs
  (result, s, a.deregister, fs)

end Courier.Transfer
