import Courier.Files.Walk

/-!
# Files

The file system as a program uses it: paths are seen from a working folder, and each
operation gives the fault that the operating system would. Whatever an operation does to the
tree goes through `Files.commit` and is noted in `Files.changes`.

* looking: `Files.stat`, `Files.lstat`, `Files.located`, `Files.canonical`, `Files.read`;
* changing: `Files.makeFolder`, `Files.createNew`, `Files.append`, `Files.overwrite`,
  `Files.rename`, `Files.remove`;
* waiting for the disk: `Files.sync`.
-/

namespace Courier

structure Files where
  tree : Tree
  /-- The working folder. -/
  here : Location
  /-- What was done to the tree, latest in front. -/
  changes : List Change := []
  /-- How many serial numbers and random names have been given out. -/
  drawn : Nat := 0
  /-- No file may grow beyond this size. -/
  sizeLimit : Option Nat := none
  /-- What the next waits for the disk come to; all that follow succeed. -/
  syncs : List (Except Fault Unit) := []
deriving Repr, Inhabited

/-- A file that was opened for writing at its end. -/
structure FileHandle where
  location : Location
  serial : Nat
deriving Repr, DecidableEq, Inhabited

namespace Files

def commit (fs : Files) (c : Change) : Files :=
  { fs with tree := c.apply fs.tree, changes := c :: fs.changes }

/-! ## Looking -/

def route? (fs : Files) (p : Path) : Except Fault Route :=
  Route.ofPath? fs.here p

def entryAt (fs : Files) (l : Location) : Except Fault (Location × Entry) :=
  match fs.tree.get? l with
  | some e => .ok (l, e)
  | none => .error .noEntry

def endOf (fs : Files) (r : Route) : Except Fault (Location × Entry) :=
  match walk fs.tree maxLinks r.start r.allSteps with
  | .ok (l, _) => fs.entryAt l
  | .error f => .error f

/-- The entry that a path leads to, links followed. -/
def stat (fs : Files) (p : Path) : Except Fault (Location × Entry) :=
  fs.route? p >>= fs.endOf

/-- The entry that a path names, a link at its end not followed. -/
def lstat (fs : Files) (p : Path) : Except Fault (Location × Entry) := do
  let r ← fs.route? p
  match r.slashAtEnd, r.lastName? with
  | false, some name =>
    let (l, _) ← approach fs.tree maxLinks r
    if Route.maxName < name.length then .error .nameTooLong else fs.entryAt (l ++ [name])
  | _, _ => fs.endOf r

def existsAt (fs : Files) (p : Path) : Bool :=
  (fs.stat p).isOk

def isFolder (fs : Files) (p : Path) : Bool :=
  match fs.stat p with
  | .ok (_, e) => e.isFolder
  | .error _ => false

def isFile (fs : Files) (p : Path) : Bool :=
  match fs.stat p with
  | .ok (_, e) => e.isFile
  | .error _ => false

/-- The one absolute path of a location without links. -/
def pathOf (l : Location) : Path :=
  if l.isEmpty then ⟨[Path.slash]⟩ else ⟨l.flatMap fun name => Path.slash :: name⟩

/-- Where a path really leads. What is found is looked up once more by its own path, so that must
be one that the system takes. -/
def located (fs : Files) (p : Path) : Except Fault (Location × Entry) := do
  let (l, e) ← fs.stat p
  let _ ← fs.route? (pathOf l)
  .ok (l, e)

def canonical (fs : Files) (p : Path) : Except Fault Path :=
  (fs.located p).map fun (l, _) => pathOf l

/-- What is read from a path; a folder can be opened but not read. -/
def read (fs : Files) (p : Path) : Except Fault Bytes :=
  match fs.stat p with
  | .ok (_, .file _ _ content) => .ok content
  | .ok _ => .error .isADirectory
  | .error f => .error f

/-! ## Changing -/

/-- Where a path's last name is or would be, found without following it. -/
def slot (fs : Files) (r : Route) (name : Name) : Except Fault Location :=
  match approach fs.tree maxLinks r with
  | .ok (l, _) => if Route.maxName < name.length then .error .nameTooLong else .ok (l ++ [name])
  | .error f => .error f

/-- The slot of a path whose last part has to be a name; `otherwise` is the fault if not. -/
def slotOf (fs : Files) (p : Path) (otherwise : Fault) : Except Fault Location := do
  let r ← fs.route? p
  match r.lastName? with
  | some name => fs.slot r name
  | none =>
    let _ ← approach fs.tree maxLinks r
    .error otherwise

def makeFolder (fs : Files) (p : Path) : Except Fault Unit × Files :=
  match fs.slotOf p .alreadyThere with
  | .error f => (.error f, fs)
  | .ok l =>
    if (fs.tree.get? l).isSome then (.error .alreadyThere, fs)
    else (.ok (), fs.commit (.create l (.folder 0o755)))

def noFolderMade : Fault :=
  .described .uncategorized "failed to create whole tree"

/-- Makes the first folder of a lineage and those above it that are missing. -/
def makeLineage : List Path → Files → Except Fault Unit × Files
  | [], fs => (.error noFolderMade, fs)
  | p :: above, fs =>
    if p.parts.isEmpty then (.ok (), fs)
    else
      match fs.makeFolder p with
      | (.ok (), fs) => (.ok (), fs)
      | (.error f, fs) =>
        if f.kind = .notFound then
          match makeLineage above fs with
          | (.error f, fs) => (.error f, fs)
          | (.ok (), fs) =>
            match fs.makeFolder p with
            | (.ok (), fs) => (.ok (), fs)
            | (.error f, fs) => if fs.isFolder p then (.ok (), fs) else (.error f, fs)
        else if fs.isFolder p then (.ok (), fs)
        else (.error f, fs)

/-- Makes a folder with all that is missing above it; one that is there already is fine. -/
def makeFolders (fs : Files) (p : Path) : Except Fault Unit × Files :=
  makeLineage p.lineage fs

/-- A new file at a location where nothing is. -/
def createAt (fs : Files) (l : Location) (mode : Nat) (content : Bytes) : FileHandle × Files :=
  (⟨l, fs.drawn⟩,
    { fs with drawn := fs.drawn + 1 }.commit (.create l (.file mode fs.drawn content)))

/-- A new file; fails if anything has that name. -/
def createNew (fs : Files) (p : Path) (mode : Nat) : Except Fault FileHandle × Files :=
  match fs.slotOf p .alreadyThere with
  | .error f => (.error f, fs)
  | .ok l =>
    if (fs.tree.get? l).isSome then (.error .alreadyThere, fs)
    else
      let (h, fs) := fs.createAt l mode []
      (.ok h, fs)

/-- Opens a file to write at its end, and makes it if need be. -/
def openToAppend (fs : Files) (p : Path) : Except Fault FileHandle × Files :=
  match fs.route? p >>= seek fs.tree maxLinks with
  | .error f => (.error f, fs)
  | .ok (l, some (.file _ serial _)) => (.ok ⟨l, serial⟩, fs)
  | .ok (l, _) =>
    let (h, fs) := fs.createAt l 0o644 []
    (.ok h, fs)

/-- Writes all of a file anew, and makes it if need be. -/
def overwrite (fs : Files) (p : Path) (content : Bytes) : Except Fault Unit × Files :=
  match fs.route? p >>= seek fs.tree maxLinks with
  | .error f => (.error f, fs)
  | .ok (l, some _) => (.ok (), fs.commit (.overwrite l content))
  | .ok (l, none) => (.ok (), (fs.createAt l 0o644 content).2)

/-- The size of an opened file, as long as it has its place in the tree. -/
def sizeOf? (fs : Files) (h : FileHandle) : Option Nat :=
  match fs.tree.get? h.location with
  | some (.file _ serial content) => if serial = h.serial then some content.length else none
  | _ => none

/-- Adds to an opened file. Where the limit on sizes cuts in, as much as fits is written. What
goes to a file that has lost its place is lost. -/
def append (fs : Files) (h : FileHandle) (octets : Bytes) : Except Fault Unit × Files :=
  match fs.sizeOf? h with
  | none => (.ok (), fs)
  | some size =>
    match fs.sizeLimit with
    | none => (.ok (), fs.commit (.append h.location octets))
    | some limit =>
      if octets.length ≤ limit - size then (.ok (), fs.commit (.append h.location octets))
      else (.error .tooLarge, fs.commit (.append h.location (octets.take (limit - size))))

/-- Waits until what was written to a file is on the disk. -/
def sync (fs : Files) : Except Fault Unit × Files :=
  match fs.syncs with
  | [] => (.ok (), fs)
  | outcome :: syncs => (outcome, { fs with syncs })

/-- Gives the file at `source` the name `target`, in place of a file that has it. -/
def rename (fs : Files) (source target : Path) : Except Fault Unit × Files :=
  let found : Except Fault (Location × Location) := do
    let old ← fs.slotOf source .busy
    let r ← fs.route? target
    let new ← fs.slotOf target .busy
    let _ ← fs.entryAt old
    if r.slashAtEnd then .error .notADirectory
    else if ((fs.tree.get? new).map Entry.isFolder).getD false then .error .isADirectory
    else .ok (old, new)
  match found with
  | .error f => (.error f, fs)
  | .ok (old, new) => (.ok (), fs.commit (.move old new))

/-- Takes a file or a link out of its folder. -/
def remove (fs : Files) (p : Path) : Except Fault Unit × Files :=
  match fs.slotOf p .isADirectory >>= fs.entryAt with
  | .error f => (.error f, fs)
  | .ok (_, .folder _) => (.error .isADirectory, fs)
  | .ok (l, _) => (.ok (), fs.commit (.remove l))

def setMode (fs : Files) (p : Path) (mode : Nat) : Except Fault Unit × Files :=
  match fs.stat p with
  | .error f => (.error f, fs)
  | .ok (l, _) => (.ok (), fs.commit (.setMode l mode))

def makeLink (fs : Files) (p target : Path) : Except Fault Unit × Files :=
  match fs.slotOf p .alreadyThere with
  | .error f => (.error f, fs)
  | .ok l =>
    if (fs.tree.get? l).isSome then (.error .alreadyThere, fs)
    else (.ok (), fs.commit (.create l (.link target)))

/-! ## Names that no one else has -/

/-- Six letters or digits for the `n`-th draw. -/
def randomName (n : Nat) : Name :=
  let letter (k : Nat) : UInt8 :=
    UInt8.ofNat (if k < 10 then 0x30 + k else if k < 36 then 0x41 + (k - 10) else 0x61 + (k - 36))
  [916132832, 14776336, 238328, 3844, 62, 1].map fun place => letter (n / place % 62)

/-- A new file in `folder` whose name is a random one between `lead` and `tail`. A name that is
taken is not used; another one is drawn, at most `tries` of them. -/
def createUnique (folder : Path) (lead tail : Bytes) (mode : Nat) :
    Nat → Files → Except (Fault × Path) (Path × FileHandle) × Files
  | 0, fs => (.error (.alreadyThere, folder), fs)
  | tries + 1, fs =>
    let p := folder.child (lead ++ randomName fs.drawn ++ tail)
    match fs.createNew p mode with
    | (.ok h, fs) => (.ok (p, h), fs)
    | (.error f, fs) =>
      if f.kind = .alreadyExists then
        createUnique folder lead tail mode tries { fs with drawn := fs.drawn + 1 }
      else (.error (f, p), fs)

/-- As many draws as there are entries, and one more, are enough. -/
def draws (fs : Files) : Nat :=
  fs.tree.entries.length + 1

end Files

end Courier
