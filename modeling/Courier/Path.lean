import Courier.Text.Utf8

/-!
# Paths

A path is kept as it was written, octet for octet; what it means is its list of parts.
Repeated slashes, a slash at the end and `.` anywhere but in front are no parts, so that
several spellings share their parts.

* `Path.parts`, `Path.names`: the parts, and the names among them;
* `Path.parent?`, `Path.fileName?`: the path without its last part, and that part if it is a
  name;
* `Path.lineage`: the path and all that is above it, `Path.join`: a path seen from another one.
-/

namespace Courier

/-- One name in a directory. -/
abbrev Name := Bytes

structure Path where
  text : Bytes
deriving DecidableEq, Repr, Inhabited

namespace Path

inductive Part where
  | top
  | here
  | up
  | name (n : Name)
deriving DecidableEq, Repr, Inhabited

def slash : UInt8 := 0x2F

def dot : UInt8 := 0x2E

def of (s : String) : Path :=
  ⟨bytes s⟩

/-- What is shown of a path: octets that are no text appear as `U+FFFD`. -/
def display (p : Path) : String :=
  Utf8.lossy p.text

def isEmpty (p : Path) : Bool :=
  p.text.isEmpty

/-! ## Parts -/

/-- What stands between the slashes, empty stretches included. -/
def segments : Bytes → List Bytes
  | [] => [[]]
  | c :: rest =>
    if c = slash then [] :: segments rest
    else
      match segments rest with
      | [] => [[c]]
      | s :: ss => (c :: s) :: ss

/-- The parts in some segments, each with the place where it ends; the first segment starts
at `place`, and `here` says whether a `.` in it counts. -/
def partsFrom (here : Bool) (place : Nat) : List Bytes → List (Part × Nat)
  | [] => []
  | s :: ss =>
    let stop := place + s.length
    let later := partsFrom false (stop + 1) ss
    if s.isEmpty then later
    else if s = [dot] then if here then (.here, stop) :: later else later
    else if s = [dot, dot] then (.up, stop) :: later
    else (.name s, stop) :: later

def isAbsolute (p : Path) : Bool :=
  p.text.head? = some slash

/-- The parts of a path and where each ends in its text. -/
def placedParts (p : Path) : List (Part × Nat) :=
  if p.isAbsolute then (.top, 1) :: partsFrom false 0 (segments p.text)
  else partsFrom true 0 (segments p.text)

def parts (p : Path) : List Part :=
  p.placedParts.map (·.1)

def Part.name? : Part → Option Name
  | .name n => some n
  | _ => none

def names (p : Path) : List Name :=
  p.parts.filterMap Part.name?

/-- Two spellings of one path. -/
def Same (p q : Path) : Prop :=
  p.parts = q.parts

instance (p q : Path) : Decidable (p.Same q) :=
  inferInstanceAs (Decidable (p.parts = q.parts))

/-! ## Neighbours -/

/-- The path without its last part; the top and the empty path have none. -/
def parent? (p : Path) : Option Path :=
  match p.placedParts.reverse with
  | [] => none
  | (.top, _) :: _ => none
  | [_] => some ⟨[]⟩
  | _ :: (_, stop) :: _ => some ⟨p.text.take stop⟩

def fileName? (p : Path) : Option Name :=
  p.parts.getLast?.bind Part.name?

/-- The directory in which the file at a path lies, `.` for a bare name. -/
def folder (p : Path) : Path :=
  match p.parent? with
  | some parent => if parent.isEmpty then ⟨[dot]⟩ else parent
  | none => ⟨[dot]⟩

/-- The path, its parent, the parent of that, and so on. -/
def lineage (p : Path) : List Path :=
  let above := (p.placedParts.dropLast.reverse.map fun (_, stop) => (⟨p.text.take stop⟩ : Path))
  p :: above ++ (if p.isAbsolute ∨ p.parts.isEmpty then [] else [⟨[]⟩])

def join (base p : Path) : Path :=
  if p.isAbsolute then p
  else if base.isEmpty ∨ base.text.getLast? = some slash then ⟨base.text ++ p.text⟩
  else ⟨base.text ++ slash :: p.text⟩

def child (base : Path) (n : Name) : Path :=
  base.join ⟨n⟩

example : (of "./a//b/.").parts = [.here, .name (bytes "a"), .name (bytes "b")] := by decide
example : (of "a//b/").parent? = some (of "a") := by decide
example : (of "/a").parent? = some (of "/") := by decide
example : (of "x").folder = of "." := by decide

end Path

end Courier
