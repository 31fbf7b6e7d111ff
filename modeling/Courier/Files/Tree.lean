import Courier.Path

/-!
# File trees

A tree gives the entry at each location: a file with its content, a folder, or a symbolic
link with the path it holds. It changes by one entry at a time.

* `Tree.get?`: the view through which a tree is seen;
* `Change.apply`: the one way in which a tree changes, so that a list of changes tells every
  moment of a run.
-/

namespace Courier

/-- A place in a tree: the names that lead to it from the top. -/
abbrev Location := List Name

inductive Entry where
  /-- The serial number tells a file from another one that takes its place. -/
  | file (mode serial : Nat) (content : Bytes)
  | folder (mode : Nat)
  | link (target : Path)
deriving DecidableEq, Repr, Inhabited

def Entry.isFolder : Entry → Bool
  | .folder _ => true
  | _ => false

def Entry.isFile : Entry → Bool
  | .file .. => true
  | _ => false

structure Tree where
  entries : List (Location × Entry)
deriving Repr, Inhabited

namespace Tree

def get? (t : Tree) (l : Location) : Option Entry :=
  (t.entries.find? (·.1 = l)).map (·.2)

def remove (t : Tree) (l : Location) : Tree :=
  ⟨t.entries.filter (·.1 ≠ l)⟩

def put (t : Tree) (l : Location) (e : Entry) : Tree :=
  ⟨(l, e) :: (t.remove l).entries⟩

@[simp] theorem get?_put_self (t : Tree) (l : Location) (e : Entry) :
    (t.put l e).get? l = some e := by
  simp [get?, put]

theorem find?_filter_ne {l l' : Location} (h : l' ≠ l) (es : List (Location × Entry)) :
    (es.filter (·.1 ≠ l)).find? (·.1 = l') = es.find? (·.1 = l') := by
  induction es with
  | nil => rfl
  | cons e es ih =>
    by_cases he : e.1 = l
    · rw [List.filter_cons_of_neg (by simp [he]), List.find?_cons_of_neg (by simp [he, Ne.symm h]),
        ih]
    · rw [List.filter_cons_of_pos (by simp [he]), List.find?_cons, List.find?_cons, ih]

/-- Removing an entry changes no other location. -/
theorem get?_remove_of_ne (t : Tree) {l l' : Location} (h : l' ≠ l) :
    (t.remove l).get? l' = t.get? l' := by
  simp only [get?, remove]
  rw [find?_filter_ne h]

@[simp] theorem get?_remove_self (t : Tree) (l : Location) : (t.remove l).get? l = none := by
  simp [get?, remove]

/-- Putting an entry changes no other location. -/
theorem get?_put_of_ne (t : Tree) {l l' : Location} (e : Entry) (h : l' ≠ l) :
    (t.put l e).get? l' = t.get? l' := by
  rw [← get?_remove_of_ne t h]
  simp [get?, put, Ne.symm h]

end Tree

/-! ## Changes -/

inductive Change where
  | create (l : Location) (e : Entry)
  | append (l : Location) (octets : Bytes)
  | overwrite (l : Location) (content : Bytes)
  | setMode (l : Location) (mode : Nat)
  | move (source target : Location)
  | remove (l : Location)
deriving DecidableEq, Repr, Inhabited

namespace Change

def onContent (f : Bytes → Bytes) : Entry → Entry
  | .file mode serial content => .file mode serial (f content)
  | e => e

def withMode (mode : Nat) : Entry → Entry
  | .file _ serial content => .file mode serial content
  | .folder _ => .folder mode
  | .link target => .link target

/-- The tree with the entry at `l` changed, if there is one. -/
def update (t : Tree) (l : Location) (f : Entry → Entry) : Tree :=
  match t.get? l with
  | some e => t.put l (f e)
  | none => t

def apply (t : Tree) : Change → Tree
  | create l e => t.put l e
  | append l octets => update t l (onContent (· ++ octets))
  | overwrite l content => update t l (onContent fun _ => content)
  | setMode l mode => update t l (withMode mode)
  | move source target =>
    match t.get? source with
    | some e => (t.remove source).put target e
    | none => t
  | remove l => t.remove l

/-- The locations whose entries a change may touch. -/
def touched : Change → List Location
  | create l _ | append l _ | overwrite l _ | setMode l _ | remove l => [l]
  | move source target => [source, target]

end Change

end Courier
