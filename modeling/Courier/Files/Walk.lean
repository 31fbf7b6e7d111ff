import Courier.Fault.Basic
import Courier.Files.Tree

/-!
# Walking a path

How a path leads through a tree: name by name from where it starts, `..` upwards, and along
every symbolic link that is met, up to forty of them.

* `walk`: follows a route to the entry at its end, a link at the end included;
* `approach`: goes as far as the folder in which the last name is to be looked up;
* `seek`: ends at the file that a write would reach, whether it is there or not.
-/

namespace Courier

/-- A path taken apart. A slash at its end asks for a folder there. -/
structure Route where
  start : Location
  steps : List Bytes
  slashAtEnd : Bool
deriving Repr, DecidableEq

namespace Route

/-- The longest path and the longest name that the file system takes, in octets. -/
def maxPath : Nat := 4095
def maxName : Nat := 255

/-- A route for a path that starts at `here` unless it is absolute. -/
def ofPath (here : Location) (p : Path) : Route :=
  { start := if p.isAbsolute then [] else here
    steps := (Path.segments p.text).filter (!·.isEmpty)
    slashAtEnd := p.text.getLast? = some Path.slash }

/-- The steps, one more for a slash at the end. -/
def allSteps (r : Route) : List Bytes :=
  if r.slashAtEnd then r.steps ++ [[Path.dot]] else r.steps

/-- A route for a path that may be asked for at all. -/
def ofPath? (here : Location) (p : Path) : Except Fault Route :=
  if 0 ∈ p.text then .error .strayNul
  else if p.isEmpty then .error .noEntry
  else if maxPath < p.text.length then .error .nameTooLong
  else .ok (ofPath here p)

end Route

/-- How many links one path may lead along. -/
def maxLinks : Nat := 40

def isUp (step : Bytes) : Bool :=
  step = [Path.dot, Path.dot]

def isStay (step : Bytes) : Bool :=
  step = [Path.dot]

/-- Where some steps from `l` end, and how many more links may be met. -/
def walk (t : Tree) (links : Nat) (l : Location) : List Bytes → Except Fault (Location × Nat)
  | [] => .ok (l, links)
  | step :: rest =>
    match t.get? l with
    | some (.folder _) =>
      if isStay step then walk t links l rest
      else if isUp step then walk t links l.dropLast rest
      else if Route.maxName < step.length then .error .nameTooLong
      else
        match t.get? (l ++ [step]) with
        | none => .error .noEntry
        | some (.link target) =>
          match links with
          | 0 => .error .tooManyLinks
          | links + 1 =>
            let r := Route.ofPath l target
            walk t links r.start (r.allSteps ++ rest)
        | some _ => walk t links (l ++ [step]) rest
    | _ => .error .notADirectory
termination_by steps => (links, steps.length)

/-- A walk does not gain links. -/
theorem walk_links_le {t : Tree} {links : Nat} {l l' : Location} {steps : List Bytes} {left : Nat}
    (h : walk t links l steps = .ok (l', left)) : left ≤ links := by
  fun_induction walk t links l steps with
  | case1 => cases h; exact Nat.le_refl _
  | case2 _ _ _ _ _ _ _ ih => exact ih h
  | case3 _ _ _ _ _ _ _ _ ih => exact ih h
  | case4 => cases h
  | case5 => cases h
  | case6 => cases h
  | case7 _ _ _ _ _ _ _ _ _ _ _ _ ih => exact Nat.le_succ_of_le (ih h)
  | case8 _ _ _ _ _ _ _ _ _ _ _ _ ih => exact ih h
  | case9 => cases h

/-- The last name of a route, or none where it ends in `.`, `..` or the top. -/
def Route.lastName? (r : Route) : Option Name :=
  match r.steps.getLast? with
  | none => none
  | some step => if isStay step || isUp step then none else some step

/-- The folder that holds the last step of a route. -/
def approach (t : Tree) (links : Nat) (r : Route) : Except Fault (Location × Nat) := do
  let (l, links) ← walk t links r.start r.steps.dropLast
  match t.get? l with
  | some (.folder _) => .ok (l, links)
  | _ => .error .notADirectory

/-- Nor does an approach. -/
theorem approach_links_le {t : Tree} {links left : Nat} {r : Route} {l : Location}
    (h : approach t links r = .ok (l, left)) : left ≤ links := by
  unfold approach at h
  cases hw : walk t links r.start r.steps.dropLast with
  | error f => rw [hw] at h; cases h
  | ok found =>
    rw [hw] at h
    have hle : found.2 ≤ links := walk_links_le hw
    simp only [bind, Except.bind] at h
    split at h
    · cases h; exact hle
    · cases h

/-- Where a file is to be opened or made for writing: the end of a route, links followed, and
the file that is there. -/
def seek (t : Tree) (links : Nat) (r : Route) : Except Fault (Location × Option Entry) :=
  match _h : approach t links r with
  | .error f => .error f
  | .ok (l, left) =>
    match r.slashAtEnd, r.lastName? with
    | false, some name =>
      if Route.maxName < name.length then .error .nameTooLong
      else
        match t.get? (l ++ [name]) with
        | none => .ok (l ++ [name], none)
        | some (.folder _) => .error .isADirectory
        | some (.file mode serial content) => .ok (l ++ [name], some (.file mode serial content))
        | some (.link target) =>
          -- a link at the end is followed: a file is opened at its target
          match left with
          | 0 => .error .tooManyLinks
          | left + 1 => seek t left (Route.ofPath l target)
    | _, _ => .error .isADirectory
termination_by links
decreasing_by exact approach_links_le _h

end Courier
