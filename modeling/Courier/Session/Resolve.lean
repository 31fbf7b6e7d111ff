import Courier.Files.Basic
import Courier.Transfer.Error

/-!
# Served locations

A peer names a file by a path that is taken to lie under the served root. The names are
walked one by one; wherever a link is met, the walk goes on at its end, which has to lie
under the root. From the first name that does not exist on, names are taken as they are.
-/

namespace Courier.Session

/-- The names that a peer's path asks for. A path upwards is refused, and so is one that asks
for no name at all. -/
def requestedNames (p : Path) : Except TransferError (List Name) :=
  if .up ∈ p.parts then .error (.protocol (.parentPart p))
  else if p.names.isEmpty then .error (.protocol (.namesNoFile p))
  else .ok p.names

/-- Where some names lead from a location reached before; `asked` is the path that the peer
asked for. -/
def resolveFrom (fs : Files) (root : Location) (asked : Path) :
    Location → List Name → Except TransferError Location
  | reached, [] => .ok reached
  | reached, name :: rest =>
    let next := reached ++ [name]
    match fs.lstat (Files.pathOf next) with
    | .ok (_, .link _) =>
      match fs.located (Files.pathOf next) with
      | .error _ => .error (.protocol (.escapesRoot asked))
      | .ok (target, _) =>
        if root.isPrefixOf target then resolveFrom fs root asked target rest
        else .error (.protocol (.escapesRoot asked))
    | .ok _ => resolveFrom fs root asked next rest
    | .error f =>
      if f.kind = .notFound then .ok (next ++ rest)
      else .error (.filesystem .resolvePath (Files.pathOf next) f)

/-- The location that a peer's path stands for under a root. -/
def resolve (fs : Files) (root asked : Path) : Except TransferError Location :=
  match requestedNames asked with
  | .error e => .error e
  | .ok names =>
    match fs.located root with
    | .error f => .error (.filesystem .resolveRoot root f)
    | .ok (top, _) => resolveFrom fs top asked top names

end Courier.Session
