import Courier.Files.Basic

/-!
# Listings

What a folder holds, at any depth: each entry with its path from there, in the order of the
octets of these paths. Links are listed and not followed.
-/

namespace Courier.Files

/-- The order of octet strings: at the first difference, or the shorter one first. -/
def octetsLe : Bytes → Bytes → Bool
  | [], _ => true
  | _ :: _, [] => false
  | a :: as, b :: bs => if a = b then octetsLe as bs else a < b

/-- A location below `top` as the text of its path from there. -/
def below? (top l : Location) : Option Bytes :=
  if top.isPrefixOf l ∧ top.length < l.length then some ((pathOf (l.drop top.length)).text.drop 1)
  else none

def listing (fs : Files) (p : Path) : Except Fault (List (Bytes × Entry)) :=
  (fs.stat p).map fun (top, _) =>
    let found := fs.tree.entries.filterMap fun (l, e) => (below? top l).map fun path => (path, e)
    found.mergeSort fun a b => octetsLe a.1 b.1

end Courier.Files
