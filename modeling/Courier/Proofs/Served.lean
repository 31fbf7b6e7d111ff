import Courier.Proofs.Confinement
import Courier.Proofs.Leftovers

/-!
# Sessions leave links alone

The path that a session receives into is the path of a location without links. No other links come
up, so what it gives that name to never takes the place of a link, and the staged files of sessions
are never out of reach.

Main results:

* `Session.Moves.target` — where the destination of a session comes from.
* `Files.Whole.deed` — a receive into a location without links leaves all links in their places.
-/

namespace Courier

open Transfer (Phase)

/-- The path that a session is to receive into, once it is resolved. -/
def Session.Stage.target? : Session.Stage → Option Path
  | .located _ file => some file
  | .storing _ file _ => some file
  | _ => none

/-- The destination of a session is that of its receive, or it was just resolved. -/
theorem Session.Moves.target {c c' : Course} {m m' : Machine} {file : Path} (h : Moves m c c' m')
    (htarget : c'.stage.target? = some file) :
    c.stage.target? = some file ∨
      ∃ root asked r, resolve m.files root asked = .ok r ∧ file = Files.pathOf r := by
  cases h with
  | @locate _ _ _ _ _ r hresolve =>
    cases htarget
    exact .inr ⟨_, _, r, hresolve, rfl⟩
  | store | receive => exact .inl htarget
  | deaf | hear | announce | refuse | send | lack | deliver | report | record | rest
  | received | delivered => cases htarget
  | unreceived | undelivered => cases htarget

namespace Files

variable {first fs fs' : Files}

/-- The path of a location on whose way there were no links at first. -/
def IsStraight (first : Files) (p : Path) : Prop :=
  ∃ r, p = pathOf r ∧ ProperLocation r ∧ first.tree.Clear r

/-- Every link is where it was at first. -/
def Whole (first fs : Files) : Prop :=
  ∀ l target, first.tree.get? l = some (.link target) → fs.tree.get? l = some (.link target)

/-- A path of a session is straight, as long as no link was replaced. -/
theorem Whole.isStraight (h : first.Whole fs) (ht : fs.tree.WellFormed) {root asked : Path}
    {r : Location} (hresolve : Session.resolve fs root asked = .ok r) :
    first.IsStraight (pathOf r) := by
  obtain ⟨-, -, -, -, hclear, hproper, -⟩ := Session.resolve_eq_ok ht hresolve
  exact ⟨r, rfl, hproper, fun l hl target hlink => hclear l hl target (h l target hlink)⟩

/-- There is no link where a straight path leads. -/
theorem IsStraight.no_link {p : Path} (h : first.IsStraight p) (hstanding : first.Standing fs)
    {f : Fault} {l : Location} (hl : fs.slotOf p f = .ok l) (target : Path) :
    first.tree.get? l ≠ some (.link target) := by
  obtain ⟨r, rfl, hproper, hclear⟩ := h
  have hclear' : fs.tree.Clear r := fun l hl target hlink =>
    hclear l hl target (hstanding.links l target hlink)
  obtain ⟨folder, name, hslot, rfl⟩ := slot_of_slotOf hl
  obtain rfl := slot_pathOf hproper hclear' hslot
  exact hclear _ List.prefix_rfl target

/-- A receive into a straight path leaves all links in their places. -/
theorem Whole.deed {made stuck : List FileHandle} {holds : Nat → Option (Path × Staged)} {i : Nat}
    {q q' : Option (Path × Phase)} (h : first.Whole fs) (htidy : Tidy first fs made stuck holds)
    (hholds : holds i = heldBy q)
    (hstraight : ∀ dest staged, heldBy q = some (dest, staged) → first.IsStraight dest)
    (hdeed : Deed q fs q' fs') : first.Whole fs' := by
  intro l target hlink
  have hold := h l target hlink
  have hgrown (hgrows : fs.Grows fs') : fs'.tree.get? l = some (.link target) :=
    Tree.shape_eq_link.mp (hgrows.shown l _ (Tree.shape_of_get? hold))
  have hne {dest : Path} {staged : Staged} (hheld : heldBy q = some (dest, staged)) :
      l ≠ staged.handle.location := by
    rintro rfl
    rw [(htidy.held i dest staged (hholds.trans hheld)).missing] at hlink
    cases hlink
  -- a deed that grows the tree keeps every link; a move and a removal touch no location that has
  -- one
  cases hdeed with
  | grow hgrows => exact hgrown hgrows
  | stage _ _ _ hcreated hle hlt => exact hgrown (hcreated.grows hle hlt)
  | @promote _ dest staged hheld _ _ hrename =>
    have hanchored := htidy.held i dest staged (hholds.trans hheld)
    rcases rename_cases hrename with ⟨old, new, -, hsource, hnew, -, rfl⟩ | ⟨f, hr, -⟩
    · obtain rfl := hanchored.location_of_slotOf htidy.standing hsource
      have hne' : l ≠ new := by
        rintro rfl
        exact (hstraight dest staged hheld).no_link htidy.standing hnew target hlink
      rw [commit, Change.get?_apply_of_notMem _ (by simp [Change.touched, hne hheld, hne'])]
      exact hold
    · cases hr
  | @discard dest staged hheld =>
    rcases htidy.remove_cases (hholds.trans hheld) with hremove | ⟨-, f, hremove⟩
    · rw [hremove]
      exact (Tree.get?_remove_of_ne _ (hne hheld)).trans hold
    · rw [hremove]
      exact hold

/-- Where every link is in its place, every staged file could be removed. -/
theorem Whole.stuck_eq_nil {made stuck : List FileHandle} {holds : Nat → Option (Path × Staged)}
    (h : first.Whole fs) (htidy : Tidy first fs made stuck holds) : stuck = [] := by
  refine Classical.byContradiction fun hstuck => ?_
  obtain ⟨l, target, hlink, hfile⟩ := htidy.replaced hstuck
  rw [Tree.shape_of_get? (h l target hlink)] at hfile
  cases hfile

end Files

end Courier
