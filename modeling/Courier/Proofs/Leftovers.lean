import Mathlib.Logic.Function.Basic
import Courier.Proofs.Deeds
import Courier.Proofs.Sharing

/-!
# No staged file is left

Each staged file that was made is in one of three places: a receive holds it, it has been given
another name, or it was to be removed and could not be. The last happens only after a file has
taken the place of a symbolic link that was there at first, for the folder of the staged file may
have been reached along that link.

A staged file may be replaced by another one, if some receive has it for its destination. Since a
file that is given the name of a destination gets a shorter name, none comes back to where it was
made.

Main results:

* `Tidy` — what is known of the staged files at every moment.
* `Tidy.grow`, `Tidy.stage`, `Tidy.promote`, `Tidy.discard` — the deeds keep it.
-/

namespace Courier

open Transfer (stagingPath)

namespace Files

/-! ## What has become of the files -/

/-- What was there at first is still there, but for links in whose place there is a file now; there
are no new links, and the tree is well-formed if it was. -/
structure Standing (first fs : Files) : Prop where
  here : fs.here = first.here
  shown : ∀ l s, first.tree.shape l = some s →
    fs.tree.shape l = some s ∨ ((∃ target, s = .link target) ∧ fs.tree.shape l = some .file)
  links : ∀ l target, fs.tree.get? l = some (.link target) →
    first.tree.get? l = some (.link target)
  intact : first.tree.WellFormed → fs.tree.WellFormed

/-- At first everything is as it was. -/
theorem Standing.refl (first : Files) : first.Standing first :=
  ⟨rfl, fun _ _ h => .inl h, fun _ _ h => h, id⟩

/-- What is missing now was missing at first. -/
theorem Standing.missing {first fs : Files} {l : Location} (h : first.Standing fs)
    (hl : fs.tree.get? l = none) : first.tree.get? l = none := by
  rw [← Tree.shape_eq_none] at hl ⊢
  cases hs : first.tree.shape l with
  | none => rfl
  | some s =>
    rcases h.shown l s hs with hshape | ⟨-, hshape⟩
    · rw [hl] at hshape
      cases hshape
    · rw [hl] at hshape
      cases hshape

/-- A link that was there at first is still there, or a file is in its place. -/
theorem Standing.link {first fs : Files} {l : Location} {target : Path} (h : first.Standing fs)
    (hl : first.tree.get? l = some (.link target)) :
    fs.tree.get? l = some (.link target) ∨ fs.tree.shape l = some .file :=
  (h.shown l _ (Tree.shape_of_get? hl)).imp Tree.shape_eq_link.mp And.right

/-- Files that are made or get longer take the place of nothing. -/
theorem Standing.grows {first fs fs' : Files} (h : first.Standing fs) (hgrows : fs.Grows fs') :
    first.Standing fs' where
  here := hgrows.here.trans h.here
  shown := fun l s hs =>
    (h.shown l s hs).imp (hgrows.shown l s) (.imp_right (hgrows.shown l _))
  links := fun l target hl => h.links l target (hgrows.link hl)
  intact := hgrows.intact ∘ h.intact

/-! ## A file that leaves its location -/

/-- What has become of the files when one was taken from its location, and put at another one if
there is one. -/
structure Taken (fs : Files) (old : Location) (new? : Option Location) (fs' : Files) : Prop where
  here : fs'.here = fs.here
  drawn : fs'.drawn = fs.drawn
  gone : fs'.tree.get? old = none
  arrived : ∀ new, new? = some new → fs'.tree.get? new = fs.tree.get? old
  others : ∀ l, l ≠ old → new? ≠ some l → fs'.tree.get? l = fs.tree.get? l

section Taken

variable {first fs fs' : Files} {old l : Location} {new? : Option Location}

/-- A file that is removed is taken, and put nowhere. -/
theorem taken_remove (fs : Files) (old : Location) :
    fs.Taken old none (fs.commit (.remove old)) where
  here := rfl
  drawn := rfl
  gone := Tree.get?_remove_self ..
  arrived := fun _ h => by cases h
  others := fun _ hl _ => Tree.get?_remove_of_ne _ hl

/-- One that is moved is taken and put at its new place. -/
theorem taken_move {new : Location} {e : Entry} (hget : fs.tree.get? old = some e)
    (hne : old ≠ new) : fs.Taken old (some new) (fs.commit (.move old new)) where
  here := rfl
  drawn := rfl
  gone := Change.get?_move_source hget hne
  arrived := by
    intro l hl
    cases hl
    rw [hget]
    exact Change.get?_move_target hget
  others := by
    intro l hl hl'
    have hnew : l ≠ new := fun h => hl' (congrArg some h.symm)
    exact Change.get?_apply_of_notMem _ (by simp [Change.touched, hl, hnew])

/-- Whatever is there now was there before, or is the file that was taken. -/
theorem Taken.back (h : fs.Taken old new? fs') {e : Entry} (he : fs'.tree.get? l = some e) :
    l ≠ old ∧ ((new? = some l ∧ fs.tree.get? old = some e) ∨ fs.tree.get? l = some e) := by
  have hl : l ≠ old := by
    rintro rfl
    rw [h.gone] at he
    cases he
  refine ⟨hl, ?_⟩
  -- at the new place there is what was taken, elsewhere what was there
  by_cases hl' : new? = some l
  · exact .inl ⟨hl', (h.arrived l hl').symm.trans he⟩
  · exact .inr ((h.others l hl hl').symm.trans he)

/-- All other locations show what they showed. -/
theorem Taken.shape (h : fs.Taken old new? fs') (hl : l ≠ old) (hl' : new? ≠ some l) :
    fs'.tree.shape l = fs.tree.shape l :=
  congrArg (Option.map Entry.shape) (h.others l hl hl')

/-- The other files are still files. -/
theorem Taken.file (h : fs.Taken old new? fs') (hold : fs.tree.shape old = some .file)
    (hl : l ≠ old) (hs : fs.tree.shape l = some .file) : fs'.tree.shape l = some .file := by
  by_cases hl' : new? = some l
  · exact (congrArg (Option.map Entry.shape) (h.arrived l hl')).trans hold
  · exact (h.shape hl hl').trans hs

/-- The folders stay, if the file does not take the place of one. -/
theorem Taken.folder (h : fs.Taken old new? fs') (hold : fs.tree.shape old = some .file)
    (hfree : ∀ new, new? = some new → fs.tree.shape new ≠ some .folder)
    (hs : fs.tree.shape l = some .folder) : fs'.tree.shape l = some .folder := by
  have hl : l ≠ old := by
    rintro rfl
    rw [hold] at hs
    cases hs
  exact (h.shape hl fun hl' => hfree l hl' hs).trans hs

/-- Where a file is taken that was not there at first, and takes the place of no folder. -/
theorem Standing.taken (h : first.Standing fs) (htaken : fs.Taken old new? fs')
    (hold : fs.tree.shape old = some .file) (hmissing : first.tree.get? old = none)
    (hfree : ∀ new, new? = some new → fs.tree.shape new ≠ some .folder)
    (hintact : fs.tree.WellFormed → fs'.tree.WellFormed) : first.Standing fs' where
  here := htaken.here.trans h.here
  shown := by
    intro l s hs
    have hl : l ≠ old := by
      rintro rfl
      rw [Tree.shape_eq_none.mpr hmissing] at hs
      cases hs
    -- it was shown until now, or was a link with a file in its place already
    rcases h.shown l s hs with hshape | ⟨hlink, hshape⟩
    · by_cases hl' : new? = some l
      · -- what the file takes the place of is a file or a link
        have hshape' : fs'.tree.shape l = some .file :=
          (congrArg (Option.map Entry.shape) (htaken.arrived l hl')).trans hold
        cases s with
        | file => exact .inl hshape'
        | folder => exact absurd hshape (hfree l hl')
        | link target => exact .inr ⟨⟨target, rfl⟩, hshape'⟩
      · exact .inl ((htaken.shape hl hl').trans hshape)
    · exact .inr ⟨hlink, htaken.file hold hl hshape⟩
  links := by
    intro l target hl
    obtain ⟨-, ⟨-, he⟩ | he⟩ := htaken.back hl
    · rw [Tree.shape_of_get? he] at hold
      cases hold
    · exact h.links l target he
  intact := hintact ∘ h.intact

end Taken

/-! ## One staged file -/

/-- How long the last name of a location is. -/
def nameLength (l : Location) : Nat :=
  (l.getLast?.getD []).length

/-- The last name is the one that was put behind. -/
@[simp] theorem nameLength_concat (l : Location) (n : Name) : nameLength (l ++ [n]) = n.length := by
  simp [nameLength]

/-- When the file was staged its path led to it; folders have stayed since, and the links that there
were are some of the first. -/
structure Anchored (first : Files) (dest : Path) (staged : Staged) (fs : Files) : Prop where
  led : ∃ (before : Files) (folder : Location) (n : Nat), before.here = first.here ∧
    before.Slot staged.path folder (Staged.name dest n) ∧
    staged.handle.location = folder ++ [Staged.name dest n] ∧
    (∀ l, before.tree.shape l = some .folder → fs.tree.shape l = some .folder) ∧
    ∀ l target, before.tree.get? l = some (.link target) → first.tree.get? l = some (.link target)
  missing : first.tree.get? staged.handle.location = none
  file : fs.tree.shape staged.handle.location = some .file

variable {first fs fs' : Files} {dest : Path} {staged : Staged}

/-- A file that was just staged is anchored. -/
theorem anchored_of_created {n mode : Nat} (hstanding : first.Standing fs)
    (hpath : staged.path = stagingPath dest fs.here n)
    (hcreated : fs.Created staged.path mode staged.handle fs') (hgrows : fs.Grows fs') :
    Anchored first dest staged fs' := by
  obtain ⟨folder, name, hslot, hlocation⟩ := hcreated.slot
  have hname : name = Staged.name dest n := Staged.last_of_slot (hpath ▸ hslot)
  subst hname
  constructor
  case led => exact ⟨fs, folder, n, hstanding.here, hslot, hlocation,
    fun l => hgrows.shown l _, hstanding.links⟩
  case missing => exact hstanding.missing hcreated.fresh
  case file => exact Tree.shape_of_get? hcreated.holds

/-- A staged file is found where it was made; or it is not found, as a link was replaced. -/
theorem Anchored.found (h : Anchored first dest staged fs) (hstanding : first.Standing fs) :
    (∃ folder name, fs.Slot staged.path folder name ∧
      staged.handle.location = folder ++ [name]) ∨
      (first.tree.Replaced fs.tree ∧ ∀ f l, fs.slotOf staged.path f ≠ .ok l) := by
  obtain ⟨before, folder, n, hhere, hslot, hlocation, hfolders, hlinks⟩ := h.led
  have hfollows : before.tree.Follows fs.tree :=
    ⟨hfolders, fun l target hl => hstanding.link (hlinks l target hl)⟩
  -- the folders on the way have stayed, so only a link can have been lost
  rcases hslot.followed (hstanding.here.trans hhere.symm) hfollows with
    hslot' | ⟨⟨l, target, hlink, hfile⟩, hnone⟩
  · exact .inl ⟨folder, _, hslot', hlocation⟩
  · refine .inr ⟨⟨l, target, hlinks l target hlink, hfile⟩, fun f l hl => ?_⟩
    obtain ⟨folder', name', hslot', -⟩ := slot_of_slotOf hl
    exact hnone folder' name' hslot'

/-- If the path of a staged file leads to its last name at all, it is where the file was made. -/
theorem Anchored.location_of_slotOf (h : Anchored first dest staged fs)
    (hstanding : first.Standing fs) {f : Fault} {l : Location}
    (hl : fs.slotOf staged.path f = .ok l) : l = staged.handle.location := by
  rcases h.found hstanding with ⟨folder, name, hslot, hlocation⟩ | ⟨-, hnone⟩
  · rw [hslot.slotOf f] at hl
    exact (Except.ok.inj hl).symm.trans hlocation.symm
  · exact absurd hl (hnone f l)

/-- The name of a staged file is longer than that of its destination, by as much as is put around
it. -/
theorem Anchored.nameLength (h : Anchored first dest staged fs) :
    nameLength staged.handle.location = (dest.fileName?.getD []).length + 12 := by
  obtain ⟨_, _, n, -, -, hlocation, -⟩ := h.led
  rw [hlocation, nameLength_concat, Staged.length_name]

/-- Steps that leave folders and the file itself in their places do not lose it. -/
theorem Anchored.frame (h : Anchored first dest staged fs)
    (hfolders : ∀ l, fs.tree.shape l = some .folder → fs'.tree.shape l = some .folder)
    (hfile : fs'.tree.shape staged.handle.location = some .file) :
    Anchored first dest staged fs' where
  led := by
    obtain ⟨before, folder, n, hhere, hslot, hlocation, hbefore, hlinks⟩ := h.led
    have hbefore' := fun l hl => hfolders l (hbefore l hl)
    exact ⟨before, folder, n, hhere, hslot, hlocation, hbefore', hlinks⟩
  missing := h.missing
  file := hfile

end Files

/-! ## All staged files -/

open Files

/-- What is known of the staged files, where `made` are those that were made, `stuck` those that
could not be removed, and `holds` tells which of them each party holds. -/
structure Tidy (first fs : Files) (made stuck : List FileHandle)
    (holds : Nat → Option (Path × Staged)) : Prop where
  standing : first.Standing fs
  drawn : ∀ h ∈ made, h.serial < fs.drawn
  nodup : made.Nodup
  /-- A file with the number of a staged file is that file, where it was made or under a shorter
  name; but files that were there at first may have any number. -/
  placed : ∀ l mode serial content, fs.tree.get? l = some (.file mode serial content) →
    first.tree.get? l ≠ none ∨ (serial < fs.drawn ∧
      ∀ h ∈ made, h.serial = serial → l = h.location ∨ nameLength l < nameLength h.location)
  held : ∀ i dest staged, holds i = some (dest, staged) → Anchored first dest staged fs
  apart : ∀ i j dest staged dest' staged', i ≠ j → holds i = some (dest, staged) →
    holds j = some (dest', staged') → staged.handle.location ≠ staged'.handle.location
  accounted : ∀ h ∈ made, Traffic.isStaged fs h = true →
    (∃ i dest staged, holds i = some (dest, staged) ∧ staged.handle = h) ∨ h ∈ stuck
  replaced : stuck ≠ [] → first.tree.Replaced fs.tree

namespace Tidy

variable {first fs fs' : Files} {made stuck : List FileHandle}
  {holds : Nat → Option (Path × Staged)} {i : Nat} {dest : Path} {staged : Staged}

/-- A staged file is still there if a file with its number is. -/
theorem isStaged_iff {h : FileHandle} :
    Traffic.isStaged fs h = true ↔
      ∃ mode content, fs.tree.get? h.location = some (.file mode h.serial content) := by
  unfold Traffic.isStaged
  constructor
  · intro hstaged
    split at hstaged
    · rename_i mode serial content hget
      have hserial : serial = h.serial := by simpa using hstaged
      exact ⟨mode, content, hserial ▸ hget⟩
    · cases hstaged
  · rintro ⟨mode, content, hget⟩
    rw [hget]
    simp

/-- At first nothing has been staged. -/
theorem begin (first : Files) : Tidy first first [] [] fun _ => none where
  standing := .refl first
  drawn := by simp
  nodup := .nil
  placed := fun l mode serial content hget => .inl (by simp [hget])
  held := fun _ _ _ h => by cases h
  apart := fun _ _ _ _ _ _ _ h => by cases h
  accounted := by simp
  replaced := fun h => absurd rfl h

/-- **Files that are made or get longer** take nothing from the staged ones. -/
theorem grow (h : Tidy first fs made stuck holds) (hgrows : fs.Grows fs') :
    Tidy first fs' made stuck holds := by
  have hfile (l : Location) (hl : fs.tree.shape l = some .file) : fs'.tree.shape l = some .file :=
    hgrows.shown l _ hl
  constructor
  case standing => exact h.standing.grows hgrows
  case drawn => exact fun k hk => Nat.lt_of_lt_of_le (h.drawn k hk) hgrows.drawn
  case nodup => exact h.nodup
  case placed =>
    intro l mode serial content hget
    rcases hgrows.file hget with ⟨content', hold⟩ | ⟨-, hle, hlt⟩
    -- a file that only got longer has kept its number
    · exact (h.placed l mode serial content' hold).imp_right
        (.imp_left fun hserial => Nat.lt_of_lt_of_le hserial hgrows.drawn)
    · -- a new number is not the number of a staged file
      refine .inr ⟨hlt, fun k hk hserial => ?_⟩
      have := h.drawn k hk
      omega
  case held =>
    intro i dest staged hheld
    have hanchored := h.held i dest staged hheld
    exact hanchored.frame (fun l => hgrows.shown l _) (hfile _ hanchored.file)
  case apart => exact h.apart
  case accounted =>
    intro k hk hstaged
    obtain ⟨mode, content, hget⟩ := isStaged_iff.mp hstaged
    rcases hgrows.file hget with ⟨content', hold⟩ | ⟨-, hle, -⟩
    · exact h.accounted k hk (isStaged_iff.mpr ⟨mode, content', hold⟩)
    · have := h.drawn k hk
      omega
  case replaced =>
    intro hstuck
    obtain ⟨l, target, hlink, hl⟩ := h.replaced hstuck
    exact ⟨l, target, hlink, hfile l hl⟩

/-- What a party holds after another one has changed what it holds. -/
theorem of_update {j : Nat} {held : Option (Path × Staged)} {q : Path × Staged}
    (h : Function.update holds i held j = some q) :
    (j = i ∧ held = some q) ∨ (j ≠ i ∧ holds j = some q) := by
  by_cases hj : j = i
  · subst hj
    rw [Function.update_self] at h
    exact .inl ⟨rfl, h⟩
  · rw [Function.update_of_ne hj] at h
    exact .inr ⟨hj, h⟩

/-- A file is staged. -/
theorem stage {n : Nat} (h : Tidy first fs made stuck holds) (hnone : holds i = none)
    (hpath : staged.path = stagingPath dest fs.here n)
    (hcreated : fs.Created staged.path 0o644 staged.handle fs')
    (hle : fs.drawn ≤ staged.handle.serial) (hlt : staged.handle.serial < fs'.drawn) :
    Tidy first fs' (staged.handle :: made) stuck
      (Function.update holds i (some (dest, staged))) := by
  have hgrows : fs.Grows fs' := hcreated.grows hle hlt
  have hgrown := h.grow hgrows
  -- the file is new, so no one else has a file there
  have hfresh {j : Nat} {dest' : Path} {staged' : Staged}
      (hheld : holds j = some (dest', staged')) :
      staged'.handle.location ≠ staged.handle.location := by
    intro heq
    have hfile := (h.held j dest' staged' hheld).file
    rw [heq, Tree.shape_eq_none.mpr hcreated.fresh] at hfile
    cases hfile
  have hanchored := anchored_of_created h.standing hpath hcreated hgrows
  constructor
  case standing => exact hgrown.standing
  case drawn =>
    intro k hk
    rcases List.mem_cons.mp hk with rfl | hk
    · exact hlt
    · exact hgrown.drawn k hk
  case nodup =>
    refine List.nodup_cons.mpr ⟨fun hmem => ?_, h.nodup⟩
    have := h.drawn _ hmem
    omega
  case placed =>
    intro l mode serial content hget
    rcases hgrows.file hget with ⟨content', hold⟩ | ⟨hmissing, hge, hserial⟩
    · refine (h.placed l mode serial content' hold).imp_right fun ⟨hserial, hplaced⟩ => ?_
      refine ⟨by omega, fun k hk heq => ?_⟩
      rcases List.mem_cons.mp hk with rfl | hk
      · omega
      · exact hplaced k hk heq
    · -- nothing but the staged file is new
      have hl : l = staged.handle.location := Classical.byContradiction fun hl => by
        rw [hcreated.spares.others l (by simpa using hl), hmissing] at hget
        cases hget
      refine .inr ⟨hserial, fun k hk heq => ?_⟩
      rcases List.mem_cons.mp hk with rfl | hk
      · exact .inl hl
      · have := h.drawn k hk
        omega
  case held =>
    intro j dest' staged' hheld
    rcases of_update hheld with ⟨-, hnew⟩ | ⟨-, hold⟩
    · cases hnew
      exact hanchored
    · exact hgrown.held j dest' staged' hold
  -- the new file is apart from all the others, as nothing was where it is
  case apart =>
    intro j k dest' staged' dest'' staged'' hjk hj hk
    rcases of_update hj with ⟨hji, hnew⟩ | ⟨-, hold⟩
    · cases hnew
      rcases of_update hk with ⟨hki, -⟩ | ⟨-, hother⟩
      · exact absurd (hji.trans hki.symm) hjk
      · exact (hfresh hother).symm
    · rcases of_update hk with ⟨-, hnew⟩ | ⟨-, hother⟩
      · cases hnew
        exact hfresh hold
      · exact h.apart j k dest' staged' dest'' staged'' hjk hold hother
  -- the new file is held by its party, and the others are held as before
  case accounted =>
    intro k hk hstaged
    rcases List.mem_cons.mp hk with rfl | hk
    · exact .inl ⟨i, dest, staged, Function.update_self .., rfl⟩
    · refine (hgrown.accounted k hk hstaged).imp_left fun ⟨j, dest', staged', hheld, heq⟩ => ?_
      have hj : j ≠ i := by
        rintro rfl
        rw [hnone] at hheld
        cases hheld
      exact ⟨j, dest', staged', by rwa [Function.update_of_ne hj], heq⟩
  case replaced => exact hgrown.replaced

/-- A staged file that its party does not hold any more is accounted for if it is not where it was
made, or could not be removed. -/
theorem accounted_of_done {stuck' : List FileHandle} {k : FileHandle}
    (h : Tidy first fs made stuck holds) (hheld : holds i = some (dest, staged)) (hk : k ∈ made)
    (hstaged : Traffic.isStaged fs k = true) (hdone : k = staged.handle → k ∈ stuck')
    (hstuck : ∀ k ∈ stuck, k ∈ stuck') :
    (∃ j dest' staged', Function.update holds i none j = some (dest', staged') ∧
      staged'.handle = k) ∨ k ∈ stuck' := by
  -- it was held by this party, by another one, or by none
  rcases h.accounted k hk hstaged with ⟨j, dest', staged', hj, heq⟩ | hmem
  · by_cases hji : j = i
    · subst hji
      rw [hheld] at hj
      cases hj
      exact .inr (hdone heq.symm)
    · exact .inl ⟨j, dest', staged', by rwa [Function.update_of_ne hji], heq⟩
  · exact .inr (hstuck k hmem)

/-- What the others hold is still held, when one party lets go of its staged file. -/
theorem held_of_done {j : Nat} {dest' : Path} {staged' : Staged}
    (h : Tidy first fs made stuck holds) (hheld : holds i = some (dest, staged))
    (hj : Function.update holds i none j = some (dest', staged')) :
    Anchored first dest' staged' fs ∧ staged'.handle.location ≠ staged.handle.location := by
  rcases of_update hj with ⟨-, hnew⟩ | ⟨hji, hold⟩
  · cases hnew
  · exact ⟨h.held j dest' staged' hold, h.apart j i dest' staged' dest staged hji hold hheld⟩

/-- No two of the others hold the same file. -/
theorem apart_of_done (h : Tidy first fs made stuck holds) :
    ∀ j k dest' staged' dest'' staged'', j ≠ k →
      Function.update holds i none j = some (dest', staged') →
      Function.update holds i none k = some (dest'', staged'') →
      staged'.handle.location ≠ staged''.handle.location := by
  intro j k dest' staged' dest'' staged'' hjk hj hk
  -- the party that has let go holds nothing, and of the others nothing has changed
  rcases of_update hj with ⟨-, hnew⟩ | ⟨-, hj'⟩
  · cases hnew
  · rcases of_update hk with ⟨-, hnew⟩ | ⟨-, hk'⟩
    · cases hnew
    · exact h.apart j k dest' staged' dest'' staged'' hjk hj' hk'

/-- A staged file that cannot be removed stays, and is noted. -/
theorem keep (h : Tidy first fs made stuck holds) (hheld : holds i = some (dest, staged))
    (hreplaced : first.tree.Replaced fs.tree) :
    Tidy first fs made (staged.handle :: stuck) (Function.update holds i none) where
  standing := h.standing
  drawn := h.drawn
  nodup := h.nodup
  placed := h.placed
  held := fun _ _ _ hj => (h.held_of_done hheld hj).1
  apart := h.apart_of_done
  accounted := fun _ hk hstaged => h.accounted_of_done hheld hk hstaged
    (fun heq => heq ▸ List.mem_cons_self ..) fun _ => List.mem_cons_of_mem _
  replaced := fun _ => hreplaced

/-- A staged file is taken from where it was made, and may be given another name, a shorter one. -/
theorem taken {new? : Option Location} (h : Tidy first fs made stuck holds)
    (hheld : holds i = some (dest, staged))
    (htaken : fs.Taken staged.handle.location new? fs')
    (hshorter : ∀ new, new? = some new → nameLength new < nameLength staged.handle.location)
    (hfree : ∀ new, new? = some new → fs.tree.shape new ≠ some .folder)
    (hintact : fs.tree.WellFormed → fs'.tree.WellFormed) :
    Tidy first fs' made stuck (Function.update holds i none) := by
  have hanchored := h.held i dest staged hheld
  -- the file was where it was staged, or had taken the place of one that was
  have hplaced {mode serial : Nat} {content : Bytes}
      (hget : fs.tree.get? staged.handle.location = some (.file mode serial content)) :=
    (h.placed _ _ _ _ hget).resolve_left (by simp [hanchored.missing])
  constructor
  case standing =>
    exact h.standing.taken htaken hanchored.file hanchored.missing hfree hintact
  case drawn =>
    rw [htaken.drawn]
    exact h.drawn
  case nodup => exact h.nodup
  case placed =>
    intro l mode serial content hl
    rw [htaken.drawn]
    obtain ⟨-, ⟨hnew, he⟩ | he⟩ := htaken.back hl
    -- at its new place the file has a shorter name than any that was made with its number
    · obtain ⟨hserial, hnames⟩ := hplaced he
      refine .inr ⟨hserial, fun k hk heq => .inr ?_⟩
      rcases hnames k hk heq with hlocation | hlt
      · rw [← hlocation]
        exact hshorter l hnew
      · exact Nat.lt_trans (hshorter l hnew) hlt
    · exact h.placed l mode serial content he
  case held =>
    intro j dest' staged' hj
    obtain ⟨hanchored', hne⟩ := h.held_of_done hheld hj
    exact hanchored'.frame (fun l => htaken.folder hanchored.file hfree)
      (htaken.file hanchored.file hne hanchored'.file)
  case apart => exact h.apart_of_done
  case accounted =>
    intro k hk hstaged
    obtain ⟨mode, content, hl⟩ := isStaged_iff.mp hstaged
    obtain ⟨hk', ⟨hnew, he⟩ | he⟩ := htaken.back hl
    · -- under its new name the file is not where any file was staged
      rcases (hplaced he).2 k hk rfl with hlocation | hlt
      · exact absurd hlocation.symm hk'
      · exact absurd (Nat.lt_trans hlt (hshorter _ hnew)) (Nat.lt_irrefl _)
    · exact h.accounted_of_done hheld hk (isStaged_iff.mpr ⟨mode, content, he⟩)
        (fun heq => absurd (congrArg FileHandle.location heq) hk') fun _ hmem => hmem
  case replaced =>
    intro hstuck
    obtain ⟨l, target, hlink, hshape⟩ := h.replaced hstuck
    have hl : l ≠ staged.handle.location := by
      rintro rfl
      rw [hanchored.missing] at hlink
      cases hlink
    exact ⟨l, target, hlink, htaken.file hanchored.file hl hshape⟩

/-- A staged file is taken out of its folder. -/
theorem remove (h : Tidy first fs made stuck holds) (hheld : holds i = some (dest, staged)) :
    Tidy first (fs.commit (.remove staged.handle.location)) made stuck
      (Function.update holds i none) :=
  h.taken hheld (taken_remove ..) (by simp) (by simp) fun ht => ht.remove (h.held i _ _ hheld).file

/-- A staged file is removed from where it was made; or it is out of reach, as a link was
replaced. -/
theorem remove_cases (h : Tidy first fs made stuck holds) (hheld : holds i = some (dest, staged)) :
    fs.remove staged.path = (.ok (), fs.commit (.remove staged.handle.location)) ∨
      (first.tree.Replaced fs.tree ∧ ∃ f, fs.remove staged.path = (.error f, fs)) := by
  have hanchored := h.held i dest staged hheld
  rcases hanchored.found h.standing with ⟨folder, name, hslot, hlocation⟩ | ⟨hreplaced, hlost⟩
  · obtain ⟨mode, serial, content, hget⟩ := Tree.shape_eq_file.mp hanchored.file
    rw [hlocation] at hget ⊢
    exact .inl (remove_of_slot hslot hget)
  · refine .inr ⟨hreplaced, ?_⟩
    unfold Files.remove
    cases hslot : fs.slotOf staged.path .isADirectory with
    | error f => exact ⟨f, rfl⟩
    | ok l => exact absurd hslot (hlost _ l)

/-- A party removes its staged file, or cannot. -/
theorem discard (h : Tidy first fs made stuck holds) (hheld : holds i = some (dest, staged)) :
    Tidy first (fs.remove staged.path).2 made
      ((if (fs.remove staged.path).1.isOk then [] else [staged.handle]) ++ stuck)
      (Function.update holds i none) := by
  -- it is removed, or it is out of reach and noted
  rcases h.remove_cases hheld with hremove | ⟨hreplaced, f, hremove⟩
  · rw [hremove]
    exact h.remove hheld
  · rw [hremove]
    exact h.keep hheld hreplaced

/-- A staged file is given another name, which is a shorter one. -/
theorem move {new : Location} (h : Tidy first fs made stuck holds)
    (hheld : holds i = some (dest, staged))
    (hshorter : nameLength new < nameLength staged.handle.location)
    (hplace : fs.tree.Place new) (hfree : fs.tree.shape new ≠ some .folder) :
    Tidy first (fs.commit (.move staged.handle.location new)) made stuck
      (Function.update holds i none) := by
  have hfile := (h.held i dest staged hheld).file
  obtain ⟨mode, serial, content, hget⟩ := Tree.shape_eq_file.mp hfile
  have hne : staged.handle.location ≠ new := by
    rintro heq
    rw [heq] at hshorter
    exact Nat.lt_irrefl _ hshorter
  refine h.taken hheld (taken_move hget hne) ?_ ?_ fun ht => ht.move hfile hplace hfree
  · rintro _ ⟨⟩
    exact hshorter
  · rintro _ ⟨⟩
    exact hfree

/-- A staged file is given the name of its destination. -/
theorem promote (h : Tidy first fs made stuck holds) (hheld : holds i = some (dest, staged))
    (hrename : fs.rename staged.path dest = (.ok (), fs')) :
    Tidy first fs' made stuck (Function.update holds i none) := by
  have hanchored := h.held i dest staged hheld
  rcases rename_cases hrename with ⟨old, new, -, hold, hnew, hfree, rfl⟩ | ⟨f, hr, -⟩
  · obtain rfl := hanchored.location_of_slotOf h.standing hold
    obtain ⟨folder, name, hslot, rfl⟩ := slot_of_slotOf hnew
    refine h.move hheld ?_ hslot.place fun hfolder => ?_
    · -- a staged file is named after its destination
      rw [hanchored.nameLength, nameLength_concat, Path.fileName?_of_lastName? hslot.last,
        Option.getD_some]
      omega
    · obtain ⟨mode, hmode⟩ := Tree.shape_eq_folder.mp hfolder
      exact hfree mode hmode
  · cases hr

end Tidy

end Courier
