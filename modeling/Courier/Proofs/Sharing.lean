import Courier.Proofs.Receiver

/-!
# What receives leave to each other

Receives that share a folder do not get in each other's way: a step touches only locations where
nothing is, or the staged file of its own receive, and the paths of the others lead where they led
before. The last step puts a file in the place of the destination. If a link was there, it must not
be on the way to the folder, or the other receives would lose their staged files.

Main results:

* `Files.Spares` — what a step leaves as it was.
* `Transfer.Aside` — the destination is not on the way to its own folder.
* `Transfer.slot_of_moved` — then the paths lead where they led, when a file was put there.
-/

namespace Courier

namespace Files

variable {fs fs' : Files} {p : Path} {folder : Location} {name : Name}

/-! ## Steps that spare others -/

/-- Only the locations `touched` are changed, and every slot stays where it is. -/
structure Spares (fs : Files) (touched : List Location) (fs' : Files) : Prop where
  here : fs'.here = fs.here
  slots : ∀ p folder name, fs.Slot p folder name → fs'.Slot p folder name
  others : ∀ l, l ∉ touched → fs'.tree.get? l = fs.tree.get? l

/-- Doing nothing spares everything. -/
theorem Spares.refl (fs : Files) : fs.Spares [] fs :=
  ⟨rfl, fun _ _ _ h => h, fun _ _ => rfl⟩

/-- Drawing numbers spares everything. -/
theorem Evolves.spares (h : fs.Evolves [] fs') : fs.Spares [] fs' where
  here := h.here
  slots := fun p folder name hslot =>
    hslot.mono h.here fun l s hs => by
      rw [h.tree]
      exact hs
  others := fun l _ => by rw [h.tree]; rfl

/-- Making folders touches the folders that are made. -/
theorem Furnished.spares {ps : List Path} {made : List Location} (h : Furnished ps fs made fs') :
    fs.Spares made fs' where
  here := h.evolves.here
  slots := fun _ _ _ hslot => hslot.mono h.evolves.here h.shown
  others := fun l hl => by rw [h.get?, if_neg hl]

/-- Making a file touches that file. -/
theorem Created.spares {mode : Nat} {handle : FileHandle} (h : fs.Created p mode handle fs') :
    fs.Spares [handle.location] fs' where
  here := h.evolves.here
  slots := fun _ _ _ hslot => hslot.mono h.evolves.here <| by
    rw [h.evolves.tree]
    exact Change.shownBy_create h.fresh _
  others := fun l hl => by
    rw [h.evolves.tree]
    exact Change.get?_apply_of_notMem _ hl

/-- An append touches the file it is made to. -/
theorem spares_append (handle : FileHandle) (written : Bytes) :
    fs.Spares [handle.location] (fs.commit (.append handle.location written)) where
  here := rfl
  slots := fun _ _ _ hslot => hslot.mono rfl fun l _ hs =>
    (Change.shape_append fs.tree handle.location written l).trans hs
  others := fun _ hl => Change.get?_apply_of_notMem _ hl

/-- Removing a file touches that file, and it was no folder. -/
theorem spares_remove {l : Location} {mode serial : Nat} {content : Bytes}
    (hfile : fs.tree.get? l = some (.file mode serial content)) :
    fs.Spares [l] (fs.commit (.remove l)) where
  here := rfl
  slots := fun _ _ _ hslot => hslot.anti rfl <| Change.filesOnly_remove fun s hs => by
    rw [Tree.shape_of_get? hfile] at hs
    exact (Option.some.inj hs).symm
  others := fun _ hl => Change.get?_apply_of_notMem _ hl

/-- The slot of a path outlasts what touches no folder. -/
theorem Spares.slotOf {touched : List Location} {f : Fault} {l : Location}
    (h : fs.Spares touched fs') (hl : fs.slotOf p f = .ok l) : fs'.slotOf p f = .ok l := by
  obtain ⟨folder, name, hslot, rfl⟩ := slot_of_slotOf hl
  exact (h.slots _ _ _ hslot).slotOf f

/-- Whatever was not touched is still shown. -/
theorem Spares.shownBy {touched : List Location} {t : Tree} (h : fs.Spares touched fs')
    (hshown : t.ShownBy fs.tree) (hmissing : ∀ l ∈ touched, t.get? l = none) :
    t.ShownBy fs'.tree := by
  intro l s hs
  by_cases hl : l ∈ touched
  · rw [Tree.shape_eq_none.mpr (hmissing l hl)] at hs
    cases hs
  · rw [Tree.shape, h.others l hl]
    exact hshown l s hs

/-! ## A file in the place of another entry -/

/-- Files with one entry taken out. -/
def without (fs : Files) (l : Location) : Files :=
  { fs with tree := fs.tree.remove l }

/-- A slot outlasts taking a file away from some location. -/
theorem Slot.without_file {l : Location} (h : fs.Slot p folder name)
    (hl : ∀ s, fs.tree.shape l = some s → s = .file) : (fs.without l).Slot p folder name :=
  h.anti rfl (Change.filesOnly_remove hl)

end Files

namespace Transfer

open Files

/-- The paths that receives into `dest` use for files. -/
inductive Way (dest : Path) (here : Location) : Path → Prop where
  | dest : Way dest here dest
  | staging (n : Nat) : Way dest here (stagingPath dest here n)

/-- The folder of a destination is made ready, at the first attempt or, where that fails, at a later
one. -/
inductive Readied (dest : Path) : Files → Files → Prop where
  | now {fs ready : Files} (hprepare : prepareFolder dest fs = (.ok (), ready)) :
      Readied dest fs ready
  | later {fs fs' ready : Files} {e : TransferError}
      (hprepare : prepareFolder dest fs = (.error e, fs')) (hready : Readied dest fs' ready) :
      Readied dest fs ready

section Readied

variable {dest : Path} {fs fs' ready : Files}

/-- However many attempts it takes, all that happens is that folders are made. -/
theorem Readied.furnished (h : Readied dest fs ready) :
    ∃ made, Furnished dest.folder.lineage fs made ready := by
  -- attempt after attempt, the folders of each one added to those of the ones before
  induction h with
  | now hprepare => exact prepareFolder_furnished hprepare
  | later hprepare _ ih =>
    obtain ⟨made, hmade⟩ := prepareFolder_furnished hprepare
    obtain ⟨more, hmore⟩ := ih
    exact ⟨_, hmade.trans hmore⟩

/-- A folder that is ready is there, unless its path has no parts at all. -/
theorem stat_of_prepareFolder (h : prepareFolder dest fs = (.ok (), ready)) :
    dest.folder.parts.isEmpty = true ∨
      ∃ l mode, ready.stat dest.folder = .ok (l, .folder mode) := by
  unfold prepareFolder at h
  dsimp only at h
  split at h
  · rename_i l mode hstat
    split at h
    · cases h
    · cases h
      exact .inr ⟨l, mode, hstat⟩
  · cases h
  -- the folder was missing and has been made, unless there was nothing to make
  · split at h
    · cases hmake : fs.makeFolders dest.folder with
      | mk made fs₁ =>
        rw [hmake] at h
        cases made with
        | error f => cases h
        | ok =>
          cases h
          cases hparts : dest.folder.parts.isEmpty with
          | true => exact .inl rfl
          | false => exact .inr (stat_of_makeLineage hparts hmake)
    · cases h

/-- **A folder that is ready stays as it is**: whatever has been added since, to make it ready once
more changes nothing. -/
theorem Readied.again (h : Readied dest fs ready) (hhere : fs'.here = ready.here)
    (hshown : ready.tree.ShownBy fs'.tree) : (prepareFolder dest fs').2 = fs' := by
  -- only the last attempt counts: its folder is still there, and nothing is made again
  induction h with
  | later _ _ ih => exact ih hhere hshown
  | now hprepare =>
    unfold prepareFolder
    dsimp only
    rcases stat_of_prepareFolder hprepare with hparts | ⟨l, mode, hstat⟩
    · -- there is nothing that could be made
      have hmake : fs'.makeFolders dest.folder = (.ok (), fs') := by
        rw [makeFolders, Path.lineage, List.cons_append, makeLineage, if_pos hparts]
      split
      · split <;> rfl
      · rfl
      · split
        · rw [hmake]
        · rfl
    · obtain ⟨e, he⟩ := stat_mono hshown hhere hstat
      obtain ⟨mode', hmode'⟩ := Tree.shape_eq_folder.mp
        (hshown l .folder (Tree.shape_of_get? (stat_eq_ok hstat).2.2))
      obtain rfl := Option.some.inj ((stat_eq_ok he).2.2.symm.trans hmode')
      rw [he]
      dsimp only
      split <;> rfl

end Readied

/-- If the entry at the destination is a link, it is not on the way to the folder of the
destination, once that folder is ready. -/
def Aside (dest : Path) (fs : Files) : Prop :=
  ∀ ready, Readied dest fs ready → ∀ folder name target, ready.Slot dest folder name →
    fs.tree.get? (folder ++ [name]) = some (.link target) →
    ∀ p k m, Way dest fs.here p → ready.Slot p k m →
      (ready.without (folder ++ [name])).Slot p k m

/-- It is enough that the destination, and the folder in which files are staged for it, are still
reached without the entry at the destination. -/
theorem aside_of_reached {dest : Path} {fs : Files}
    (h : ∀ ready, Readied dest fs ready → ∀ place, ready.slotOf dest .busy = .ok place →
      (ready.without place).slotOf dest .busy = .ok place ∧
        ∃ l left, walk (ready.without place).tree maxLinks
            (Route.ofPath fs.here (Staged.folder dest fs.here)).start
            (Staged.folder dest fs.here).steps = .ok (l, left) ∧
          (ready.without place).tree.shape l = some .folder) : Aside dest fs := by
  intro ready hready folder name target hdest _ p k m hway hslot
  obtain ⟨hagain, l, left, hwalk, hfolder⟩ := h ready hready _ (hdest.slotOf .busy)
  have hhere : ready.here = fs.here := by
    obtain ⟨_, hmade⟩ := hready.furnished
    exact hmade.evolves.here
  have hshown : (ready.without (folder ++ [name])).tree.ShownBy ready.tree := by
    intro m s hs
    by_cases hm : m = folder ++ [name]
    · rw [hm, Tree.shape, without, Tree.get?_remove_self] at hs
      cases hs
    · rwa [Tree.shape, without, Tree.get?_remove_of_ne _ hm] at hs
  cases hway with
  | dest =>
    obtain ⟨folder', name', hslot', -⟩ := slot_of_slotOf hagain
    have hsame : ready.Slot dest folder' name' := hslot'.mono rfl hshown
    obtain ⟨rfl, rfl⟩ := hsame.unique hslot
    exact hslot'
  | staging n =>
    have hbase : (Staged.folder dest fs.here).text ≠ [] :=
      Path.join_text_ne_nil (text_pathOf_ne_nil fs.here)
    have hsteps : (stagingPath dest fs.here n).steps.dropLast =
        (Staged.folder dest fs.here).steps := by
      rw [stagingPath, Path.steps_child hbase (Staged.proper_name dest n), List.dropLast_concat]
    have hstart : (Route.ofPath ready.here (stagingPath dest fs.here n)).start =
        (Route.ofPath fs.here (Staged.folder dest fs.here)).start := by
      simp only [Route.ofPath, stagingPath, hhere,
        Path.isAbsolute_child hbase (Staged.proper_name dest n)]
    -- with and without the entry the walk to the folder is the same
    obtain ⟨left', hwalk'⟩ := hslot.walked
    rw [hstart, hsteps] at hwalk'
    obtain ⟨rfl, -⟩ := Prod.mk.inj (Except.ok.inj ((walk_mono hshown hwalk).symm.trans hwalk'))
    exact ⟨hslot.route, hslot.last, ⟨left, by rw [without, hstart, hsteps]; exact hwalk⟩, hfolder,
      hslot.short⟩

variable {fs : Files} {p : Path} {source target k : Location} {m : Name} {mode serial : Nat}
  {content : Bytes}

/-- The paths lead where they led, when a file has moved to a place that is not on the way. -/
theorem slot_of_moved (hne : target ≠ source)
    (hsource : fs.tree.get? source = some (.file mode serial content))
    (haside : (fs.without target).Slot p k m) :
    (fs.commit (.move source target)).Slot p k m := by
  -- without both of the entries, no more than a file is missing on the way
  have hfile : ∀ s, (fs.without target).tree.shape source = some s → s = .file := by
    intro s hs
    rw [Tree.shape, without, Tree.get?_remove_of_ne _ (Ne.symm hne), hsource] at hs
    exact (Option.some.inj hs).symm
  refine (haside.without_file hfile).mono rfl fun l s hs => ?_
  have hl : l ≠ source := by
    rintro rfl
    rw [Tree.shape, without, Tree.get?_remove_self] at hs
    cases hs
  rw [Tree.shape, without, Tree.get?_remove_of_ne _ hl] at hs
  have hl' : l ≠ target := by
    rintro rfl
    rw [without, Tree.get?_remove_self] at hs
    cases hs
  rw [without, Tree.get?_remove_of_ne _ hl'] at hs
  rw [Tree.shape, commit, Change.get?_apply_of_notMem _ (by simp [Change.touched, hl, hl'])]
  exact hs

end Transfer

/-- A folder `d` and a link `l` to it: the path `l/../l` leads along the link to the link itself. -/
def shortcutFiles : Files where
  tree := ⟨[([], .folder 0o755), ([bytes "d"], .folder 0o755), ([bytes "l"], .link (.of "d"))]⟩
  here := []

/-- `shortcutFiles` is a well-formed tree. -/
theorem shortcutFiles_wellFormed : shortcutFiles.tree.WellFormed :=
  .of_entries (by decide) (by decide)

end Courier
