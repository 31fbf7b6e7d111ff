import Courier.Proofs.Lookup

/-!
# What file operations do to the tree

Every operation on files leads from one state to another by a list of changes, the latest in
front. Here each operation that a transfer uses is described once: which changes it makes, at
which slot, and what it has found out when it makes them. An operation that fails makes none,
but for a write that is cut short.

Main results:

* `Files.Evolves` — one state of the files comes from another one by some changes.
* `Files.makeFolder_cases`, `Files.createUnique_cases`, `Files.append_cases`,
  `Files.Evolves.sync`, `Files.rename_cases`, `Files.remove_of_slot` — the operations, one by one.
-/

namespace Courier

namespace Files

/-- The changes `cs`, the latest in front, led from `fs` to `fs'`. -/
structure Evolves (fs : Files) (cs : List Change) (fs' : Files) : Prop where
  tree : fs'.tree = fs.tree.after cs
  changes : fs'.changes = cs ++ fs.changes
  here : fs'.here = fs.here

namespace Evolves

/-- Nothing has changed where nothing is done. -/
theorem refl (fs : Files) : fs.Evolves [] fs :=
  ⟨rfl, rfl, rfl⟩

/-- Drawing a number changes nothing. -/
theorem draw (fs : Files) (n : Nat) : fs.Evolves [] { fs with drawn := n } :=
  ⟨rfl, rfl, rfl⟩

/-- One change leads to the tree that it makes. -/
theorem commit (fs : Files) (c : Change) : fs.Evolves [c] (fs.commit c) :=
  ⟨rfl, rfl, rfl⟩

/-- Changes one after the other are listed in front of one another. -/
theorem trans {fs fs' fs'' : Files} {cs ds : List Change} (h : fs.Evolves cs fs')
    (h' : fs'.Evolves ds fs'') : fs.Evolves (ds ++ cs) fs'' where
  tree := by rw [h'.tree, h.tree, Tree.after_append]
  changes := by rw [h'.changes, h.changes, List.append_assoc]
  here := h'.here.trans h.here

end Evolves

variable {fs fs' : Files} {p : Path}

/-! ## Making folders and files -/

/-- A folder is made in its slot, where nothing was, or the files are as they were. -/
theorem makeFolder_cases {r : Except Fault Unit} (h : fs.makeFolder p = (r, fs')) :
    (∃ folder name, r = .ok () ∧ fs.Slot p folder name ∧
      fs.tree.get? (folder ++ [name]) = none ∧
      fs' = fs.commit (.create (folder ++ [name]) (.folder 0o755))) ∨
    ∃ f, r = .error f ∧ fs' = fs := by
  unfold makeFolder at h
  cases hslot : fs.slotOf p .alreadyThere with
  | error f =>
    rw [hslot] at h
    cases h
    exact .inr ⟨f, rfl, rfl⟩
  | ok l =>
    obtain ⟨folder, name, hs, rfl⟩ := slot_of_slotOf hslot
    rw [hslot] at h
    dsimp only at h
    -- something is there already, or the folder is made
    split at h
    · cases h
      exact .inr ⟨_, rfl, rfl⟩
    · rename_i hnone
      cases h
      exact .inl ⟨folder, name, rfl, hs, by simpa using hnone, rfl⟩

/-- What making a new file has done. -/
structure Created (fs : Files) (p : Path) (mode : Nat) (h : FileHandle) (fs' : Files) : Prop where
  slot : ∃ folder name, fs.Slot p folder name ∧ h.location = folder ++ [name]
  fresh : fs.tree.get? h.location = none
  evolves : fs.Evolves [.create h.location (.file mode h.serial [])] fs'

/-- So it is for a new file. -/
theorem createNew_cases {mode : Nat} {r : Except Fault FileHandle}
    (h : fs.createNew p mode = (r, fs')) :
    (∃ handle, r = .ok handle ∧ fs.Created p mode handle fs') ∨ ∃ f, r = .error f ∧ fs' = fs := by
  unfold createNew at h
  cases hslot : fs.slotOf p .alreadyThere with
  | error f =>
    rw [hslot] at h
    cases h
    exact .inr ⟨f, rfl, rfl⟩
  | ok l =>
    obtain ⟨folder, name, hs, rfl⟩ := slot_of_slotOf hslot
    rw [hslot] at h
    dsimp only at h
    -- the name is taken, or it is free
    split at h
    · cases h
      exact .inr ⟨_, rfl, rfl⟩
    · rename_i hnone
      cases h
      have hfresh : fs.tree.get? (folder ++ [name]) = none := by simpa using hnone
      exact .inl ⟨_, rfl, ⟨folder, name, hs, rfl⟩, hfresh, rfl, rfl, rfl⟩

/-- Another draw changes neither what is found nor what can be made. -/
theorem Created.of_draw {n mode : Nat} {handle : FileHandle}
    (h : ({ fs with drawn := n } : Files).Created p mode handle fs') :
    fs.Created p mode handle fs' where
  slot := by
    obtain ⟨folder, name, hs, hl⟩ := h.slot
    exact ⟨folder, name, hs.mono rfl (Tree.ShownBy.refl _), hl⟩
  fresh := h.fresh
  evolves := (Evolves.draw fs n).trans h.evolves

/-- **A file with a drawn name** is made at one of the names that were tried, or nothing is made.
-/
theorem createUnique_cases {folder : Path} {lead tail : Bytes} {mode tries : Nat}
    {r : Except (Fault × Path) (Path × FileHandle)}
    (h : createUnique folder lead tail mode tries fs = (r, fs')) :
    (∃ n handle, r = .ok (folder.child (lead ++ randomName n ++ tail), handle) ∧
      fs.Created (folder.child (lead ++ randomName n ++ tail)) mode handle fs') ∨
    ∃ e, r = .error e ∧ fs.Evolves [] fs' := by
  -- each try starts from the files with one draw more
  induction tries generalizing fs with
  | zero =>
    cases h
    exact .inr ⟨_, rfl, .refl _⟩
  | succ tries ih =>
    rw [createUnique] at h
    cases hnew : fs.createNew (folder.child (lead ++ randomName fs.drawn ++ tail)) mode with
    | mk found fs₁ =>
      rcases createNew_cases hnew with ⟨handle, rfl, hcreated⟩ | ⟨f, rfl, rfl⟩
      · rw [hnew] at h
        cases h
        exact .inl ⟨fs.drawn, handle, rfl, hcreated⟩
      · rw [hnew] at h
        dsimp only at h
        split at h
        · -- the name was taken, and another one is drawn
          rcases ih h with ⟨n, handle, hr, hcreated⟩ | ⟨e, hr, hevolves⟩
          · exact .inl ⟨n, handle, hr, hcreated.of_draw⟩
          · exact .inr ⟨e, hr, (Evolves.draw _ _).trans hevolves⟩
        · cases h
          exact .inr ⟨_, rfl, .refl _⟩

/-! ## Writing to a file -/

/-- A file with this content is at the place that a handle was opened at. -/
def Holds (fs : Files) (h : FileHandle) (mode : Nat) (content : Bytes) : Prop :=
  fs.tree.get? h.location = some (.file mode h.serial content)

/-- A new file is empty. -/
theorem Created.holds {mode : Nat} {handle : FileHandle} (h : fs.Created p mode handle fs') :
    fs'.Holds handle mode [] := by
  rw [Holds, h.evolves.tree]
  exact Tree.get?_put_self ..

/-- What is added comes behind what a file holds. -/
theorem Holds.append {handle : FileHandle} {mode : Nat} {content : Bytes}
    (h : fs.Holds handle mode content) (octets : Bytes) :
    (fs.commit (.append handle.location octets)).Holds handle mode (content ++ octets) := by
  unfold Holds at h ⊢
  rw [commit, Change.apply, Change.get?_update_self, h]
  rfl

/-- Writing adds to the file, or does nothing. -/
theorem append_eq (fs : Files) (handle : FileHandle) (octets : Bytes) :
    (fs.append handle octets).2 = fs ∨
      ∃ written, (fs.append handle octets).2 = fs.commit (.append handle.location written) := by
  unfold Files.append
  -- the handle has no file any more, there is no limit, or a limit that may cut the octets
  split
  · exact .inl rfl
  · split
    · exact .inr ⟨octets, rfl⟩
    · split
      · exact .inr ⟨octets, rfl⟩
      · exact .inr ⟨_, rfl⟩

/-- What goes to a file that has its place is added to it from the front, all of it if writing
succeeds. -/
theorem append_cases {handle : FileHandle} {mode : Nat} {content octets : Bytes}
    {r : Except Fault Unit} (hholds : fs.Holds handle mode content)
    (h : fs.append handle octets = (r, fs')) :
    ∃ written, fs' = fs.commit (.append handle.location written) ∧
      fs'.Holds handle mode (content ++ written) ∧ written <+: octets ∧
      (r = .ok () → written = octets) := by
  -- the handle still has its file, so writing is not refused
  have hsize : fs.sizeOf? handle = some content.length := by
    unfold sizeOf?
    rw [hholds]
    simp
  unfold Files.append at h
  rw [hsize] at h
  dsimp only at h
  split at h
  · cases h
    exact ⟨octets, rfl, hholds.append octets, List.prefix_rfl, fun _ => rfl⟩
  · split at h
    · cases h
      exact ⟨octets, rfl, hholds.append octets, List.prefix_rfl, fun _ => rfl⟩
    · cases h
      exact ⟨_, rfl, hholds.append _, List.take_prefix .., nofun⟩

/-! ## Waiting for the disk -/

/-- Waiting for the disk changes no tree. -/
@[simp] theorem tree_sync (fs : Files) : fs.sync.2.tree = fs.tree := by
  unfold sync
  split <;> rfl

/-- It adds no change to those that were made. -/
@[simp] theorem changes_sync (fs : Files) : fs.sync.2.changes = fs.changes := by
  unfold sync
  split <;> rfl

/-- It leaves the working folder where it is. -/
@[simp] theorem here_sync (fs : Files) : fs.sync.2.here = fs.here := by
  unfold sync
  split <;> rfl

/-- It draws no number. -/
@[simp] theorem drawn_sync (fs : Files) : fs.sync.2.drawn = fs.drawn := by
  unfold sync
  split <;> rfl

/-- And it leaves the limit alone. -/
@[simp] theorem sizeLimit_sync (fs : Files) : fs.sync.2.sizeLimit = fs.sizeLimit := by
  unfold sync
  split <;> rfl

/-- So every path leads to where it did. -/
theorem slotOf_sync (fs : Files) (p : Path) (f : Fault) :
    fs.sync.2.slotOf p f = fs.slotOf p f := by
  unfold sync
  split <;> rfl

/-- Whatever comes of waiting for the disk, nothing is done to the tree. -/
theorem Evolves.sync (fs : Files) : fs.Evolves [] fs.sync.2 :=
  ⟨tree_sync fs, changes_sync fs, here_sync fs⟩

/-! ## Renaming and removing -/

/-- **A rename** has found both slots and no folder in the way when it moves anything. -/
theorem rename_cases {source target : Path} {r : Except Fault Unit}
    (h : fs.rename source target = (r, fs')) :
    (∃ old new, r = .ok () ∧ fs.slotOf source .busy = .ok old ∧ fs.slotOf target .busy = .ok new ∧
      (∀ mode, fs.tree.get? new ≠ some (.folder mode)) ∧ fs' = fs.commit (.move old new)) ∨
    ∃ f, r = .error f ∧ fs' = fs := by
  unfold rename at h
  dsimp only [bind, Except.bind] at h
  -- the checks of a rename come one after the other, and each may end it
  cases hold : fs.slotOf source .busy with
  | error f =>
    simp only [hold] at h
    cases h
    exact .inr ⟨f, rfl, rfl⟩
  | ok old =>
    simp only [hold] at h
    cases hroute : fs.route? target with
    | error f =>
      simp only [hroute] at h
      cases h
      exact .inr ⟨f, rfl, rfl⟩
    | ok route =>
      simp only [hroute] at h
      cases hnew : fs.slotOf target .busy with
      | error f =>
        simp only [hnew] at h
        cases h
        exact .inr ⟨f, rfl, rfl⟩
      | ok new =>
        simp only [hnew] at h
        cases hentry : fs.entryAt old with
        | error f =>
          simp only [hentry] at h
          cases h
          exact .inr ⟨f, rfl, rfl⟩
        | ok found =>
          simp only [hentry] at h
          by_cases hslash : route.slashAtEnd = true
          · simp only [hslash, if_true] at h
            cases h
            exact .inr ⟨_, rfl, rfl⟩
          · simp only [hslash] at h
            by_cases hfolder : ((fs.tree.get? new).map Entry.isFolder).getD false = true
            · simp only [hfolder, if_true] at h
              cases h
              exact .inr ⟨_, rfl, rfl⟩
            · simp only [hfolder] at h
              cases h
              -- all of them passed: nothing but a folder at the new place stands in the way
              refine .inl ⟨old, new, rfl, rfl, rfl, ?_, rfl⟩
              intro mode hmode
              rw [hmode] at hfolder
              exact hfolder rfl

/-- A file whose slot is found is removed. -/
theorem remove_of_slot {folder : Location} {name : Name} {mode serial : Nat} {content : Bytes}
    (hslot : fs.Slot p folder name)
    (hfile : fs.tree.get? (folder ++ [name]) = some (.file mode serial content)) :
    fs.remove p = (.ok (), fs.commit (.remove (folder ++ [name]))) := by
  simp [remove, hslot.slotOf, entryAt, hfile, bind, Except.bind]

end Files

end Courier
