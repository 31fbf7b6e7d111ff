import Courier.Proofs.History
import Courier.Transfer.Receive

/-!
# Folders made on the way

Before anything is staged, the missing folders above the destination are made, from the top
downwards. Nothing else happens to the tree, and each new folder is one that a path above the
destination names. As long as the destination is written without `..` it is none of them.

Main results:

* `Files.Furnished` — what making folders has done, and to which paths they belong.
* `Transfer.prepareFolder_furnished` — the folder of a destination is made ready in this way.
* `Transfer.slot_notMem_made` — the destination itself is not made, unless it is written with `..`.
-/

namespace Courier

/-- A folder is made at a location. -/
def Change.folderAt (l : Location) : Change :=
  .create l (.folder 0o755)

/-- Making folders touches only the places where they are made. -/
theorem Change.mem_of_touched_folders {made : List Location} {c : Change} {l : Location}
    (hc : c ∈ made.map folderAt) (hl : l ∈ c.touched) : l ∈ made := by
  obtain ⟨m, hm, rfl⟩ := List.mem_map.mp hc
  exact List.mem_singleton.mp hl ▸ hm

/-- After that there are folders in those places, and all else is as it was. -/
theorem Tree.get?_after_folders (t : Tree) (made : List Location) (l : Location) :
    (t.after (made.map Change.folderAt)).get? l =
      if l ∈ made then some (.folder 0o755) else t.get? l := by
  -- by induction on the folders, the latest first
  induction made with
  | nil => rfl
  | cons m made ih =>
    rw [List.map_cons, after, Change.folderAt, Change.apply]
    by_cases hl : l = m
    · subst hl
      rw [get?_put_self, if_pos (List.mem_cons_self ..)]
    · rw [get?_put_of_ne _ _ hl, ih]
      simp [hl]

namespace Files

/-- Folders were made at the locations `made`, where nothing was before. Each is the place of
one of the paths `ps`. -/
structure Furnished (ps : List Path) (fs : Files) (made : List Location) (fs' : Files) : Prop where
  evolves : fs.Evolves (made.map Change.folderAt) fs'
  fresh : ∀ l ∈ made, fs.tree.get? l = none
  named : ∀ l ∈ made, ∃ p ∈ ps, ∃ folder name, fs'.Slot p folder name ∧ l = folder ++ [name]

variable {fs fs' fs'' : Files} {p : Path} {ps : List Path} {made : List Location}

namespace Furnished

/-- Nothing is made where nothing is to be done. -/
theorem refl (ps : List Path) (fs : Files) : Furnished ps fs [] fs :=
  ⟨.refl fs, nofun, nofun⟩

/-- What there is when some folders have been made. -/
theorem get? (h : Furnished ps fs made fs') (l : Location) :
    fs'.tree.get? l = if l ∈ made then some (.folder 0o755) else fs.tree.get? l := by
  rw [h.evolves.tree, Tree.get?_after_folders]

/-- Nothing that showed is hidden by that. -/
theorem shown (h : Furnished ps fs made fs') : fs.tree.ShownBy fs'.tree := by
  intro l s hs
  -- what was shown before is not missing, so it was not made
  have hl : l ∉ made := fun hl => by
    rw [Tree.shape_eq_none.mpr (h.fresh l hl)] at hs
    cases hs
  rw [Tree.shape, h.get? l, if_neg hl]
  exact hs

/-- They are among more paths if they are among these. -/
theorem mono {qs : List Path} (h : Furnished ps fs made fs') (hqs : ∀ p ∈ ps, p ∈ qs) :
    Furnished qs fs made fs' where
  evolves := h.evolves
  fresh := h.fresh
  named := fun l hl =>
    let ⟨p, hp, hslot⟩ := h.named l hl
    ⟨p, hqs p hp, hslot⟩

/-- Folders that are made one after the other. -/
theorem trans {more : List Location} (h : Furnished ps fs made fs')
    (h' : Furnished ps fs' more fs'') : Furnished ps fs (more ++ made) fs'' where
  evolves := by
    rw [List.map_append]
    exact h.evolves.trans h'.evolves
  fresh := by
    intro l hl
    rcases List.mem_append.mp hl with hl | hl
    · -- what is missing after the first folders was missing before them
      have hnone := h'.fresh l hl
      rw [h.get? l] at hnone
      split at hnone
      · cases hnone
      · exact hnone
    · exact h.fresh l hl
  named := by
    intro l hl
    rcases List.mem_append.mp hl with hl | hl
    · exact h'.named l hl
    · obtain ⟨p, hp, folder, name, hslot, rfl⟩ := h.named l hl
      exact ⟨p, hp, folder, name, hslot.mono h'.evolves.here h'.shown, rfl⟩

/-- Below a new folder there are only new folders. -/
theorem not_link_below (ht : fs.tree.WellFormed) (h : Furnished ps fs made fs') {l : Location}
    (hl : l ∈ made) (k : Location) (target : Path) :
    fs'.tree.get? (l ++ k) ≠ some (.link target) := by
  intro hlink
  rw [h.get?] at hlink
  split at hlink
  · cases hlink
  · -- what lies below a new folder was missing with it
    have hnone := ht.shape_append_eq_none (k := k) (Tree.shape_eq_none.mpr (h.fresh l hl))
    rw [Tree.shape_eq_none.mp hnone] at hlink
    cases hlink

end Furnished

/-- A folder is made for its path, or none is. -/
theorem makeFolder_furnished {r : Except Fault Unit} (h : fs.makeFolder p = (r, fs')) :
    ∃ made, Furnished [p] fs made fs' := by
  rcases makeFolder_cases h with ⟨folder, name, -, hslot, hnone, rfl⟩ | ⟨f, -, rfl⟩
  · refine ⟨[folder ++ [name]], .commit fs _, ?_, ?_⟩
    · simpa using hnone
    · intro l hl
      obtain rfl := List.mem_singleton.mp hl
      have hshown := Change.shownBy_create hnone (.folder 0o755)
      exact ⟨p, List.mem_singleton_self p, folder, name, hslot.mono rfl hshown, rfl⟩
  · exact ⟨[], .refl _ _⟩

/-- **Making all folders of a line** makes folders for some of its paths, and does nothing else.
-/
theorem makeLineage_furnished {r : Except Fault Unit} (h : makeLineage ps fs = (r, fs')) :
    ∃ made, Furnished ps fs made fs' := by
  -- a folder belongs to the first path or to one above it
  have head {p : Path} {above : List Path} {made : List Location} {fs fs' : Files}
      (h : Furnished [p] fs made fs') : Furnished (p :: above) fs made fs' :=
    h.mono fun q hq => List.mem_singleton.mp hq ▸ List.mem_cons_self ..
  have tail {p : Path} {above : List Path} {made : List Location} {fs fs' : Files}
      (h : Furnished above fs made fs') : Furnished (p :: above) fs made fs' :=
    h.mono fun q hq => List.mem_cons_of_mem _ hq
  -- by the recursion over the line, with what each part of it makes
  fun_induction makeLineage ps fs generalizing r fs' with
  | case1 =>
    cases h
    exact ⟨[], .refl _ _⟩
  | case2 =>
    cases h
    exact ⟨[], .refl _ _⟩
  | case3 p above fs _ fs₁ hmake =>
    cases h
    obtain ⟨made, hmade⟩ := makeFolder_furnished hmake
    exact ⟨made, head hmade⟩
  -- something is missing above, and cannot be made
  | case4 p above fs _ f fs₁ hmake hf f' fs₂ habove ih =>
    cases h
    obtain ⟨made, hmade⟩ := makeFolder_furnished hmake
    obtain ⟨more, hmore⟩ := ih habove
    exact ⟨_, (head hmade).trans (tail hmore)⟩
  -- what is missing above is made, and the folder is tried again
  | case5 p above fs _ f fs₁ hmake hf fs₂ habove fs₃ hagain ih
  | case6 p above fs _ f fs₁ hmake hf fs₂ habove f' fs₃ hagain _ ih
  | case7 p above fs _ f fs₁ hmake hf fs₂ habove f' fs₃ hagain _ ih =>
    cases h
    obtain ⟨made, hmade⟩ := makeFolder_furnished hmake
    obtain ⟨more, hmore⟩ := ih habove
    obtain ⟨last, hlast⟩ := makeFolder_furnished hagain
    exact ⟨_, ((head hmade).trans (tail hmore)).trans (head hlast)⟩
  | case8 p above fs _ f fs₁ hmake =>
    cases h
    obtain ⟨made, hmade⟩ := makeFolder_furnished hmake
    exact ⟨made, head hmade⟩
  | case9 p above fs _ f fs₁ hmake =>
    cases h
    obtain ⟨made, hmade⟩ := makeFolder_furnished hmake
    exact ⟨made, head hmade⟩

/-- Where there is a folder at the slot of a path, that is where the path leads. -/
theorem Slot.leads {folder : Location} {name : Name} (h : fs.Slot p folder name)
    (hfolder : fs.tree.shape (folder ++ [name]) = some .folder) :
    Leads fs.tree (Route.ofPath fs.here p).start p.steps (folder ++ [name]) := by
  obtain ⟨left, hwalk⟩ := h.walked
  obtain ⟨hlast, hproper⟩ := Path.proper_of_lastName? h.last
  obtain ⟨s, hs, hnot⟩ := Tree.firm_of_folder hfolder
  obtain ⟨front, hfront⟩ := List.getLast?_eq_some_iff.mp hlast
  rw [hfront, List.dropLast_concat] at hwalk
  rw [hfront]
  exact leads_append.mpr ⟨folder, leads_of_walk hwalk,
    .enter h.isFolder hproper.notStay hproper.notUp hs hnot (.done _)⟩

/-- A folder that is made is there. -/
theorem stat_of_makeFolder (h : fs.makeFolder p = (.ok (), fs')) :
    ∃ l mode, fs'.stat p = .ok (l, .folder mode) := by
  rcases makeFolder_cases h with ⟨folder, name, -, hslot, hnone, rfl⟩ | ⟨_, hr, -⟩
  · have hslot' : (fs.commit (.create (folder ++ [name]) (.folder 0o755))).Slot p folder name :=
      hslot.mono rfl (Change.shownBy_create hnone _)
    exact ⟨folder ++ [name], 0o755, hslot'.stat_folder (Tree.get?_put_self ..)⟩
  · cases hr

/-- Once the folders of a lineage are made, the first of them is there. -/
theorem stat_of_makeLineage {above : List Path} (hparts : p.parts.isEmpty = false)
    (h : makeLineage (p :: above) fs = (.ok (), fs')) :
    ∃ l mode, fs'.stat p = .ok (l, .folder mode) := by
  -- an attempt that fails is passed over where the folder is there already
  have hthere {fs : Files} (hfolder : fs.isFolder p = true) :
      ∃ l mode, fs.stat p = .ok (l, .folder mode) := by
    unfold isFolder at hfolder
    split at hfolder
    · rename_i l e hstat
      cases e with
      | folder mode => exact ⟨l, mode, hstat⟩
      | file | link => cases hfolder
    · cases hfolder
  have hnew {fs fs' : Files} (hmake : fs.makeFolder p = (.ok (), fs')) := stat_of_makeFolder hmake
  have hleft {fs fs' : Files} {f : Fault} (hmake : fs.makeFolder p = (.error f, fs')) :
      fs' = fs := by
    rcases makeFolder_cases hmake with ⟨_, _, hr, -⟩ | ⟨_, -, hfs⟩
    · cases hr
    · exact hfs
  rw [makeLineage, hparts] at h
  simp only [Bool.false_eq_true, if_false] at h
  cases hmake : fs.makeFolder p with
  | mk made fs₁ =>
    rw [hmake] at h
    cases made with
    | ok =>
      cases h
      exact hnew hmake
    | error f =>
      obtain rfl := hleft hmake
      dsimp only at h
      split at h
      · -- the folders above are made first, and then this one is tried again
        cases habove : makeLineage above fs₁ with
        | mk made fs₂ =>
          rw [habove] at h
          cases made with
          | error f => cases h
          | ok =>
            dsimp only at h
            cases hagain : fs₂.makeFolder p with
            | mk made fs₃ =>
              rw [hagain] at h
              cases made with
              | ok =>
                cases h
                exact hnew hagain
              | error f =>
                obtain rfl := hleft hagain
                dsimp only at h
                split at h
                · rename_i hfolder
                  cases h
                  exact hthere hfolder
                · cases h
      · split at h
        · rename_i hfolder
          cases h
          exact hthere hfolder
        · cases h

end Files

namespace Transfer

variable {fs fs' : Files} {dest : Path} {made : List Location}

/-- So does preparing the folder of a destination. -/
theorem prepareFolder_furnished {r : Except TransferError Unit}
    (h : prepareFolder dest fs = (r, fs')) :
    ∃ made, Files.Furnished dest.folder.lineage fs made fs' := by
  unfold prepareFolder at h
  dsimp only at h
  split at h
  · split at h <;> (cases h; exact ⟨[], .refl _ _⟩)
  · cases h
    exact ⟨[], .refl _ _⟩
  · split at h
    · cases hmake : fs.makeFolders dest.folder with
      | mk found fs₁ =>
        rw [hmake] at h
        have hfs : fs' = fs₁ := by cases found <;> (cases h; rfl)
        exact hfs ▸ Files.makeLineage_furnished hmake
    · cases h
      exact ⟨[], .refl _ _⟩

/-! ## The destination is not made -/

/-- A destination that is also the place of a path above it is written with `..`, if there is a
folder at that place and no link below it. -/
theorem up_of_slot_above {p : Path} {folder : Location} {name : Name}
    (hp : p ∈ dest.folder.lineage) (habove : fs.Slot p folder name)
    (hslot : fs.Slot dest folder name) (hfolder : fs.tree.shape (folder ++ [name]) = some .folder)
    (hlink : ∀ k target, fs.tree.get? (folder ++ [name] ++ k) ≠ some (.link target)) :
    .up ∈ dest.parts := by
  refine Classical.byContradiction fun hup => ?_
  obtain ⟨hlast, hproper⟩ := Path.proper_of_lastName? habove.last
  obtain ⟨habs, more, hmore, hsteps⟩ :=
    Path.steps_of_mem_folder_lineage hp hlast hproper.notStay
  have hstart : (Route.ofPath fs.here p).start = (Route.ofPath fs.here dest).start := by
    simp [Route.ofPath, habs]
  -- the steps of `p` lead to the folder, and those of `dest` go on from there
  have hthere := habove.leads hfolder
  -- so the walk to `dest` goes on below the folder, and does not come back to where it is
  obtain ⟨left, hwalk⟩ := hslot.walked
  have hon := leads_of_walk hwalk
  rw [hsteps, List.dropLast_append_of_ne_nil hmore, ← hstart] at hon
  obtain ⟨m, hm, hrest⟩ := leads_append.mp hon
  obtain rfl := hm.unique hthere
  have hbelow : folder ++ [name] <+: folder := by
    refine hrest.stays_below (fun step hstep => ?_) hlink
    have hmem : step ∈ dest.steps := by
      rw [hsteps]
      exact List.mem_append_right _ ((List.dropLast_subset _) hstep)
    cases hstep' : isUp step with
    | false => rfl
    | true => exact absurd (Path.up_mem_parts hmem hstep') hup
  -- a location is not below one of its own names
  have hlength := hbelow.length_le
  rw [List.length_append, List.length_singleton] at hlength
  omega

/-- **The destination is not made.** A destination that is written without `..` is none of the
folders made above it. -/
theorem slot_notMem_made {folder : Location} {name : Name} (ht : fs.tree.WellFormed)
    (h : Files.Furnished dest.folder.lineage fs made fs') (hup : .up ∉ dest.parts)
    (hslot : fs'.Slot dest folder name) : folder ++ [name] ∉ made := by
  intro hl
  obtain ⟨p, hp, folder', name', habove, heq⟩ := h.named _ hl
  obtain ⟨rfl, hname⟩ := List.append_inj' heq rfl
  obtain rfl : name = name' := by simpa using hname
  refine hup (up_of_slot_above hp habove hslot ?_ fun k target => h.not_link_below ht hl k target)
  rw [Tree.shape, h.get?, if_pos hl]
  rfl

end Transfer

end Courier
