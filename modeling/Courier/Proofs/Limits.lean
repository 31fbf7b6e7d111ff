import Courier.Proofs.Receive

/-!
# Limits and numbers

Operations change the tree, draw numbers, and leave the disk alone: the limit on sizes, and what it
comes to when a program waits for it. Only new files draw numbers, so a file that is made later has
a higher one.

Main results:

* `Transfer.sizeLimit_receiveFile` — a receive leaves the limit alone.
* `Transfer.drawn_le_serial` — a staged file has a number that was not drawn before.
-/

namespace Courier

open Files

namespace Files

variable {fs fs' : Files}

/-! ## One operation -/

/-- What the disk has to say: the limit on sizes, and what the next waits for it come to. -/
def disk (fs : Files) : Option Nat × List (Except Fault Unit) :=
  (fs.sizeLimit, fs.syncs)

/-- The limit is part of what the disk has to say. -/
theorem sizeLimit_of_disk (h : fs'.disk = fs.disk) : fs'.sizeLimit = fs.sizeLimit :=
  congrArg Prod.fst h

/-- And so is what waits for it come to. -/
theorem syncs_of_disk (h : fs'.disk = fs.disk) : fs'.syncs = fs.syncs :=
  congrArg Prod.snd h

/-- Two states of the files that hear the same of the disk wait for it alike. -/
theorem sync_of_disk (h : fs'.disk = fs.disk) :
    fs'.sync.1 = fs.sync.1 ∧ fs'.sync.2.disk = fs.sync.2.disk := by
  obtain ⟨hlimit, hsyncs⟩ := Prod.mk.inj h
  unfold sync disk
  rw [hsyncs]
  split <;> simp [hlimit, hsyncs]

/-- What making folders leaves alone: the count of numbers drawn, and the disk. -/
def numbers (fs : Files) : Nat × Option Nat × List (Except Fault Unit) :=
  (fs.drawn, fs.disk)

/-- Making a folder draws no number and does not wait for the disk. -/
theorem numbers_makeFolder (fs : Files) (p : Path) :
    (fs.makeFolder p).2.numbers = fs.numbers := by
  rcases makeFolder_cases (Prod.eta (fs.makeFolder p)).symm with ⟨_, _, _, _, _, h⟩ | ⟨_, _, h⟩
  · rw [h]
    rfl
  · rw [h]

/-- Neither does making all folders of a line. -/
theorem numbers_makeLineage (ps : List Path) (fs : Files) :
    (makeLineage ps fs).2.numbers = fs.numbers := by
  -- by the recursion over the line: a folder is made, or the ones above it first and then the
  -- folder again
  fun_induction makeLineage ps fs with
  | case1 => rfl
  | case2 => rfl
  | case3 p above fs _ fs₁ hmake
  | case8 p above fs _ f fs₁ hmake
  | case9 p above fs _ f fs₁ hmake =>
    have h := numbers_makeFolder fs p
    rwa [hmake] at h
  | case4 p above fs _ f fs₁ hmake _ f' fs₂ habove ih =>
    have h := numbers_makeFolder fs p
    rw [hmake] at h
    rw [habove] at ih
    exact ih.trans h
  | case5 p above fs _ f fs₁ hmake _ fs₂ habove fs₃ hagain ih
  | case6 p above fs _ f fs₁ hmake _ fs₂ habove f' fs₃ hagain _ ih
  | case7 p above fs _ f fs₁ hmake _ fs₂ habove f' fs₃ hagain _ ih =>
    have h := numbers_makeFolder fs p
    have h' := numbers_makeFolder fs₂ p
    rw [hmake] at h
    rw [hagain] at h'
    rw [habove] at ih
    exact h'.trans (ih.trans h)

/-- A new file gets the number that is next. -/
theorem createNew_eq {p : Path} {mode : Nat} {r : Except Fault FileHandle}
    (h : fs.createNew p mode = (r, fs')) :
    fs'.disk = fs.disk ∧ ∀ handle, r = .ok handle → handle.serial = fs.drawn := by
  unfold createNew at h
  split at h
  · cases h
    exact ⟨rfl, nofun⟩
  · split at h
    · cases h
      exact ⟨rfl, nofun⟩
    · cases h
      refine ⟨rfl, fun handle hr => ?_⟩
      cases hr
      rfl

/-- A unique file has a number that was not drawn before. -/
theorem createUnique_eq {folder : Path} {lead tail : Bytes} {mode tries : Nat}
    {r : Except (Fault × Path) (Path × FileHandle)}
    (h : createUnique folder lead tail mode tries fs = (r, fs')) :
    fs'.disk = fs.disk ∧
      ∀ path handle, r = .ok (path, handle) → fs.drawn ≤ handle.serial := by
  -- by induction on the names that are left to be tried
  induction tries generalizing fs with
  | zero =>
    cases h
    refine ⟨rfl, fun path handle hr => ?_⟩
    cases hr
  | succ tries ih =>
    rw [createUnique] at h
    cases hnew : fs.createNew (folder.child (lead ++ randomName fs.drawn ++ tail)) mode with
    | mk found fs₁ =>
      obtain ⟨hlimit, hserial⟩ := createNew_eq hnew
      rw [hnew] at h
      cases found with
      | ok handle =>
        cases h
        refine ⟨hlimit, fun path handle' hr => ?_⟩
        cases hr
        exact Nat.le_of_eq (hserial _ rfl).symm
      | error f =>
        -- the next try starts with one more number drawn
        obtain rfl : fs₁ = fs := by
          rcases createNew_cases hnew with ⟨_, hr, -⟩ | ⟨_, -, h⟩
          · cases hr
          · exact h
        dsimp only at h
        split at h
        · obtain ⟨hlimit, hserial⟩ := ih h
          exact ⟨hlimit, fun path handle hr => Nat.le_of_succ_le (hserial path handle hr)⟩
        · cases h
          refine ⟨rfl, fun path handle hr => ?_⟩
          cases hr

/-- A write does not change what the disk has to say. -/
theorem disk_append (fs : Files) (handle : FileHandle) (octets : Bytes) :
    (fs.append handle octets).2.disk = fs.disk := by
  rcases append_eq fs handle octets with h | ⟨written, h⟩
  · rw [h]
  · rw [h]
    rfl

/-- What fits into a file is written to it whole. -/
theorem append_of_fits {fs : Files} {handle : FileHandle} {mode : Nat} {content : Bytes}
    (octets : Bytes) (hholds : fs.Holds handle mode content)
    (hfits : ∀ limit, fs.sizeLimit = some limit → content.length + octets.length ≤ limit) :
    fs.append handle octets = (.ok (), fs.commit (.append handle.location octets)) := by
  have hsize : fs.sizeOf? handle = some content.length := by
    unfold sizeOf?
    rw [hholds]
    simp
  unfold Files.append
  rw [hsize]
  dsimp only
  -- there is no limit, or it is not reached
  cases hlimit : fs.sizeLimit with
  | none => rfl
  | some limit =>
    have hle := hfits limit hlimit
    exact if_pos (by omega)

/-- No limit cuts a file of this size. -/
def Room (fs : Files) (size : Nat) : Prop :=
  ∀ limit, fs.sizeLimit = some limit → size ≤ limit

/-- Where there is room there is room for less. -/
theorem Room.mono {size size' : Nat} (h : fs.Room size') (hlimit : fs'.sizeLimit = fs.sizeLimit)
    (hle : size ≤ size') : fs'.Room size :=
  fun limit hl => Nat.le_trans hle (h limit (hlimit.symm.trans hl))

/-- Where there is room, all octets are added. -/
theorem append_of_room {handle : FileHandle} {mode : Nat} {content : Bytes} (octets : Bytes)
    (hholds : fs.Holds handle mode content) (hroom : fs.Room (content ++ octets).length) :
    (fs.append handle octets).2.Holds handle mode (content ++ octets) := by
  rw [append_of_fits octets hholds fun limit hl => by
    rw [← List.length_append]
    exact hroom limit hl]
  exact hholds.append octets

/-- Nor does opening a file. -/
theorem disk_openToAppend (fs : Files) (p : Path) :
    (fs.openToAppend p).2.disk = fs.disk := by
  unfold openToAppend
  split <;> rfl

/-- Nor a rename. -/
theorem disk_rename (fs : Files) (source target : Path) :
    (fs.rename source target).2.disk = fs.disk := by
  rcases rename_cases (Prod.eta (fs.rename source target)).symm with
    ⟨_, _, _, _, _, _, h⟩ | ⟨_, _, h⟩
  · rw [h]
    rfl
  · rw [h]

/-- Nor a removal. -/
theorem disk_remove (fs : Files) (p : Path) : (fs.remove p).2.disk = fs.disk := by
  unfold remove
  split <;> rfl

end Files

namespace Transfer

variable {fs fs' : Files} {dest : Path}

/-! ## A receive -/

/-- Preparing the folder of a destination makes folders at most. -/
theorem numbers_prepareFolder (dest : Path) (fs : Files) :
    (prepareFolder dest fs).2.numbers = fs.numbers := by
  unfold prepareFolder
  dsimp only
  split
  · split <;> rfl
  · rfl
  · split
    · have h := numbers_makeLineage dest.folder.lineage fs
      cases hmake : fs.makeFolders dest.folder with
      | mk found fs₁ =>
        unfold makeFolders at hmake
        rw [hmake] at h
        cases found <;> exact h
    · rfl

/-- **A staged file has a number that was not drawn before.** -/
theorem drawn_le_serial {staged : Staged} (h : Staged.make dest fs = (.ok staged, fs')) :
    fs.drawn ≤ staged.handle.serial := by
  unfold Staged.make at h
  dsimp only at h
  split at h
  · rename_i hunique
    cases h
    exact (createUnique_eq hunique).2 _ _ rfl
  · cases h

/-- Staging a file leaves the disk alone. -/
theorem disk_make (dest : Path) (fs : Files) :
    (Staged.make dest fs).2.disk = fs.disk := by
  unfold Staged.make
  dsimp only
  split
  · rename_i hunique
    exact (createUnique_eq hunique).1
  · rename_i hunique
    exact (createUnique_eq hunique).1

/-- So do the chunks that come in. -/
theorem disk_receiveRest (settings : Settings) (staged : Staged) (pace : Pace) (s : Inbound)
    (a : Ambient) (fs : Files) :
    (receiveRest settings staged pace s a fs).2.2.2.disk = fs.disk := by
  -- by the chunks of the run
  fun_induction receiveRest settings staged pace s a fs with
  | case1 => rfl
  | case2 => rfl
  | case3 pace s a fs o octets t b hread f fs₁ happend =>
    have h := disk_append fs staged.handle (o :: octets)
    rwa [happend] at h
  | case4 pace s a fs o octets t b hread fs₁ happend pace' clock hrecord ih =>
    have h := disk_append fs staged.handle (o :: octets)
    rw [happend] at h
    exact ih.trans h

/-- A staged file that is kept has been waited for, which leaves the limit alone. -/
theorem sizeLimit_promote (staged : Staged) (dest : Path) (fs : Files) :
    (promote staged dest fs).2.sizeLimit = fs.sizeLimit := by
  have hsync := sizeLimit_sync fs
  unfold promote
  generalize fs.sync = synced at hsync ⊢
  obtain ⟨synced, fs₁⟩ := synced
  -- it is removed if the disk or the rename fails
  cases synced with
  | error f => exact (sizeLimit_of_disk (disk_remove ..)).trans hsync
  | ok =>
    have h := (sizeLimit_of_disk (disk_rename fs₁ staged.path dest)).trans hsync
    dsimp only
    cases hrename : fs₁.rename staged.path dest with
    | mk found fs₂ =>
      rw [hrename] at h
      cases found with
      | ok => exact h
      | error f => exact (sizeLimit_of_disk (disk_remove ..)).trans h

/-- A receive leaves the limit on sizes alone. -/
theorem sizeLimit_receiveFile (settings : Settings) (dest : Path) (s : Inbound) (a : Ambient)
    (fs : Files) : (receiveFile settings dest s a fs).2.2.2.sizeLimit = fs.sizeLimit := by
  have hprepare : (prepareFolder dest fs).2.sizeLimit = fs.sizeLimit :=
    sizeLimit_of_disk (congrArg Prod.snd (numbers_prepareFolder dest fs))
  -- one part of the receive after the other, each of which may end it
  unfold receiveFile receiveRegistered receiveStaged
  dsimp only
  split
  · rfl
  split
  · rename_i h
    rwa [h] at hprepare
  rename_i prepared h
  rw [h] at hprepare
  rw [← hprepare]
  have hmake := sizeLimit_of_disk (disk_make dest prepared)
  split
  · rename_i h
    rwa [h] at hmake
  rename_i staged fs₁ h
  rw [h] at hmake
  have hrest := sizeLimit_of_disk (disk_receiveRest settings staged
    (Pace.begin settings.baseRate.toNat a.register.clock) s a.register fs₁)
  split
  · rename_i h
    rw [h] at hrest
    exact (sizeLimit_of_disk (disk_remove ..)).trans (hrest.trans hmake)
  rename_i fs₂ h
  rw [h] at hrest
  have hpromote := sizeLimit_promote staged dest fs₂
  split
  · rename_i h
    rw [h] at hpromote
    exact hpromote.trans (hrest.trans hmake)
  · rename_i h
    rw [h] at hpromote
    exact hpromote.trans (hrest.trans hmake)

end Transfer

end Courier
