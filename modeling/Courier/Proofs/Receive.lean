import Courier.Proofs.Staged
import Courier.Proofs.Stream

/-!
# What a receive does to the tree

Into a folder that is ready, a receive makes a staged file, adds to it piece by piece, waits until
it is on the disk, and at the end moves it to the destination or removes it. Here this is shown as
the list of the changes made, with what has been read as the content of the file.

Main results:

* `Transfer.receiveRest_holds` — what has been written is what has been read.
* `Transfer.Written.remove`, `Transfer.Written.promote` — the staged file is found again by its
  path, to be removed or moved.
* `Transfer.receiveStaged_stages` — the changes that a receive into a ready folder makes.
* `Transfer.receiveFile_cases` — a whole receive, from the folders on.
-/

namespace Courier

open Files

namespace Transfer

/-! ## Reading -/

/-- A chunk that is read is the next part of what is pending, and it is empty only at the end. -/
theorem pending_of_readChunk {settings : Settings} {failures room : Nat} {s t : Inbound}
    {a b : Ambient} {octets : Bytes} (hroom : 0 < room)
    (h : readChunk settings failures room s a = (.ok octets, t, b)) :
    octets = [] ∧ s.pending = [] ∨ octets ≠ [] ∧ s.pending = octets ++ t.pending := by
  -- a call that fails and is made again has taken nothing off what is pending
  fun_induction readChunk settings failures room s a with
  | case1 failures s a hpos found u c hread =>
    cases h
    by_cases hnil : octets = []
    · subst hnil
      exact .inl ⟨rfl, Inbound.pending_of_read_end hpos hread⟩
    · exact .inr ⟨hnil, Inbound.pending_of_read hread (by simpa using hnil)⟩
  | case2 failures s a hpos f u c hread hf ih =>
    rw [Inbound.pending_of_read hread (by simp)]
    exact ih h
  | case3 => cases h
  | case4 failures s a hpos f u c hread hf hretries ih =>
    rw [Inbound.pending_of_read hread (by simp)]
    exact ih h
  | case5 _ _ _ hpos => exact absurd hroom hpos

/-- A chunk that was read is what came next, and an empty one is the end of the stream. -/
theorem pending_of_nextChunk {settings : Settings} {s t : Inbound} {a b : Ambient}
    {octets : Bytes} (h : nextChunk settings s a = (.ok octets, t, b)) :
    octets = [] ∧ s.pending = [] ∨ octets ≠ [] ∧ s.pending = octets ++ t.pending :=
  pending_of_readChunk (chunkSize_pos settings a) (readChunk_of_nextChunk h)

/-- Pieces, the latest in front, are added to a file. -/
def appends (l : Location) (pieces : List Bytes) : List Change :=
  pieces.map (Change.append l)

/-- What has been written to the staged file is what has been read, and in the end that is all
that comes before the end of the stream. -/
theorem receiveRest_holds {settings : Settings} {staged : Staged} {pace : Pace} {s t : Inbound}
    {a b : Ambient} {fs fs' : Files} {mode : Nat} {content : Bytes}
    {r : Except TransferError Pace} (hholds : fs.Holds staged.handle mode content)
    (h : receiveRest settings staged pace s a fs = (r, t, b, fs')) :
    ∃ pieces content', fs.Evolves (appends staged.handle.location pieces) fs' ∧
      fs'.Holds staged.handle mode content' ∧
      ∀ p, r = .ok p →
        content' = content ++ s.pending ∧ p.moved = pace.moved + s.pending.length := by
  -- `content` is what the file holds so far; each chunk that is written adds to it
  fun_induction receiveRest settings staged pace s a fs generalizing content with
  | case1 pace s a fs e u c hread =>
    cases h
    exact ⟨[], content, .refl _, hholds, nofun⟩
  | case2 pace s a fs u c hread =>
    cases h
    refine ⟨[], content, .refl _, hholds, fun p hp => ?_⟩
    cases hp
    -- an empty chunk is the end of the stream
    rcases pending_of_nextChunk hread with ⟨-, hnil⟩ | ⟨hne, -⟩
    · simp [hnil]
    · exact absurd rfl hne
  | case3 pace s a fs o octets u c hread f fs₁ happend =>
    cases h
    obtain ⟨written, rfl, hholds', -, -⟩ := append_cases hholds happend
    exact ⟨[written], _, .commit fs _, hholds', nofun⟩
  | case4 pace s a fs o octets u c hread fs₁ happend pace' clock hrecord ih =>
    obtain ⟨written, rfl, hholds', -, hall⟩ := append_cases hholds happend
    -- the chunk was written whole
    obtain rfl := hall rfl
    obtain ⟨pieces, content', hevolves, hholds'', hok⟩ := ih hholds' h
    -- the chunk comes before the pieces of the rest, so it is the last one of the list
    refine ⟨pieces ++ [o :: octets], content', ?_, hholds'', fun p hp => ?_⟩
    · rw [appends, List.map_append]
      exact (Evolves.commit fs _).trans hevolves
    · obtain ⟨hcontent, hmoved⟩ := hok p hp
      rcases pending_of_nextChunk hread with ⟨hnil, -⟩ | ⟨-, hpending⟩
      · cases hnil
      · have hpace : pace'.moved = pace.moved + (o :: octets).length :=
          (congrArg (·.1.moved) hrecord).symm
        rw [hcontent, hmoved, hpace, hpending, List.append_assoc, List.length_append,
          Nat.add_assoc]
        exact ⟨rfl, rfl⟩

/-! ## The changes of a receive -/

/-- A staged file is made, and pieces are added to it. -/
def writes (staged : Staged) (pieces : List Bytes) : List Change :=
  appends staged.handle.location pieces ++
    [.create staged.handle.location (.file 0o644 staged.handle.serial [])]

/-- Each write to a staged file touches that file. -/
theorem touched_of_mem_writes {staged : Staged} {pieces : List Bytes} {c : Change}
    (h : c ∈ writes staged pieces) : c.touched = [staged.handle.location] := by
  rcases List.mem_append.mp h with h | h
  · obtain ⟨octets, -, rfl⟩ := List.mem_map.mp h
    rfl
  · rw [List.mem_singleton.mp h]
    rfl

/-- What comes of a receive into a ready folder, and which changes it makes. -/
inductive Stages (dest : Path) (data : Bytes) (fs : Files) :
    Except TransferError Report → List Change → Prop where
  | unstaged {e : TransferError} {fs' : Files} (hmake : Staged.make dest fs = (.error e, fs')) :
      Stages dest data fs (.error e) []
  | discarded {staged : Staged} {fs' : Files} {pieces : List Bytes} {e : TransferError}
      (hmake : Staged.make dest fs = (.ok staged, fs')) :
      Stages dest data fs (.error e) (.remove staged.handle.location :: writes staged pieces)
  | promoted {staged : Staged} {fs' : Files} {pieces : List Bytes} {folder : Location}
      {name : Name} {report : Report} (hmake : Staged.make dest fs = (.ok staged, fs'))
      (hslot : fs.Slot dest folder name)
      (hfree : ∀ mode, fs.tree.get? (folder ++ [name]) ≠ some (.folder mode))
      (hfile : (fs.tree.after (writes staged pieces)).get? staged.handle.location =
        some (.file 0o644 staged.handle.serial data))
      (hsize : report.size = data.length) :
      Stages dest data fs (.ok report)
        (.move staged.handle.location (folder ++ [name]) :: writes staged pieces)

variable {fs fs' fs₁ fs₂ : Files} {dest : Path} {staged : Staged} {pieces : List Bytes}

/-- Writing a staged file that was not there adds a file and no folder. -/
theorem filesOnly_after_writes (hfresh : fs.tree.get? staged.handle.location = none) :
    fs.tree.FilesOnly (fs.tree.after (writes staged pieces)) := by
  rw [writes, Tree.after_append]
  -- a new file is made, and what is added to it later does not show
  refine (Change.filesOnly_create hfresh 0o644 staged.handle.serial []).trans ?_
  -- the pieces, latest first: adding one leaves every shape as it is
  induction pieces with
  | nil => exact Tree.filesOnly_of_shape_eq fun _ => rfl
  | cons octets pieces ih =>
    exact ih.trans (Tree.filesOnly_of_shape_eq (Change.shape_append _ _ octets))

/-- A staged file that has been made and written to. -/
structure Written (dest : Path) (fs : Files) (staged : Staged) (pieces : List Bytes)
    (content : Bytes) (fs' : Files) : Prop where
  created : ∃ fs₁, fs.Created staged.path 0o644 staged.handle fs₁
  evolves : fs.Evolves (writes staged pieces) fs'
  holds : fs'.Holds staged.handle 0o644 content

namespace Written

variable {content : Bytes}

/-- A receive that is under way has added a file and no folder. -/
theorem filesOnly (h : Written dest fs staged pieces content fs') :
    fs.tree.FilesOnly fs'.tree := by
  obtain ⟨fs₁, hcreated⟩ := h.created
  exact h.evolves.tree ▸ filesOnly_after_writes hcreated.fresh

/-- A staged file that has just been made has nothing written to it. -/
theorem begin {fs₁ : Files} (h : fs.Created staged.path 0o644 staged.handle fs₁) :
    Written dest fs staged [] [] fs₁ :=
  ⟨⟨fs₁, h⟩, h.evolves, h.holds⟩

/-- One more piece is written behind the others. -/
theorem append (h : Written dest fs staged pieces content fs') (octets : Bytes) :
    Written dest fs staged (octets :: pieces) (content ++ octets)
      (fs'.commit (.append staged.handle.location octets)) :=
  ⟨h.created, h.evolves.trans (.commit fs' _), h.holds.append octets⟩

/-- Waiting for the disk leaves it as it is. -/
theorem sync (h : Written dest fs staged pieces content fs') :
    Written dest fs staged pieces content fs'.sync.2 where
  created := h.created
  evolves := h.evolves.trans (.sync fs')
  holds := by
    rw [Holds, tree_sync]
    exact h.holds

/-- The staged file is found again by its path. -/
theorem slot (h : Written dest fs staged pieces content fs') :
    ∃ folder name, fs'.Slot staged.path folder name ∧
      staged.handle.location = folder ++ [name] := by
  obtain ⟨fs₁, hcreated⟩ := h.created
  obtain ⟨folder, name, hslot, hlocation⟩ := hcreated.slot
  exact ⟨folder, name, hslot.mono h.evolves.here h.filesOnly.shown, hlocation⟩

/-- It can always be removed. -/
theorem remove (h : Written dest fs staged pieces content fs') :
    fs'.remove staged.path = (.ok (), fs'.commit (.remove staged.handle.location)) := by
  obtain ⟨folder, name, hslot, hlocation⟩ := h.slot
  have hholds := h.holds
  rw [Holds, hlocation] at hholds
  rw [hlocation]
  exact remove_of_slot hslot hholds

/-- Once it is on the disk it takes the place of the destination, which was no folder; or it is
removed. -/
theorem promote (h : Written dest fs staged pieces content fs') {r : Except TransferError Unit}
    {fs'' : Files} (hpromote : promote staged dest fs' = (r, fs'')) :
    (∃ folder name, r = .ok () ∧ fs.Slot dest folder name ∧
      (∀ mode, fs.tree.get? (folder ++ [name]) ≠ some (.folder mode)) ∧
      fs'' = fs'.sync.2.commit (.move staged.handle.location (folder ++ [name]))) ∨
    ∃ e, r = .error e ∧ fs'' = fs'.sync.2.commit (.remove staged.handle.location) := by
  have h := h.sync
  unfold Transfer.promote at hpromote
  generalize fs'.sync = synced at h hpromote ⊢
  obtain ⟨synced, fs₂⟩ := synced
  dsimp only at h hpromote ⊢
  cases synced with
  | error f =>
    -- it did not get to the disk
    dsimp only at hpromote
    rw [h.remove] at hpromote
    cases hpromote
    exact .inr ⟨_, rfl, rfl⟩
  | ok =>
    dsimp only at hpromote
    cases hrename : fs₂.rename staged.path dest with
    | mk renamed fs₃ =>
      rw [hrename] at hpromote
      rcases rename_cases hrename with ⟨old, new, rfl, hold, hnew, hfree, rfl⟩ | ⟨f, rfl, rfl⟩
      · cases hpromote
        -- the source of the move is the staged file itself
        obtain ⟨_, _, hsource, hlocation⟩ := h.slot
        have hsource' := hsource.slotOf .busy
        rw [← hlocation] at hsource'
        obtain rfl := Except.ok.inj (hsource'.symm.trans hold)
        -- and its target was the destination already before anything was staged
        obtain ⟨folder, name, hslot, rfl⟩ := slot_of_slotOf hnew
        have hslot' := hslot.anti h.evolves.here h.filesOnly
        refine .inl ⟨folder, name, rfl, hslot', fun mode hmode => ?_, rfl⟩
        obtain ⟨mode', hmode'⟩ :=
          Tree.shape_eq_folder.mp (h.filesOnly.shown _ _ (Tree.shape_of_get? hmode))
        exact hfree mode' hmode'
      · -- nothing was moved, so the staged file is where it was
        dsimp only at hpromote
        rw [h.remove] at hpromote
        cases hpromote
        exact .inr ⟨_, rfl, rfl⟩

end Written

/-- **The changes of a receive into a ready folder.** A staged file is made and written to; then
it is moved to the destination or removed. -/
theorem receiveStaged_stages {settings : Settings} {s t : Inbound} {a b : Ambient}
    {r : Except TransferError Report}
    (h : receiveStaged settings dest s a fs = (r, t, b, fs')) :
    ∃ cs, fs.Evolves cs fs' ∧ Stages dest s.pending fs r cs := by
  unfold receiveStaged at h
  cases hmake : Staged.make dest fs with
  | mk made fs₁ =>
    rw [hmake] at h
    rcases Staged.make_cases hmake with ⟨staged, n, rfl, -, hcreated⟩ | ⟨e, rfl, hevolves⟩
    · dsimp only at h
      cases hrest : receiveRest settings staged (Pace.begin settings.baseRate.toNat a.clock) s a
          fs₁ with
      | mk found rest =>
        obtain ⟨u, c, fs₂⟩ := rest
        obtain ⟨pieces, content, hmore, hholds, hok⟩ := receiveRest_holds hcreated.holds hrest
        have hwritten : Written dest fs staged pieces content fs₂ :=
          ⟨⟨fs₁, hcreated⟩, hcreated.evolves.trans hmore, hholds⟩
        -- however a receive fails from here on, the staged file is removed again
        have hdiscarded (e : TransferError) {fs₃ : Files} (hthere : Written dest fs staged pieces
            content fs₃) : ∃ cs, fs.Evolves cs (fs₃.commit (.remove staged.handle.location)) ∧
              Stages dest s.pending fs (.error e) cs :=
          ⟨_, hthere.evolves.trans (.commit _ _), .discarded hmake⟩
        rw [hrest] at h
        cases found with
        | error e =>
          dsimp only at h
          rw [hwritten.remove] at h
          cases h
          exact hdiscarded e hwritten
        | ok pace =>
          obtain ⟨hcontent, hmoved⟩ := hok pace rfl
          dsimp only at h
          cases hpromote : Transfer.promote staged dest fs₂ with
          | mk promoted fs₃ =>
            rw [hpromote] at h
            rcases hwritten.promote hpromote with
              ⟨folder, name, rfl, hslot, hfree, rfl⟩ | ⟨e, rfl, rfl⟩
            · cases h
              refine ⟨_ :: writes staged pieces, hwritten.sync.evolves.trans (.commit _ _),
                .promoted hmake hslot hfree ?_ (hmoved.trans (Nat.zero_add _))⟩
              -- what is moved holds all that was read
              rw [← hwritten.evolves.tree, ← List.nil_append s.pending, ← hcontent]
              exact hholds
            · cases h
              exact hdiscarded e hwritten.sync
    · cases h
      exact ⟨[], hevolves, .unstaged hmake⟩

/-- A receive makes folders first, and fails there or goes on in the folder that is ready. -/
theorem receiveFile_cases (settings : Settings) (s : Inbound) (a : Ambient) (fs : Files)
    (hne : dest.isEmpty = false) :
    ∃ prepared made, Furnished dest.folder.lineage fs made prepared ∧
      ((∃ e, prepareFolder dest fs = (.error e, prepared) ∧
          (receiveFile settings dest s a fs).1 = .error e ∧
          (receiveFile settings dest s a fs).2.2.2 = prepared) ∨
        (prepareFolder dest fs = (.ok (), prepared) ∧
          ∃ cs, prepared.Evolves cs (receiveFile settings dest s a fs).2.2.2 ∧
            Stages dest s.pending prepared (receiveFile settings dest s a fs).1 cs)) := by
  -- all that follows happens among the files `prepared`, in which the folder is ready
  unfold receiveFile receiveRegistered
  rw [if_neg (by simp [hne])]
  cases hprepare : prepareFolder dest fs with
  | mk ready prepared =>
    obtain ⟨made, hmade⟩ := prepareFolder_furnished hprepare
    refine ⟨prepared, made, hmade, ?_⟩
    cases ready with
    | error e => exact .inl ⟨e, rfl, rfl, rfl⟩
    | ok =>
      refine .inr ⟨rfl, ?_⟩
      dsimp only
      cases hstaged : receiveStaged settings dest s a.register prepared with
      | mk result rest =>
        obtain ⟨t, b, fs'⟩ := rest
        exact receiveStaged_stages hstaged

end Transfer

end Courier
