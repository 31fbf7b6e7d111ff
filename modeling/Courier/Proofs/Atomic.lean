import Mathlib.Data.List.Permutation
import Courier.Proofs.Receive

/-!
# Receiving is atomic

A receive makes the folders that are missing above its destination, and works on a staged file
that is neither one of them nor the destination. Only the last change, by which the staged file
takes the name of the destination, is seen there. A destination written with `..` may lead through
itself: then it is made as one of the folders, and the receive fails.

Main results:

* `Transfer.Stages.replaces` — into a ready folder, the destination is replaced in one step or
  nothing changes.
* `Transfer.receive_atomic` — the same of a whole receive, but for new folders.
-/

namespace Courier.Transfer

open Files

variable {fs fs' : Files} {dest : Path} {data : Bytes} {cs : List Change}
  {result : Except TransferError Report}

/-- Nothing is given another name. -/
def Unmoved (cs : List Change) : Prop :=
  ∀ source target, .move source target ∉ cs

/-! ## In a ready folder -/

/-- What is seen of a receive into a folder that is ready: the destination is left alone until the
last change, which puts the whole file there; or all is as before in the end. -/
structure Replaces (dest : Path) (data : Bytes) (fs : Files) (result : Except TransferError Report)
    (cs : List Change) : Prop where
  before : ∀ folder name, fs.Slot dest folder name → ∀ earlier, earlier <:+ cs → Unmoved earlier →
    (fs.tree.after earlier).get? (folder ++ [name]) = fs.tree.get? (folder ++ [name])
  ok : ∀ report, result = .ok report → ∃ folder name source earlier mode serial,
    fs.Slot dest folder name ∧
      (∀ m, fs.tree.get? (folder ++ [name]) ≠ some (.folder m)) ∧
      cs = .move source (folder ++ [name]) :: earlier ∧ Unmoved earlier ∧
      (fs.tree.after cs).get? (folder ++ [name]) = some (.file mode serial data) ∧
      report.size = data.length ∧
      ∀ l, l ≠ folder ++ [name] → (fs.tree.after cs).get? l = fs.tree.get? l
  error : ∀ e, result = .error e → Unmoved cs ∧ ∀ l, (fs.tree.after cs).get? l = fs.tree.get? l

/-- An error with no change leaves the destination as it was. -/
theorem Replaces.nothing (e : TransferError) : Replaces dest data fs (.error e) [] where
  before := by
    intro _ _ _ earlier h _
    rw [List.suffix_nil.mp h]
    rfl
  ok := fun _ h => nomatch h
  error := fun _ _ => ⟨nofun, fun _ => rfl⟩

/-- Writing to a staged file moves nothing. -/
theorem unmoved_writes (staged : Staged) (pieces : List Bytes) :
    Unmoved (writes staged pieces) := by
  intro source target h
  have := touched_of_mem_writes h
  cases this

/-- Writing to a staged file changes no other location. -/
theorem get?_after_writes (t : Tree) {staged : Staged} (pieces : List Bytes) {l : Location}
    (h : l ≠ staged.handle.location) : (t.after (writes staged pieces)).get? l = t.get? l := by
  refine Tree.get?_after_of_notMem t fun c hc => ?_
  rw [touched_of_mem_writes hc, List.mem_singleton]
  exact h

/-- A staged file is new, and it is not the destination. -/
theorem staged_apart {staged : Staged} {fs₁ : Files}
    (hmake : Staged.make dest fs = (.ok staged, fs₁)) :
    fs.tree.get? staged.handle.location = none ∧
      ∀ folder name, fs.Slot dest folder name → folder ++ [name] ≠ staged.handle.location := by
  rcases Staged.make_cases hmake with ⟨staged', n, hr, hpath, hcreated⟩ | ⟨e, hr, -⟩
  · cases hr
    obtain ⟨folder', name', hslot, hlocation⟩ := hcreated.slot
    rw [hpath] at hslot
    refine ⟨hcreated.fresh, fun folder name hdest => ?_⟩
    rw [hlocation]
    exact Staged.location_ne hslot hdest
  · cases hr

/-- Changes to a staged file and then its move replace the destination in one step. -/
theorem Stages.replaces (h : Stages dest data fs result cs) : Replaces dest data fs result cs := by
  -- only the staged file is touched by anything but a move
  have kept {staged : Staged} {fs₁ : Files} {pieces : List Bytes} {last : Change}
      (hmake : Staged.make dest fs = (.ok staged, fs₁))
      (hlast : last.touched = [staged.handle.location] ∨ ∃ s t, last = .move s t) :
      ∀ folder name, fs.Slot dest folder name → ∀ earlier,
        earlier <:+ last :: writes staged pieces → Unmoved earlier →
        (fs.tree.after earlier).get? (folder ++ [name]) = fs.tree.get? (folder ++ [name]) := by
    intro folder name hslot earlier hearlier hunmoved
    refine Tree.get?_after_of_notMem _ fun c hc => ?_
    have htouched : c.touched = [staged.handle.location] := by
      rcases List.mem_cons.mp (hearlier.subset hc) with rfl | hmem
      · rcases hlast with htouched | ⟨s, t, rfl⟩
        · exact htouched
        · exact absurd hc (hunmoved s t)
      · exact touched_of_mem_writes hmem
    rw [htouched, List.mem_singleton]
    exact (staged_apart hmake).2 folder name hslot
  cases h with
  | unstaged hmake => exact .nothing _
  | @discarded staged fs₁ pieces e hmake =>
    refine ⟨kept hmake (.inl rfl), fun _ hr => ?_, fun _ _ => ⟨?_, fun l => ?_⟩⟩
    · cases hr
    · intro source target hmem
      rcases List.mem_cons.mp hmem with h | h
      · cases h
      · exact unmoved_writes staged pieces source target h
    · rw [Tree.after, Change.apply]
      by_cases hl : l = staged.handle.location
      · rw [hl, Tree.get?_remove_self, (staged_apart hmake).1]
      · rw [Tree.get?_remove_of_ne _ hl, get?_after_writes _ _ hl]
  | @promoted staged fs₁ pieces folder name report hmake hslot hfree hfile hsize =>
    refine ⟨kept hmake (.inr ⟨_, _, rfl⟩), fun _ hr => ?_, fun _ hr => ?_⟩
    · cases hr
      refine ⟨folder, name, staged.handle.location, writes staged pieces, 0o644,
        staged.handle.serial, hslot, hfree, rfl, unmoved_writes staged pieces, ?_, hsize,
        fun l hl => ?_⟩
      · exact Change.get?_move_target hfile
      · rw [Tree.after]
        by_cases hstaged : l = staged.handle.location
        · -- the place that the staged file leaves is as empty as before it was made
          rw [hstaged, Change.get?_move_source hfile (hstaged ▸ hl), (staged_apart hmake).1]
        · rw [Change.get?_apply_of_notMem _ (by simp [Change.touched, hl, hstaged]),
            get?_after_writes _ _ hstaged]
    · cases hr

/-! ## A whole receive -/

/-- Where the destination is, once the folder above it is ready. -/
def destination (dest : Path) (fs : Files) : Except Fault Location :=
  (prepareFolder dest fs).2.slotOf dest .busy

/-- A destination that is found at once is where it was. -/
theorem destination_of_slotOf {place : Location} (h : fs.slotOf dest .busy = .ok place) :
    destination dest fs = .ok place := by
  obtain ⟨folder, name, hslot, rfl⟩ := slot_of_slotOf h
  obtain ⟨made, hmade⟩ := prepareFolder_furnished (r := (prepareFolder dest fs).1) rfl
  exact (hslot.mono hmade.evolves.here hmade.shown).slotOf .busy

/-- A folder that was not there before and is the place of a path above the destination. -/
structure NewFolder (dest : Path) (fs : Files) (t : Tree) (l : Location) : Prop where
  missing : fs.tree.get? l = none
  made : t.get? l = some (.folder 0o755)
  above : ∃ p ∈ dest.folder.lineage, (prepareFolder dest fs).2.slotOf p .alreadyThere = .ok l

/-- What is seen of a receive of `data` at every moment and in the end; `cs` are the changes it
makes, the latest in front. -/
structure Atomic (dest : Path) (data : Bytes) (fs fs' : Files)
    (result : Except TransferError Report) (cs : List Change) : Prop where
  evolves : fs.Evolves cs fs'
  /-- A destination that is found before anything is made is meant. -/
  found : ∀ place, fs.slotOf dest .busy = .ok place → destination dest fs = .ok place
  /-- Until something is moved, the destination is as it was. -/
  before : ∀ place, destination dest fs = .ok place → ∀ earlier, earlier <:+ cs → Unmoved earlier →
    (fs.tree.after earlier).get? place = fs.tree.get? place ∨
      (.up ∈ dest.parts ∧ NewFolder dest fs (fs.tree.after earlier) place ∧ ∃ e, result = .error e)
  /-- The last change puts all of the data in its place. -/
  ok : ∀ report, result = .ok report → ∃ place source earlier mode serial,
    destination dest fs = .ok place ∧
      cs = .move source place :: earlier ∧ Unmoved earlier ∧
      fs'.tree.get? place = some (.file mode serial data) ∧ report.size = data.length ∧
      ∀ l, l ≠ place → fs'.tree.get? l = fs.tree.get? l ∨ NewFolder dest fs fs'.tree l
  error : ∀ e, result = .error e →
    Unmoved cs ∧ ∀ l, fs'.tree.get? l = fs.tree.get? l ∨ NewFolder dest fs fs'.tree l

/-- Some first ones of the folders that are made. -/
theorem exists_made_of_suffix {made : List Location} {earlier : List Change}
    (h : earlier <:+ made.map Change.folderAt) :
    ∃ first, first <:+ made ∧ earlier = first.map Change.folderAt := by
  rw [List.suffix_iff_eq_drop] at h
  exact ⟨_, List.drop_suffix _ made, by rw [h, List.map_drop]⟩

/-- Making folders moves nothing. -/
theorem unmoved_folders (made : List Location) : Unmoved (made.map Change.folderAt) := by
  intro source target hmem
  obtain ⟨l, -, hl⟩ := List.mem_map.mp hmem
  cases hl

/-- Two goes that move nothing move nothing together. -/
theorem Unmoved.append {ds : List Change} (hcs : Unmoved cs) (hds : Unmoved ds) :
    Unmoved (cs ++ ds) := by
  intro source target hmem
  rcases List.mem_append.mp hmem with hmem | hmem
  · exact hcs source target hmem
  · exact hds source target hmem

section

variable {prepared : Files} {made : List Location}
  (hmade : Furnished dest.folder.lineage fs made prepared)

include hmade

/-- The folders come first, then the changes in the ready folder. -/
theorem after_folders (ds : List Change) :
    fs.tree.after (ds ++ made.map Change.folderAt) = prepared.tree.after ds := by
  rw [Tree.after_append, ← hmade.evolves.tree]

/-- What was made for the destination is new and above it. -/
theorem newFolder_of_mem (hprepared : (prepareFolder dest fs).2 = prepared) {t : Tree}
    {l : Location} (hl : l ∈ made) (hfolder : t.get? l = some (.folder 0o755)) :
    NewFolder dest fs t l := by
  obtain ⟨p, hp, folder, name, hslot, rfl⟩ := hmade.named l hl
  exact ⟨hmade.fresh _ hl, hfolder, p, hp, hprepared ▸ hslot.slotOf .alreadyThere⟩

/-- What is as it was when the folder got ready is as it was at first, but for the folders. -/
theorem same_or_newFolder (hprepared : (prepareFolder dest fs).2 = prepared) {l : Location}
    (hl : fs'.tree.get? l = prepared.tree.get? l) :
    fs'.tree.get? l = fs.tree.get? l ∨ NewFolder dest fs fs'.tree l := by
  rw [hmade.get? l] at hl
  by_cases hmem : l ∈ made
  · exact .inr (newFolder_of_mem hmade hprepared hmem (by rw [hl, if_pos hmem]))
  · exact .inl (by rw [hl, if_neg hmem])

/-- At each moment before anything is moved, the destination is one of the folders that have been
made so far, or it is as it was at first. -/
theorem Replaces.get?_before (h : Replaces dest data prepared result cs) {folder : Location}
    {name : Name} (hslot : prepared.Slot dest folder name) {earlier : List Change}
    (hearlier : earlier <:+ cs ++ made.map Change.folderAt) (hmoved : Unmoved earlier) :
    ∃ first, first <:+ made ∧
      (fs.tree.after earlier).get? (folder ++ [name]) =
        if folder ++ [name] ∈ first then some (.folder 0o755)
        else fs.tree.get? (folder ++ [name]) := by
  rcases List.suffix_or_suffix_of_suffix hearlier (List.suffix_append ..) with h' | ⟨ds, rfl⟩
  · -- the folder is not ready
    obtain ⟨first, hfirst, rfl⟩ := exists_made_of_suffix h'
    exact ⟨first, hfirst, Tree.get?_after_folders ..⟩
  · have hds : ds <:+ cs := by
      obtain ⟨later, hlater⟩ := hearlier
      rw [← List.append_assoc] at hlater
      exact ⟨later, List.append_cancel_right hlater⟩
    refine ⟨made, List.suffix_refl _, ?_⟩
    rw [after_folders hmade, h.before folder name hslot ds hds fun s t hmem =>
      hmoved s t (List.mem_append_left _ hmem), hmade.get?]

/-- A receive does not succeed where its destination is one of the folders. -/
theorem Replaces.error_of_mem (h : Replaces dest data prepared result cs) {folder : Location}
    {name : Name} (hslot : prepared.Slot dest folder name) (hmem : folder ++ [name] ∈ made) :
    ∃ e, result = .error e := by
  cases hresult : result with
  | error e => exact ⟨e, rfl⟩
  | ok report =>
    obtain ⟨folder', name', -, -, -, -, hslot', hfree, -⟩ := h.ok report hresult
    obtain ⟨rfl, rfl⟩ := hslot.unique hslot'
    exact absurd (by rw [hmade.get?, if_pos hmem]) (hfree 0o755)

end

/-- What is seen of a receive into a folder that is ready is seen of the whole receive, but for the
folders that it has made ready first. -/
theorem atomic_of_replaces {prepared : Files} {made : List Location} (ht : fs.tree.WellFormed)
    (hprepared : (prepareFolder dest fs).2 = prepared)
    (hmade : Furnished dest.folder.lineage fs made prepared)
    (h : Replaces dest data prepared result cs) (hevolves : prepared.Evolves cs fs') :
    Atomic dest data fs fs' result (cs ++ made.map Change.folderAt) := by
  constructor
  case evolves => exact hmade.evolves.trans hevolves
  case found => exact fun _ => destination_of_slotOf
  case before =>
    intro place hplace earlier hearlier hmoved
    unfold destination at hplace
    rw [hprepared] at hplace
    obtain ⟨folder, name, hslot, rfl⟩ := slot_of_slotOf hplace
    obtain ⟨first, hfirst, hget⟩ := h.get?_before hmade hslot hearlier hmoved
    by_cases hmem : folder ++ [name] ∈ first
    · -- the destination is one of the folders, so it leads through itself
      have hmem' := hfirst.subset hmem
      rw [if_pos hmem] at hget
      have hup : .up ∈ dest.parts :=
        Classical.byContradiction fun hup => slot_notMem_made ht hmade hup hslot hmem'
      exact .inr ⟨hup, newFolder_of_mem hmade hprepared hmem' hget,
        h.error_of_mem hmade hslot hmem'⟩
    · exact .inl (by rw [hget, if_neg hmem])
  -- the folders come first, so the changes of the receive are read after them
  case ok =>
    intro report hresult
    obtain ⟨folder, name, source, earlier, mode, serial, hslot, -, hcs, hearlier, hfile, hsize,
      hothers⟩ := h.ok report hresult
    have hplace : destination dest fs = .ok (folder ++ [name]) := by
      unfold destination
      rw [hprepared]
      exact hslot.slotOf .busy
    refine ⟨folder ++ [name], source, earlier ++ made.map Change.folderAt, mode, serial, hplace,
      by rw [hcs]; rfl, hearlier.append (unmoved_folders made), by rw [hevolves.tree]; exact hfile,
      hsize, fun l hl => same_or_newFolder hmade hprepared ?_⟩
    rw [hevolves.tree]
    exact hothers l hl
  case error =>
    intro e hresult
    obtain ⟨hcs, hsame⟩ := h.error e hresult
    refine ⟨hcs.append (unmoved_folders made), fun l => same_or_newFolder hmade hprepared ?_⟩
    rw [hevolves.tree]
    exact hsame l

/-- Onto a folder nothing is received, and nothing changes any more. -/
theorem receive_onto_folder (settings : Settings) (s : Inbound) (a : Ambient) {prepared : Files}
    {place : Location} {mode : Nat} (hne : dest.isEmpty = false)
    (hprepare : prepareFolder dest fs = (.ok (), prepared))
    (hplace : prepared.slotOf dest .busy = .ok place)
    (hfolder : prepared.tree.get? place = some (.folder mode)) :
    (∃ e, (receiveFile settings dest s a fs).1 = .error e) ∧
      ∀ l, (receiveFile settings dest s a fs).2.2.2.tree.get? l = prepared.tree.get? l := by
  obtain ⟨folder, name, hslot, rfl⟩ := slot_of_slotOf hplace
  obtain ⟨prepared', made, -, ⟨e, hfails, -⟩ | ⟨hready, cs, hevolves, hstages⟩⟩ :=
    receiveFile_cases settings s a fs hne
  · rw [hprepare] at hfails
    cases hfails
  · rw [hprepare] at hready
    obtain rfl := (Prod.mk.inj hready).2
    cases hresult : (receiveFile settings dest s a fs).1 with
    | error e =>
      refine ⟨⟨e, rfl⟩, fun l => ?_⟩
      rw [hevolves.tree]
      exact (hstages.replaces.error e hresult).2 l
    -- a receive that succeeds has moved its file to this place, which is then no folder
    | ok report =>
      obtain ⟨folder', name', -, -, -, -, hslot', hfree, -⟩ := hstages.replaces.ok report hresult
      obtain ⟨rfl, rfl⟩ := hslot.unique hslot'
      exact absurd hfolder (hfree mode)

/-- **Receiving is atomic.** Until the one change that moves the staged file, the destination is
as it was, but that a destination written with `..` may be made as a folder on its own way, and
then the receive fails. A receive that succeeds leaves all that was read at the destination and
reports its length; one that fails leaves the tree as it was; both but for new folders above the
destination. -/
theorem receive_atomic (settings : Settings) (dest : Path) (s : Inbound) (a : Ambient)
    (ht : fs.tree.WellFormed) :
    ∃ cs, Atomic dest s.pending fs (receiveFile settings dest s a fs).2.2.2
      (receiveFile settings dest s a fs).1 cs := by
  cases hne : dest.isEmpty with
  -- an empty destination is refused before anything is done
  | true =>
    have hrun : receiveFile settings dest s a fs =
        (.error (.filesystem .validateDestination dest emptyDestination), s,
          a.register.deregister, fs) := by
      unfold receiveFile receiveRegistered
      rw [if_pos hne]
    rw [hrun]
    refine ⟨[], .refl fs, fun _ => destination_of_slotOf, fun _ _ earlier h _ => .inl ?_,
      (fun _ hr => nomatch hr), fun _ _ => ⟨nofun, fun _ => .inl rfl⟩⟩
    rw [List.suffix_nil.mp h]
    rfl
  | false =>
    obtain ⟨prepared, made, hmade, hcases⟩ := receiveFile_cases settings s a fs hne
    rcases hcases with ⟨e, hprepare, hresult, hfiles⟩ | ⟨hprepare, cs, hevolves, hstages⟩
    · rw [hresult, hfiles]
      exact ⟨_, atomic_of_replaces ht (by rw [hprepare]) hmade (.nothing e) (.refl prepared)⟩
    · exact ⟨_, atomic_of_replaces ht (by rw [hprepare]) hmade hstages.replaces hevolves⟩

/-- A top folder with nothing in it. -/
def bareFiles : Files :=
  { tree := ⟨[([], .folder 0o755)]⟩, here := [] }

/-- `bareFiles` is a well-formed tree. -/
theorem bareFiles_wellFormed : bareFiles.tree.WellFormed :=
  .of_entries (by decide) (by decide)

/-- Through `new/../new`, where `new` is missing, and over an interruption: the whole content
appears by one move. -/
theorem receive_atomic_bare :
    bareFiles.tree.WellFormed ∧
      ∃ cs, Atomic (.of "new/../new/file.txt") (bytes "some" ++ bytes "thing") bareFiles
        (receiveFile {} (.of "new/../new/file.txt")
          (.of [.data (bytes "some"), .fault (.bare .interrupted), .data (bytes "thing")])
          default bareFiles).2.2.2
        (receiveFile {} (.of "new/../new/file.txt")
          (.of [.data (bytes "some"), .fault (.bare .interrupted), .data (bytes "thing")])
          default bareFiles).1 cs :=
  ⟨bareFiles_wellFormed, receive_atomic {} (.of "new/../new/file.txt")
    (.of [.data (bytes "some"), .fault (.bare .interrupted), .data (bytes "thing")]) default
    bareFiles_wellFormed⟩

/-- A destination that leads through itself is made as a folder, and the receive fails. -/
theorem receive_through_itself :
    bareFiles.tree.WellFormed ∧
      destination (.of "a/../a") bareFiles = .ok [bytes "a"] ∧
      bareFiles.tree.get? [bytes "a"] = none ∧
      (∃ e, (receiveFile {} (.of "a/../a") (.of [.data (bytes "DATA")]) default bareFiles).1 =
        .error e) ∧
      (receiveFile {} (.of "a/../a") (.of [.data (bytes "DATA")])
        default bareFiles).2.2.2.tree.get? [bytes "a"] = some (.folder 0o755) := by
  have hprepare : prepareFolder (.of "a/../a") bareFiles =
      (.ok (), bareFiles.commit (.create [bytes "a"] (.folder 0o755))) := by cbv
  have hplace : destination (.of "a/../a") bareFiles = .ok [bytes "a"] := by cbv
  have hslot : (bareFiles.commit (.create [bytes "a"] (.folder 0o755))).slotOf
      (.of "a/../a") .busy = .ok [bytes "a"] := by cbv
  have hfolder : (bareFiles.commit (.create [bytes "a"] (.folder 0o755))).tree.get? [bytes "a"] =
      some (.folder 0o755) := Tree.get?_put_self ..
  obtain ⟨hfails, hkept⟩ := receive_onto_folder {} (.of [.data (bytes "DATA")]) default
    (by decide) hprepare hslot hfolder
  exact ⟨bareFiles_wellFormed, hplace, by decide, hfails, (hkept _).trans hfolder⟩

end Courier.Transfer
