import Courier.Proofs.Atomic
import Courier.Proofs.Delivery
import Courier.Proofs.Effects
import Courier.Proofs.Limits

/-!
# When a receive succeeds

A receive gets a folder ready, stages a file, and gives it the name of the destination. Where the
file system lets it do so and the destination is not taken by a folder, whatever is delivered ends
up at the destination. For a served location it is enough that a file can be staged there: the
folder that takes the staged file takes the destination, too, whose name is shorter.

Main results:

* `Transfer.Admits` — what a receive needs of the file system.
* `Transfer.receiveFile_of_delivers` — then it receives what is delivered.
* `Transfer.admits_of_served` — what it needs at a served location.
-/

namespace Courier

open Files

namespace Files

variable {fs fs' : Files}

/-! ## Renaming -/

/-- A file takes the place of another one, or a place where nothing is. -/
theorem rename_of_slots {source target : Path} {folder folder' : Location} {name name' : Name}
    {e : Entry} (hsource : fs.Slot source folder name) (htarget : fs.Slot target folder' name')
    (hthere : fs.tree.get? (folder ++ [name]) = some e)
    (hslash : target.text.getLast? ≠ some Path.slash)
    (hfree : ∀ mode, fs.tree.get? (folder' ++ [name']) ≠ some (.folder mode)) :
    fs.rename source target =
      (.ok (), fs.commit (.move (folder ++ [name]) (folder' ++ [name']))) := by
  have hnot : ((fs.tree.get? (folder' ++ [name'])).map Entry.isFolder).getD false = false := by
    cases hentry : fs.tree.get? (folder' ++ [name']) with
    | none => rfl
    | some e' =>
      cases e' with
      | folder mode => exact absurd hentry (hfree mode)
      | file => rfl
      | link => rfl
  have hplain : (Route.ofPath fs.here target).slashAtEnd = false := decide_eq_false hslash
  simp [rename, hsource.slotOf, htarget.slotOf, htarget.route, entryAt, hthere, hplain, hnot, bind,
    Except.bind]

/-! ## Slots side by side -/

/-- The path of a location is written without `..`. -/
theorem up_notMem_parts_pathOf {l : Location} (hl : ProperLocation l) : .up ∉ (pathOf l).parts := by
  -- from the end, as a path is made longer there
  induction l using List.reverseRecOn with
  | nil => decide
  | append_singleton l n ih =>
    rw [Path.parts, placedParts_pathOf_concat hl, List.map_append, List.mem_append]
    rintro (hup | hup)
    · exact ih hl.of_append_left hup
    · simp at hup

/-- Where a path ends in a name, one that ends in a shorter name can be used, too. -/
theorem Slot.beside {k : Location} {m n : Name} (hm : ProperLocation (k ++ [m]))
    (hn : ProperLocation (k ++ [n])) (hlength : n.length ≤ m.length) (hmem : ∀ c ∈ n, c ∈ m)
    (h : fs.Slot (pathOf (k ++ [m])) k m) : fs.Slot (pathOf (k ++ [n])) k n := by
  have hroute := h.route
  obtain ⟨left, hwalk⟩ := h.walked
  rw [ofPath_pathOf_concat hm, steps_pathOf hm, List.dropLast_concat] at hwalk
  constructor
  case route =>
    -- the text of the path has no stray octet and is not too long
    obtain ⟨hstray, -, hlong, -⟩ := route?_eq_ok_iff.mp hroute
    refine route?_eq_ok_iff.mpr ⟨?_, text_pathOf_ne_nil _, ?_, rfl⟩
    · simp only [pathOf_concat, List.mem_append, List.mem_cons, not_or] at hstray ⊢
      exact ⟨hstray.1, hstray.2.1, fun h0 => hstray.2.2 (hmem 0 h0)⟩
    · simp only [pathOf_concat, List.length_append, List.length_cons] at hlong ⊢
      omega
  case last =>
    rw [ofPath_pathOf_concat hn]
    exact Route.lastName?_concat hn.last
  case walked =>
    rw [ofPath_pathOf_concat hn, steps_pathOf hn, List.dropLast_concat]
    exact ⟨left, hwalk⟩
  case isFolder => exact h.isFolder
  case short => exact Nat.le_trans hlength h.short

end Files

namespace Transfer

variable {fs fs' : Files} {dest : Path}

/-- The file system lets a file of so many octets be received at `place`: the folder gets ready, a
file is staged in it and gets to the disk, and no folder is in the way. -/
structure Admits (dest : Path) (size : Nat) (fs : Files) (place : Location) : Prop where
  stageable : Stageable dest fs
  fits : ∀ limit, fs.sizeLimit = some limit → size ≤ limit
  synced : fs.sync.1 = .ok ()
  found : destination dest fs = .ok place
  free : ∀ mode, (prepareFolder dest fs).2.tree.get? place ≠ some (.folder mode)
  plain : dest.text.getLast? ≠ some Path.slash

/-- Whatever has been written to a staged file, it can take the name of the destination. -/
theorem Admits.rename {size : Nat} {place : Location} {prepared : Files} {staged : Staged}
    {pieces : List Bytes} {content : Bytes} (h : Admits dest size fs place)
    (hprepare : prepareFolder dest fs = (.ok (), prepared))
    (hwritten : Written dest prepared staged pieces content fs') :
    fs'.rename staged.path dest = (.ok (), fs'.commit (.move staged.handle.location place)) := by
  have hfound := h.found
  have hfree := h.free
  rw [destination, hprepare] at hfound
  rw [hprepare] at hfree
  obtain ⟨folder, name, hslot, rfl⟩ := slot_of_slotOf hfound
  obtain ⟨folder', name', hslot', hlocation⟩ := hwritten.slot
  have hthere := hwritten.holds
  rw [Holds, hlocation] at hthere
  rw [hlocation]
  refine rename_of_slots hslot' (hslot.mono hwritten.evolves.here hwritten.filesOnly.shown)
    hthere h.plain fun mode hmode => ?_
  -- nothing but the staged file is new
  obtain ⟨mode', hmode'⟩ := Tree.shape_eq_folder.mp
    (hwritten.filesOnly.old (Tree.shape_of_get? hmode) (by simp))
  exact hfree mode' hmode'

/-- A destination that can be found is not empty. -/
theorem Admits.nonempty {size : Nat} {place : Location} (h : Admits dest size fs place) :
    dest.isEmpty = false := by
  obtain ⟨folder, name, hslot, -⟩ := slot_of_slotOf h.found
  simpa [Path.isEmpty] using (route?_eq_ok hslot.route).2

/-- A receive that does not panic does not do so once it has staged its file. -/
theorem receiveRest_held {settings : Settings} {s : Inbound} {a : Ambient} {prepared fs₁ : Files}
    {staged : Staged} (hne : dest.isEmpty = false)
    (hprepare : prepareFolder dest fs = (.ok (), prepared))
    (hmake : Staged.make dest prepared = (.ok staged, fs₁))
    (hheld : (receiveFile settings dest s a fs).1 ≠ .error .panicked) :
    (receiveRest settings staged (Pace.begin settings.baseRate.toNat a.register.clock) s a.register
      fs₁).1 ≠ .error .panicked := by
  intro hpanicked
  refine hheld ?_
  unfold receiveFile receiveRegistered receiveStaged
  rw [if_neg (by simp [hne]), hprepare]
  dsimp only
  rw [hmake]
  dsimp only
  generalize receiveRest settings staged (Pace.begin settings.baseRate.toNat a.register.clock) s
    a.register fs₁ = received at hpanicked ⊢
  obtain ⟨r, t, b, fs₂⟩ := received
  cases hpanicked
  rfl

/-- **What is delivered is received**, where the file system admits it and the receive does not
panic. The file got its number after the receive began. -/
theorem receiveFile_of_delivers {settings : Settings} {octets : Bytes} {place : Location}
    (s : Inbound) (a : Ambient) (h : Admits dest octets.length fs place)
    (hd : Delivers (max 1 settings.maxRetries.toNat) 0 0 octets s.arrivals)
    (hheld : (receiveFile settings dest s a fs).1 ≠ .error .panicked) :
    ∃ serial elapsed t b fs', receiveFile settings dest s a fs =
        (.ok ⟨.receive, dest, octets.length, elapsed⟩, t, b, fs') ∧
      fs'.tree.get? place = some (.file 0o644 serial octets) ∧ fs.drawn ≤ serial := by
  obtain ⟨prepared, staged, fs₁, hprepare, hmake⟩ := h.stageable
  have hnumbers := numbers_prepareFolder dest fs
  rw [hprepare] at hnumbers
  obtain ⟨hdrawn, hdisk⟩ := Prod.mk.inj hnumbers
  have hserial : fs.drawn ≤ staged.handle.serial := hdrawn ▸ drawn_le_serial hmake
  have hdisk₁ : fs₁.disk = fs.disk := by
    have h := disk_make dest prepared
    rw [hmake] at h
    exact h.trans hdisk
  have hcreated : prepared.Created staged.path 0o644 staged.handle fs₁ := by
    rcases Staged.make_cases hmake with ⟨_, _, hr, -, hcreated⟩ | ⟨_, hr, -⟩
    · cases hr
      exact hcreated
    · cases hr
  -- all that is delivered gets into the staged file
  obtain ⟨pace, t, b, fs₂, hrest⟩ := receiveRest_of_delivers
    (Pace.begin settings.baseRate.toNat a.register.clock) s a.register fs₁ hcreated.holds hd
    (fun limit hl => by simpa using h.fits limit (sizeLimit_of_disk hdisk₁ ▸ hl))
    (receiveRest_held h.nonempty hprepare hmake hheld)
  have hdisk₂ : fs₂.disk = fs.disk := by
    have h := disk_receiveRest settings staged (Pace.begin settings.baseRate.toNat
      a.register.clock) s a.register fs₁
    rw [hrest] at h
    exact h.trans hdisk₁
  obtain ⟨pieces, content, hmore, hholds, hok⟩ := receiveRest_holds hcreated.holds hrest
  obtain ⟨hcontent, hmoved⟩ := hok pace rfl
  rw [show s.pending = octets from hd.pendingOf_eq] at hcontent hmoved
  have hwritten : Written dest prepared staged pieces content fs₂ :=
    ⟨⟨fs₁, hcreated⟩, hcreated.evolves.trans hmore, hholds⟩
  -- and the staged file, once it is on the disk, takes the place of the destination
  have hsync : fs₂.sync = (.ok (), fs₂.sync.2) :=
    Prod.ext ((sync_of_disk hdisk₂).1.trans h.synced) rfl
  have hrename := h.rename hprepare hwritten.sync
  have hne := h.nonempty
  refine ⟨staged.handle.serial, pace.elapsed b.clock, t, b.deregister,
    fs₂.sync.2.commit (.move staged.handle.location place), ?_, ?_, hserial⟩
  · have hsize : pace.moved = octets.length := hmoved.trans (Nat.zero_add _)
    have hpromote : promote staged dest fs₂ =
        (.ok (), fs₂.sync.2.commit (.move staged.handle.location place)) := by
      unfold promote
      rw [hsync]
      dsimp only
      rw [hrename]
    simp [receiveFile, receiveRegistered, receiveStaged, hne, hprepare, hmake, hrest, hpromote,
      hsize]
  · have hthere := hwritten.sync.holds
    rw [hcontent] at hthere
    exact Change.get?_move_target hthere

/-- **A served location admits what can be staged for it**, unless it is a folder. -/
theorem admits_of_served {d : Location} {size : Nat} (ht : fs.tree.WellFormed)
    (hproper : ProperLocation d) (hclear : fs.tree.Clear d)
    (hfree : ∀ mode, fs.tree.get? d ≠ some (.folder mode)) (hstage : Stageable (pathOf d) fs)
    (hfits : ∀ limit, fs.sizeLimit = some limit → size ≤ limit) (hsync : fs.sync.1 = .ok ()) :
    Admits (pathOf d) size fs d := by
  rcases List.eq_nil_or_concat d with rfl | ⟨k, n, rfl⟩
  · obtain ⟨mode, hmode⟩ := Tree.shape_eq_folder.mp ht.top
    exact absurd hmode (hfree mode)
  rw [List.concat_eq_append] at *
  obtain ⟨prepared, staged, fs₁, hprepare, hmake⟩ := hstage
  obtain ⟨made, hmade⟩ := prepareFolder_furnished hprepare
  -- the staged file lies in the folder above, and its name is longer
  have hslot : prepared.Slot (pathOf (k ++ [n])) k n := by
    rcases Staged.make_cases hmake with ⟨_, i, hr, hpath, hcreated⟩ | ⟨_, hr, -⟩
    · cases hr
      have hname := Staged.proper_name (pathOf (k ++ [n])) i
      have hstaged := hproper.of_append_left.concat hname
      have hlength := Staged.length_name (pathOf (k ++ [n])) i
      rw [fileName?_pathOf_concat hproper, Option.getD_some] at hlength
      obtain ⟨folder, name, hslot, -⟩ := hcreated.slot
      rw [hpath, Staged.folder, folder_pathOf_concat hproper,
        Path.join_of_isAbsolute (isAbsolute_pathOf k),
        child_pathOf hproper.of_append_left hname.noSlash] at hslot
      obtain ⟨rfl, rfl⟩ := slot_pathOf_concat hstaged
        (Tree.Clear.of_prefix (Session.clear_of_furnished hmade hclear) (List.prefix_append ..))
        hslot
      refine hslot.beside hstaged hproper (by omega) fun c hc => ?_
      simp [Staged.name, Staged.lead, fileName?_pathOf_concat hproper, hc]
    · cases hr
  constructor
  case stageable => exact ⟨prepared, staged, fs₁, hprepare, hmake⟩
  case fits => exact hfits
  case synced => exact hsync
  case found =>
    rw [destination, hprepare]
    exact hslot.slotOf .busy
  case free =>
    intro mode hmode
    rw [hprepare, hmade.get?,
      if_neg (slot_notMem_made ht hmade (up_notMem_parts_pathOf hproper) hslot)] at hmode
    exact hfree mode hmode
  case plain => exact getLast?_pathOf_concat hproper.last

/-- Whether a file can be staged can be computed. -/
theorem stageable_of_ok {prepared : Files}
    (hprepare : prepareFolder dest fs = (.ok (), prepared))
    (hmake : (Staged.make dest prepared).1.isOk = true) : Stageable dest fs := by
  cases hstaged : Staged.make dest prepared with
  | mk made fs' =>
    rw [hstaged] at hmake
    cases made with
    | error e => cases hmake
    | ok staged => exact ⟨prepared, staged, fs', hprepare, hstaged⟩

/-- A folder with nothing in it admits a file of any size. -/
theorem admits_bareFiles {size : Nat} : Admits (.of "copy") size bareFiles [bytes "copy"] where
  stageable := by
    have hprepare : prepareFolder (.of "copy") bareFiles = (.ok (), bareFiles) := by cbv
    exact stageable_of_ok hprepare (by cbv)
  fits := nofun
  synced := rfl
  found := by cbv
  free := by
    have hprepare : prepareFolder (.of "copy") bareFiles = (.ok (), bareFiles) := by cbv
    have h : bareFiles.tree.get? [bytes "copy"] = none := by decide
    simp [hprepare, h]
  plain := by decide

end Transfer

end Courier
