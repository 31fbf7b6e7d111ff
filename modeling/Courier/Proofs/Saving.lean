import Courier.Proofs.Admission
import Courier.Proofs.Journal
import Courier.Proofs.Layers
import Courier.Proofs.Parents
import Courier.Proofs.Sharing
import Courier.Settings.File

/-!
# Saved settings are loaded

Settings are written to a temporary file, which then takes the place of the settings file. What is
loaded from there is what was saved: the place is where the path leads, unless the path leads along
a symbolic link that stood at the place itself and has been replaced. A saving that fails leaves
nothing behind but folders that it has made on the way. A path without `..` leads nowhere before and
after them, so what is loaded is the same.

Main results:

* `Files.stat_of_furnished` — where folders were made above a path, nothing is at the path.
* `Settings.save_saves` — what a saving does to the files.
* `Settings.save_restores` — what is loaded after a saving, whether it succeeds or fails.
* `Settings.save_through_itself` — a saving that succeeds and is not loaded.
-/

namespace Courier

open Files
open Transfer (bareFiles bareFiles_wellFormed)

namespace Files

variable {fs fs' : Files} {p : Path} {l folder : Location} {name : Name} {e : Entry}

/-! ## Paths -/

/-- What is found at a path depends on the tree and the working folder. -/
theorem stat_of_get?_eq (hget : ∀ l, fs'.tree.get? l = fs.tree.get? l) (hhere : fs'.here = fs.here)
    (p : Path) : fs'.stat p = fs.stat p := by
  have hshape (l : Location) : fs'.tree.shape l = fs.tree.shape l := by
    rw [Tree.shape, hget, Tree.shape]
  have hend : fs'.endOf = fs.endOf := by
    funext r
    simp only [endOf, walk_of_shape_eq hshape, entryAt, hget]
  simp only [stat, route?, hhere, hend]

/-- A path that ends in a name and leads somewhere asks for that name in some folder. -/
theorem slot_of_stat (hlast : (Route.ofPath fs.here p).lastName? = some name)
    (hslash : (Route.ofPath fs.here p).slashAtEnd = false) (h : fs.stat p = .ok (l, e)) :
    ∃ folder, fs.Slot p folder name := by
  obtain ⟨hroute, ⟨left, hwalk⟩, -⟩ := stat_eq_ok h
  obtain ⟨hname, hproper⟩ := Path.proper_of_lastName? hlast
  have hall : (Route.ofPath fs.here p).allSteps = p.steps.dropLast ++ [name] := by
    obtain ⟨before, hbefore⟩ := List.getLast?_eq_some_iff.mp hname
    rw [Route.allSteps, hslash, hbefore, List.dropLast_concat, ← hbefore]
    rfl
  rw [hall] at hwalk
  -- the walk to the end has come by the folder, and has found a folder there
  cases hfront : walk fs.tree maxLinks (Route.ofPath fs.here p).start p.steps.dropLast with
  | error f =>
    rw [walk_append_eq, hfront] at hwalk
    cases hwalk
  | ok found =>
    obtain ⟨folder, links⟩ := found
    rw [walk_append hfront, walk] at hwalk
    split at hwalk
    · rename_i mode hmode
      simp only [hproper.notStay, hproper.notUp, Bool.false_eq_true, if_false] at hwalk
      split at hwalk
      · cases hwalk
      · rename_i hshort
        exact ⟨folder, hroute, hlast, ⟨links, hfront⟩, Tree.shape_eq_folder.mpr ⟨mode, hmode⟩,
          Nat.not_lt.mp hshort⟩
    · cases hwalk

/-- The place that a path asks for, taken apart. -/
theorem slot_of_slotOf_concat {f : Fault} (h : fs.slotOf p f = .ok (folder ++ [name])) :
    fs.Slot p folder name := by
  obtain ⟨folder', name', hslot, heq⟩ := slot_of_slotOf h
  obtain ⟨rfl, hname⟩ := List.append_inj' heq rfl
  obtain rfl : name = name' := by simpa using hname
  exact hslot

/-- The file at the slot of a path is what the path leads to. -/
theorem Slot.stat {mode serial : Nat} {content : Bytes} (h : fs.Slot p folder name)
    (hslash : (Route.ofPath fs.here p).slashAtEnd = false)
    (hfile : fs.tree.get? (folder ++ [name]) = some (.file mode serial content)) :
    fs.stat p = .ok (folder ++ [name], .file mode serial content) := by
  obtain ⟨left, hwalk⟩ := h.walked
  have happ := approach_eq_ok.mpr ⟨hwalk, h.isFolder⟩
  have hend := walk_last happ hslash h.last (Nat.not_lt.mpr h.short)
  rw [hfile] at hend
  exact stat_of_walk h.route hend hfile

/-- Nothing is moved to a path with a slash at its end. -/
theorem plain_of_rename {source target : Path}
    (h : fs.rename source target = (.ok (), fs')) :
    (Route.ofPath fs.here target).slashAtEnd = false := by
  rcases rename_cases h with ⟨old, new, -, hold, hnew, -, -⟩ | ⟨f, hr, -⟩
  · obtain ⟨folder, name, hslot, rfl⟩ := slot_of_slotOf hnew
    cases hslash : (Route.ofPath fs.here target).slashAtEnd with
    | false => rfl
    -- the slash is looked at before anything is moved
    | true =>
      simp only [rename, hold, hslot.route, hnew, hslash, bind, Except.bind, if_true] at h
      cases hentry : fs.entryAt old with
      | error f =>
        rw [hentry] at h
        cases h
      | ok found =>
        rw [hentry] at h
        cases h
  · cases hr

/-- What a path led to before folders were made it leads to after. -/
theorem Furnished.stat_eq {ps : List Path} {made : List Location} (h : Furnished ps fs made fs')
    (hstat : fs.stat p = .ok (l, e)) : fs'.stat p = .ok (l, e) := by
  obtain ⟨e', hstat'⟩ := stat_mono h.shown h.evolves.here hstat
  have hthere := (stat_eq_ok hstat).2.2
  have hentry := (stat_eq_ok hstat').2.2
  -- what was there is not one of the new folders
  have hl : l ∉ made := fun hl => by
    rw [h.fresh l hl] at hthere
    cases hthere
  rw [h.get?, if_neg hl, hthere] at hentry
  cases hentry
  exact hstat'

/-- A slash at the end of a path is one more step, and not one upwards. -/
theorem exists_allSteps (here : Location) (p : Path) : ∃ last,
    (Route.ofPath here p).allSteps = p.steps ++ last ∧ ∀ s ∈ last, isUp s = false := by
  unfold Route.allSteps
  split
  · exact ⟨_, rfl, by decide⟩
  · exact ⟨[], (List.append_nil _).symm, nofun⟩

/-- Behind a new folder above it, a path without `..` goes on, further down. -/
theorem Furnished.below_of_leads {made : List Location} (ht : fs.tree.WellFormed)
    (h : Furnished p.folder.lineage fs made fs') (hup : .up ∉ p.parts) {m : Location}
    (hm : m ∈ made)
    (hleads : Leads fs'.tree (Route.ofPath fs'.here p).start (Route.ofPath fs'.here p).allSteps l) :
    m <+: l ∧ m.length < l.length := by
  obtain ⟨q, hq, folder, name, hslot, rfl⟩ := h.named m hm
  obtain ⟨hlast, hproper⟩ := Path.proper_of_lastName? hslot.last
  obtain ⟨habs, -⟩ := Path.steps_of_mem_folder_lineage hq hlast hproper.notStay
  obtain ⟨more, hmore, step, hstep, hcount⟩ :=
    Path.counting_of_mem_folder_lineage hq hlast hproper.notStay
  have hstart : (Route.ofPath fs'.here q).start = (Route.ofPath fs'.here p).start := by
    simp [Route.ofPath, habs]
  obtain ⟨last, hall, hstays⟩ := exists_allSteps fs'.here p
  -- the path comes by the new folder
  have hthere := hslot.leads (Tree.shape_eq_folder.mpr ⟨_, by rw [h.get?, if_pos hm]⟩)
  rw [hall, hmore, List.append_assoc, ← hstart] at hleads
  obtain ⟨m, hm', hrest⟩ := leads_append.mp hleads
  obtain rfl := hm'.unique hthere
  -- and from there it takes a step that counts, and none upwards
  have hdown : ∀ s ∈ more ++ last, isUp s = false := by
    intro s hs
    rcases List.mem_append.mp hs with hs | hs
    · cases hs' : isUp s with
      | false => rfl
      | true => exact absurd (Path.up_mem_parts (hmore ▸ List.mem_append_right _ hs) hs') hup
    · exact hstays s hs
  have hlinks := h.not_link_below ht hm
  exact ⟨hrest.stays_below hdown hlinks,
    hrest.goes_below hdown hlinks ⟨step, List.mem_append_left _ hstep, hcount⟩⟩

/-- **Above a path that leads somewhere no folder was missing**, unless it is written with `..`. -/
theorem stat_of_furnished {made : List Location} (ht : fs.tree.WellFormed)
    (h : Furnished p.folder.lineage fs made fs') (hup : .up ∉ p.parts) {m : Location}
    (hm : m ∈ made) : fs'.stat p ≠ .ok (l, e) := by
  intro hstat
  obtain ⟨-, ⟨left, hwalk⟩, he⟩ := stat_eq_ok hstat
  have hleads := leads_of_walk hwalk
  -- where the path ends there is a new folder, too, and the path would go on behind that
  have hl : l ∈ made := by
    obtain ⟨k, rfl⟩ := (h.below_of_leads ht hup hm hleads).1
    have hmissing := ht.shape_append_eq_none (k := k) (Tree.shape_eq_none.mpr (h.fresh m hm))
    refine Classical.byContradiction fun hnot => ?_
    rw [h.get?, if_neg hnot, Tree.shape_eq_none.mp hmissing] at he
    cases he
  exact Nat.lt_irrefl _ (h.below_of_leads ht hup hl hleads).2

end Files

namespace Settings

variable {s : Settings} {path : Path} {fs fs' : Files} {l : Location}

/-! ## Loading -/

/-- What is loaded depends on what is found at the path. -/
theorem load_of_stat_eq (h : fs'.stat path = fs.stat path) : load fs' path = load fs path := by
  have hexists : fs'.existsAt path = fs.existsAt path := by rw [existsAt, h, existsAt]
  have hread : fs'.read path = fs.read path := by unfold Files.read; rw [h]
  rw [load, hexists, hread, load]

/-- A file that is missing stands for the defaults. -/
theorem load_of_missing (h : ∀ l e, fs.stat path ≠ .ok (l, e)) : load fs path = .ok {} := by
  have hmissing : fs.existsAt path = false := by
    rw [existsAt]
    cases hstat : fs.stat path with
    | error f => rfl
    | ok found => exact absurd hstat (h found.1 found.2)
  rw [load, hmissing]
  rfl

/-- Where the text of settings is, they are loaded, if a program may run with them. -/
theorem load_of_text {mode serial : Nat} {text : List Char}
    (hstat : fs.stat path = .ok (l, .file mode serial (Utf8.encodeChars text)))
    (htext : s.render? = some text) (hflaw : s.flaw? = none) : load fs path = .ok s := by
  have hthere : fs.existsAt path = true := by
    rw [existsAt, hstat]
    rfl
  have hread : fs.read path = .ok (Utf8.encodeChars text) := by
    rw [Files.read, hstat]
  rw [load, hthere, hread]
  simp only [if_true, ofContent, Utf8.decode?_encodeChars, String.toList_ofList,
    parse_render htext, validated, hflaw]

/-! ## Temporary files -/

/-- A temporary file has been made among the files `prepared`, and written to. -/
structure Drafted (prepared : Files) (temporary : Path) (handle : FileHandle) (content : Bytes)
    (fs : Files) : Prop where
  slot : ∃ folder name, fs.Slot temporary folder name ∧ handle.location = folder ++ [name]
  fresh : prepared.tree.get? handle.location = none
  holds : fs.Holds handle 0o600 content
  here : fs.here = prepared.here
  others : ∀ l, l ≠ handle.location → fs.tree.get? l = prepared.tree.get? l

namespace Drafted

variable {prepared : Files} {temporary : Path} {handle : FileHandle} {content : Bytes}

/-- A temporary file that has just been made is empty. -/
theorem begin (h : prepared.Created temporary 0o600 handle fs) :
    Drafted prepared temporary handle [] fs where
  slot := by
    obtain ⟨folder, name, hslot, hlocation⟩ := h.slot
    exact ⟨folder, name, h.spares.slots _ _ _ hslot, hlocation⟩
  fresh := h.fresh
  holds := h.holds
  here := h.spares.here
  others := fun l hl => h.spares.others l (by simpa using hl)

/-- What is written to a temporary file comes after what it holds, even if the write fails half
way. -/
theorem append (h : Drafted prepared temporary handle content fs) {octets : Bytes}
    {r : Except Fault Unit} (happend : fs.append handle octets = (r, fs')) :
    ∃ written, Drafted prepared temporary handle (content ++ written) fs' ∧
      (r = .ok () → written = octets) := by
  obtain ⟨written, rfl, hholds, -, hall⟩ := append_cases h.holds happend
  have hspares : fs.Spares _ _ := spares_append handle written
  obtain ⟨folder, name, hslot, hlocation⟩ := h.slot
  refine ⟨written, ⟨⟨folder, name, hspares.slots _ _ _ hslot, hlocation⟩, h.fresh, hholds,
    h.here, fun l hl => ?_⟩, hall⟩
  rw [hspares.others l (by simpa using hl), h.others l hl]

/-- But for the temporary file, nothing is new. -/
theorem filesOnly (h : Drafted prepared temporary handle content fs) :
    prepared.tree.FilesOnly fs.tree :=
  Tree.filesOnly_of_file h.fresh h.holds h.others

/-- Once it is removed, everything is as it was before. -/
theorem remove (h : Drafted prepared temporary handle content fs) :
    (fs.remove temporary).2.here = prepared.here ∧
      ∀ l, (fs.remove temporary).2.tree.get? l = prepared.tree.get? l := by
  obtain ⟨folder, name, hslot, hlocation⟩ := h.slot
  have hfile := h.holds
  rw [Holds, hlocation] at hfile
  rw [remove_of_slot hslot hfile, ← hlocation]
  refine ⟨h.here, fun l => ?_⟩
  by_cases hl : l = handle.location
  · rw [hl, h.fresh]
    exact Tree.get?_remove_self ..
  · rw [← h.others l hl]
    exact Tree.get?_remove_of_ne _ hl

/-- It takes the place of what a path asks for, or nothing happens. -/
theorem rename (h : Drafted prepared temporary handle content fs) {r : Except Fault Unit}
    (hrename : fs.rename temporary path = (r, fs')) :
    (∃ folder name, r = .ok () ∧ prepared.Slot path folder name ∧
      (Route.ofPath prepared.here path).slashAtEnd = false ∧
      (∀ mode, prepared.tree.get? (folder ++ [name]) ≠ some (.folder mode)) ∧
      fs'.here = prepared.here ∧
      fs'.tree.get? (folder ++ [name]) = some (.file 0o600 handle.serial content) ∧
      ∀ l, l ≠ folder ++ [name] → fs'.tree.get? l = prepared.tree.get? l) ∨
    ∃ f, r = .error f ∧ fs' = fs := by
  rcases rename_cases hrename with ⟨old, new, rfl, hold, hnew, hfree, rfl⟩ | hfailed
  · -- what is moved is the temporary file
    obtain ⟨_, _, hsource, hlocation⟩ := h.slot
    have hsource' := hsource.slotOf .busy
    rw [← hlocation] at hsource'
    obtain rfl := Except.ok.inj (hsource'.symm.trans hold)
    obtain ⟨folder, name, hslot, rfl⟩ := slot_of_slotOf hnew
    have hplain := plain_of_rename hrename
    rw [h.here] at hplain
    refine .inl ⟨folder, name, rfl, hslot.anti h.here h.filesOnly, hplain, fun mode hmode => ?_,
      h.here, Change.get?_move_target h.holds, fun l hl => ?_⟩
    · obtain ⟨mode', hmode'⟩ := Tree.shape_eq_folder.mp
        (h.filesOnly.shown _ _ (Tree.shape_of_get? hmode))
      exact hfree mode' hmode'
    by_cases htemporary : l = handle.location
    · -- the place that it leaves is as empty as it was
      rw [htemporary, h.fresh]
      exact Change.get?_move_source h.holds (htemporary ▸ hl)
    · rw [← h.others l htemporary]
      exact Change.get?_apply_of_notMem _ (by simp [Change.touched, hl, htemporary])
  · exact .inr hfailed

end Drafted

/-! ## What a saving does -/

/-- The files once the folder above a path has been made. -/
def ready (path : Path) (fs : Files) : Files :=
  (fs.makeFolders path.folder).2

/-- To make the folder ready is to make folders. -/
theorem ready_furnished (path : Path) (fs : Files) :
    ∃ made, Furnished path.folder.lineage fs made (ready path fs) :=
  makeLineage_furnished (Prod.eta (makeLineage path.folder.lineage fs)).symm

/-- The temporary file that a saving makes. -/
def temporaryFile (path : Path) (fs : Files) :
    Except (Fault × Path) (Path × FileHandle) × Files :=
  createUnique ((pathOf fs.here).join path.folder) temporaryLead [] 0o600 fs.draws fs

/-- The text of settings, as it is written to a file. -/
def octets (s : Settings) : Bytes :=
  Utf8.encodeChars (s.fields.flatMap fun (key, n) => line key n)

/-- The text of a setting, encoded, is what is written. -/
theorem octets_of_render? {text : List Char} (h : s.render? = some text) :
    Utf8.encodeChars text = s.octets := by
  rw [(render?_eq_some h).2, octets]

/-- The error of a saving still holds a temporary file at a location where nothing was, with the
whole text of the settings. -/
structure Held (s : Settings) (before : Files) (e : SaveError) (fs' : Files) (l : Location) :
    Prop where
  error : ∃ temporary f, e = .notPersisted temporary f ∧
    fs'.slotOf temporary .isADirectory = .ok l
  fresh : before.tree.get? l = none
  file : ∃ serial, fs'.tree.get? l = some (.file 0o600 serial s.octets)

/-- What comes of a saving in a folder that is ready: either nothing has changed once the error is
dropped, and before that nothing but the temporary file that it holds; or the text of the settings
has taken the place of what was there, and nothing else has changed. -/
inductive Saves (s : Settings) (path : Path) (prepared : Files) :
    Except SaveError Unit → Files → Prop where
  | failed {e : SaveError} {fs' : Files} (here : (e.drop fs').here = prepared.here)
      (same : ∀ l, (e.drop fs').tree.get? l = prepared.tree.get? l)
      (held : ∀ l, fs'.tree.get? l = prepared.tree.get? l ∨ Held s prepared e fs' l) :
      Saves s path prepared (.error e) fs'
  | replaced {folder : Location} {name : Name} {text : List Char} {serial : Nat} {fs' : Files}
      (htext : s.render? = some text) (slot : prepared.Slot path folder name)
      (plain : (Route.ofPath prepared.here path).slashAtEnd = false)
      (free : ∀ mode, prepared.tree.get? (folder ++ [name]) ≠ some (.folder mode))
      (here : fs'.here = prepared.here)
      (file : fs'.tree.get? (folder ++ [name]) =
        some (.file 0o600 serial (Utf8.encodeChars text)))
      (others : ∀ l, l ≠ folder ++ [name] → fs'.tree.get? l = prepared.tree.get? l) :
      Saves s path prepared (.ok ()) fs'

/-- A saving that fails before its file is complete leaves nothing to drop. -/
theorem Saves.of_same {prepared : Files} {e : SaveError} (hdrop : e.drop fs' = fs')
    (hhere : fs'.here = prepared.here) (hsame : ∀ l, fs'.tree.get? l = prepared.tree.get? l) :
    Saves s path prepared (.error e) fs' :=
  .failed (hdrop.symm ▸ hhere) (hdrop.symm ▸ hsame) fun l => .inl (hsame l)

/-- The file that could not be renamed is held by the error, and goes with it. -/
theorem Saves.of_drafted {prepared : Files} {temporary : Path} {handle : FileHandle}
    (h : Drafted prepared temporary handle s.octets fs) (f : Fault) :
    Saves s path prepared (.error (.notPersisted temporary f)) fs := by
  refine .failed h.remove.1 h.remove.2 fun l => ?_
  by_cases hl : l = handle.location
  · obtain ⟨folder, name, hslot, hlocation⟩ := h.slot
    subst hl
    exact .inr ⟨⟨temporary, f, rfl, hlocation ▸ hslot.slotOf .isADirectory⟩, h.fresh, _, h.holds⟩
  · exact .inl (h.others l hl)

/-- **A saving puts its file in place or changes nothing**, once the folder is ready and its error
has been dropped. -/
theorem save_saves (s : Settings) (path : Path) (fs : Files) :
    Saves s path (ready path fs) (s.save path fs).1 (s.save path fs).2 := by
  unfold save
  rw [← ready]
  cases htext : s.render? with
  | none => exact .of_same rfl rfl fun _ => rfl
  | some text =>
    dsimp only
    rw [← temporaryFile]
    cases hmake : temporaryFile path (ready path fs) with
    | mk made fs₁ =>
      rcases createUnique_cases hmake with ⟨n, handle, rfl, hcreated⟩ | ⟨e, rfl, hevolves⟩
      · dsimp only
        cases happend : fs₁.append handle (Utf8.encodeChars text) with
        | mk appended fs₂ =>
          obtain ⟨written, hdrafted, hall⟩ := (Drafted.begin hcreated).append happend
          cases appended with
          -- what was written of the text is removed again
          | error f => exact .of_same rfl hdrafted.remove.1 hdrafted.remove.2
          | ok =>
            obtain rfl := hall rfl
            dsimp only
            -- what counts of the path is that the file is found by it
            generalize htemporary : Path.child _ _ = temporary at hdrafted
            cases hrename : fs₂.rename temporary path with
            | mk renamed fs₃ =>
              rcases hdrafted.rename hrename with
                ⟨folder, name, rfl, hslot, hplain, hfree, hhere, hfile, hothers⟩ | ⟨f, rfl, rfl⟩
              · exact .replaced htext hslot hplain hfree hhere hfile hothers
              · rw [octets_of_render? htext, List.nil_append] at hdrafted
                exact .of_drafted hdrafted f
      · exact .of_same rfl hevolves.here fun l => by rw [hevolves.tree]; rfl

/-! ## When it succeeds -/

/-- Where a path leads, once the folder above it has been made. -/
def place (path : Path) (fs : Files) : Except Fault Location :=
  (ready path fs).slotOf path .busy

/-- A file of so many octets can be put at a path: a temporary file can be made in the folder and
is not cut by a limit, and its new name is not that of a folder. -/
structure Writable (path : Path) (size : Nat) (fs : Files) : Prop where
  stageable : ∃ made fs₁, temporaryFile path (ready path fs) = (.ok made, fs₁)
  room : fs.Room size
  free : ∃ l, place path fs = .ok l ∧ ∀ mode, (ready path fs).tree.get? l ≠ some (.folder mode)
  plain : path.text.getLast? ≠ some Path.slash

/-- Values that the format can hold are written. -/
theorem render?_of_small (h : ∀ e ∈ s.fields, e.2 ≤ 0x7FFFFFFFFFFFFFFF) :
    ∃ text, s.render? = some text := by
  have hall : (s.fields.all fun (_, n) => n ≤ tomlLimit) = true := by
    rw [List.all_eq_true]
    exact fun e he => decide_eq_true (h e he)
  exact ⟨_, if_pos hall⟩

/-- One value that it cannot hold is enough for nothing to be written. -/
theorem render?_of_large {e : String × Nat} (he : e ∈ s.fields)
    (hlarge : 0x7FFFFFFFFFFFFFFF < e.2) : s.render? = none := by
  refine if_neg fun hall => ?_
  have hle : e.2 ≤ tomlLimit := by simpa using List.all_eq_true.mp hall e he
  exact Nat.not_le.mpr hlarge hle

/-- **At a writable place a saving succeeds**, if TOML can hold the numbers. -/
theorem save_of_writable {text : List Char} (htext : s.render? = some text)
    (h : Writable path s.octets.length fs) : (s.save path fs).1 = .ok () := by
  obtain ⟨⟨temporary, handle⟩, fs₁, hmake⟩ := h.stageable
  have hcreated : (ready path fs).Created temporary 0o600 handle fs₁ := by
    rcases createUnique_cases hmake with ⟨_, _, hr, hcreated⟩ | ⟨_, hr, -⟩
    · cases hr
      exact hcreated
    · cases hr
  have hdrafted := Drafted.begin hcreated
  -- the text fits into the temporary file
  have hlimit : fs₁.sizeLimit = fs.sizeLimit :=
    sizeLimit_of_disk <| (createUnique_eq hmake).1.trans
      (congrArg Prod.snd (numbers_makeLineage path.folder.lineage fs))
  obtain ⟨fs₂, happend⟩ : ∃ fs₂, fs₁.append handle s.octets = (.ok (), fs₂) :=
    ⟨_, append_of_fits s.octets hdrafted.holds fun limit hl => by
      rw [List.length_nil, Nat.zero_add]
      exact h.room limit (hlimit ▸ hl)⟩
  obtain ⟨written, hwritten, -⟩ := hdrafted.append happend
  -- and nothing is in the way of the new name
  obtain ⟨l, hplace, hfree⟩ := h.free
  obtain ⟨folder, name, hslot, rfl⟩ := slot_of_slotOf hplace
  obtain ⟨folder', name', hslot', hlocation⟩ := hwritten.slot
  have hthere := hwritten.holds
  rw [Holds, hlocation] at hthere
  have hrename := rename_of_slots hslot' (hslot.mono hwritten.here hwritten.filesOnly.shown) hthere
    h.plain fun mode hmode => by
      obtain ⟨mode', hmode'⟩ := Tree.shape_eq_folder.mp
        (hwritten.filesOnly.old (Tree.shape_of_get? hmode) (by simp))
      exact hfree mode' hmode'
  unfold save
  rw [← ready, htext]
  dsimp only
  rw [← temporaryFile, hmake]
  dsimp only
  rw [octets_of_render? htext, happend]
  dsimp only
  rw [hrename]

/-! ## What is loaded afterwards -/

/-- The path leads along a symbolic link that is at the place of the path itself: without the link
it does not lead there. -/
def ThroughItself (path : Path) (fs : Files) : Prop :=
  ∃ l target, place path fs = .ok l ∧ (ready path fs).tree.get? l = some (.link target) ∧
    ((ready path fs).without l).slotOf path .busy ≠ .ok l

/-- A folder that was not there before and is the place of a path above the file. -/
structure MadeAbove (path : Path) (fs : Files) (t : Tree) (l : Location) : Prop where
  missing : fs.tree.get? l = none
  made : t.get? l = some (.folder 0o755)
  above : ∃ p ∈ path.folder.lineage, (ready path fs).slotOf p .alreadyThere = .ok l

/-- What comes of saving `s` at a path. -/
structure Saved (s : Settings) (path : Path) (fs : Files) (result : Except SaveError Unit)
    (fs' : Files) : Prop where
  /-- A place that is found before anything is made is meant. -/
  found : ∀ l, fs.slotOf path .busy = .ok l → place path fs = .ok l
  /-- What was saved is loaded, unless the saving has cut off the path. -/
  restored : result = .ok () → ¬ ThroughItself path fs → load fs' path = .ok s
  cutOff : result = .ok () → ThroughItself path fs → load fs' path = .ok {}
  /-- Elsewhere a saving makes folders at most. -/
  elsewhere : result = .ok () → ∃ l, place path fs = .ok l ∧
    ∀ m, m ≠ l → fs'.tree.get? m = fs.tree.get? m ∨ MadeAbove path fs fs'.tree m
  succeeds : (∀ e ∈ s.fields, e.2 ≤ 0x7FFFFFFFFFFFFFFF) → Writable path s.octets.length fs →
    result = .ok ()
  tooLarge : (∃ e ∈ s.fields, 0x7FFFFFFFFFFFFFFF < e.2) → result = .error .tooLarge
  /-- While the error of a saving is held, the temporary file of a failed renaming may still be
  there beside what is left when it is dropped. -/
  held : ∀ e, result = .error e →
    ∀ l, fs'.tree.get? l = (e.drop fs').tree.get? l ∨ Held s fs e fs' l
  /-- A saving that fails leaves new folders behind, and no file once its error is dropped. -/
  kept : ∀ e, result = .error e →
    ∀ l, (e.drop fs').tree.get? l = fs.tree.get? l ∨ MadeAbove path fs (e.drop fs').tree l
  /-- What was at the place is still there, but that nothing may have become a new folder. -/
  untouched : ∀ e, result = .error e → ∀ l, place path fs = .ok l →
    (e.drop fs').tree.get? l = fs.tree.get? l ∨
      (.up ∈ path.parts ∧ MadeAbove path fs (e.drop fs').tree l)
  /-- What is loaded is the same, but that a path that led nowhere may lead on through a new
  folder. -/
  reloaded : ∀ e, result = .error e → load (e.drop fs') path = load fs path ∨
    (.up ∈ path.parts ∧ fs.existsAt path = false ∧ ∃ l, MadeAbove path fs (e.drop fs').tree l)

/-- The link at the place of a path may be taken away, if the path does not lead through itself. -/
theorem slot_without {folder : Location} {name : Name}
    (hslot : (ready path fs).Slot path folder name)
    (hfree : ∀ mode, (ready path fs).tree.get? (folder ++ [name]) ≠ some (.folder mode))
    (h : ¬ ThroughItself path fs) :
    ((ready path fs).without (folder ++ [name])).Slot path folder name := by
  by_cases hlink : ∃ target,
      (ready path fs).tree.get? (folder ++ [name]) = some (.link target)
  · obtain ⟨target, hlink⟩ := hlink
    -- a link may be on the way to its own folder, but then the path leads through itself
    have hstays : ((ready path fs).without (folder ++ [name])).slotOf path .busy =
        .ok (folder ++ [name]) := Classical.byContradiction fun hgone =>
      h ⟨_, target, hslot.slotOf .busy, hlink, hgone⟩
    exact slot_of_slotOf_concat hstays
  · refine hslot.without_file fun shape hshape => ?_
    cases shape with
    | file => rfl
    | folder =>
      obtain ⟨mode, hmode⟩ := Tree.shape_eq_folder.mp hshape
      exact absurd hmode (hfree mode)
    | link target => exact absurd ⟨target, Tree.shape_eq_link.mp hshape⟩ hlink

/-- A file put in a place is all that is new to what was left without the place. -/
theorem filesOnly_without {prepared : Files} {mode serial : Nat} {content : Bytes}
    (hfile : fs'.tree.get? l = some (.file mode serial content))
    (hothers : ∀ m, m ≠ l → fs'.tree.get? m = prepared.tree.get? m) :
    (prepared.without l).tree.FilesOnly fs'.tree :=
  Tree.filesOnly_of_file (Tree.get?_remove_self ..) hfile fun m hm =>
    (hothers m hm).trans (Tree.get?_remove_of_ne _ hm).symm

/-- What was saved is loaded. -/
theorem load_of_replaced (hsaves : Saves s path (ready path fs) (.ok ()) fs')
    (hflaw : s.flaw? = none) (h : ¬ ThroughItself path fs) : load fs' path = .ok s := by
  cases hsaves with
  | replaced htext slot plain free here file others =>
    have hslot := (slot_without slot free h).mono here (filesOnly_without file others).shown
    exact load_of_text (hslot.stat (here ▸ plain) file) htext hflaw

/-- Where the path led along what has been replaced, it leads nowhere any more. -/
theorem load_of_cutOff (hsaves : Saves s path (ready path fs) (.ok ()) fs')
    (h : ThroughItself path fs) : load fs' path = .ok {} := by
  obtain ⟨l, target, hplace, -, hgone⟩ := h
  cases hsaves with
  | @replaced folder name text serial _ htext slot plain free here file others =>
    obtain rfl := Except.ok.inj (hplace.symm.trans (slot.slotOf .busy))
    -- if anything were found now, the path would lead to the place without the link
    refine load_of_missing fun m e hstat => hgone ?_
    obtain ⟨folder', hslot⟩ := slot_of_stat (here ▸ slot.last) (here ▸ plain) hstat
    have hwithout : ((ready path fs).without (folder ++ [name])).Slot path folder' name :=
      hslot.anti here (filesOnly_without file others)
    have hready : (ready path fs).Slot path folder' name :=
      hwithout.mono rfl (Change.shownBy_remove _ _)
    obtain ⟨rfl, -⟩ := hready.unique slot
    exact hwithout.slotOf .busy

section Failed

variable {made : List Location} (hmade : Furnished path.folder.lineage fs made (ready path fs))

include hmade

/-- A folder that was made is one above the path, which was not there. -/
theorem madeAbove_of_mem {t : Tree} (hl : l ∈ made)
    (hget : t.get? l = (ready path fs).tree.get? l) : MadeAbove path fs t l := by
  obtain ⟨p, hp, folder, name, hslot, rfl⟩ := hmade.named l hl
  exact ⟨hmade.fresh _ hl, by rw [hget, hmade.get?, if_pos hl], p, hp, hslot.slotOf .alreadyThere⟩

/-- What has not changed since the folders were made is as it was before, but for them. -/
theorem same_or_madeAbove {t : Tree} (hget : t.get? l = (ready path fs).tree.get? l) :
    t.get? l = fs.tree.get? l ∨ MadeAbove path fs t l := by
  by_cases hl : l ∈ made
  · exact .inr (madeAbove_of_mem hmade hl hget)
  · exact .inl (by rw [hget, hmade.get?, if_neg hl])

variable (ht : fs.tree.WellFormed)
  (hsame : ∀ l, fs'.tree.get? l = (ready path fs).tree.get? l)

include ht hsame

/-- After a failure the place of the file is as it was, or it is one of the new folders. -/
theorem untouched_of_failed (hplace : place path fs = .ok l) :
    fs'.tree.get? l = fs.tree.get? l ∨ (.up ∈ path.parts ∧ MadeAbove path fs fs'.tree l) := by
  obtain ⟨folder, name, hslot, rfl⟩ := slot_of_slotOf hplace
  by_cases hl : folder ++ [name] ∈ made
  · have hup : .up ∈ path.parts := Classical.byContradiction fun hup =>
      Transfer.slot_notMem_made ht hmade hup hslot hl
    exact .inr ⟨hup, madeAbove_of_mem hmade hl (hsame _)⟩
  · exact .inl (by rw [hsame, hmade.get?, if_neg hl])

/-- After a failure the path loads as it did, or `..` in it leads through a new folder. -/
theorem reloaded_of_failed (hhere : fs'.here = (ready path fs).here) :
    load fs' path = load fs path ∨
      (.up ∈ path.parts ∧ fs.existsAt path = false ∧ ∃ l, MadeAbove path fs fs'.tree l) := by
  have hready : fs'.stat path = (ready path fs).stat path := stat_of_get?_eq hsame hhere path
  cases hstat : fs.stat path with
  -- what was found is none of the new folders
  | ok found =>
    have hprepared := hmade.stat_eq (l := found.1) (e := found.2) hstat
    exact .inl (load_of_stat_eq (hready.trans (hprepared.trans hstat.symm)))
  | error f =>
    cases made with
    | nil =>
      -- without a new folder nothing has changed
      have hprepared : (ready path fs).stat path = fs.stat path :=
        stat_of_get?_eq (fun l => by rw [hmade.get?, if_neg (by simp)]) hmade.evolves.here path
      exact .inl (load_of_stat_eq (hready.trans hprepared))
    | cons m made =>
      have hm : m ∈ m :: made := List.mem_cons_self ..
      by_cases hup : .up ∈ path.parts
      · have hmissing : fs.existsAt path = false := by
          rw [existsAt, hstat]
          rfl
        exact .inr ⟨hup, hmissing, m, madeAbove_of_mem hmade hm (hsame m)⟩
      · -- with one, there is nothing at the path, neither before nor after
        have hafter := load_of_missing fun l e hfound =>
          stat_of_furnished ht hmade hup hm (hready.symm.trans hfound)
        have hbefore : load fs path = .ok {} := load_of_missing fun l e hfound => by
          rw [hstat] at hfound
          cases hfound
        exact .inl (hafter.trans hbefore.symm)

end Failed

/-- **Saved settings are loaded, and a saving that fails changes nothing.** What is loaded after a
saving that succeeds is what was saved, unless the path leads along the link that was replaced. It
succeeds where a file may be written, if TOML can hold the numbers. One that fails leaves no more
than new folders behind once its error is dropped, and what was at the place is still there and
loaded, but that a path written with `..` may lead to or through the new folders. -/
theorem save_restores (s : Settings) (path : Path) (fs : Files) (ht : fs.tree.WellFormed)
    (hflaw : s.flaw? = none) : Saved s path fs (s.save path fs).1 (s.save path fs).2 := by
  obtain ⟨made, hmade⟩ := ready_furnished path fs
  have hsaves := save_saves s path fs
  have hfailed {e : SaveError} (he : (s.save path fs).1 = .error e) :
      (e.drop (s.save path fs).2).here = (ready path fs).here ∧
        ∀ l, (e.drop (s.save path fs).2).tree.get? l = (ready path fs).tree.get? l := by
    rw [he] at hsaves
    cases hsaves with
    | failed here same => exact ⟨here, same⟩
  constructor
  case found =>
    intro l hl
    exact hmade.spares.slotOf hl
  case restored =>
    intro hok
    rw [hok] at hsaves
    exact load_of_replaced hsaves hflaw
  case cutOff =>
    intro hok
    rw [hok] at hsaves
    exact load_of_cutOff hsaves
  case elsewhere =>
    intro hok
    rw [hok] at hsaves
    cases hsaves with
    | replaced htext slot plain free here file others =>
      exact ⟨_, slot.slotOf .busy, fun m hm => same_or_madeAbove hmade (others m hm)⟩
  case succeeds =>
    intro hsmall hwritable
    obtain ⟨text, htext⟩ := render?_of_small hsmall
    exact save_of_writable htext hwritable
  case tooLarge =>
    rintro ⟨e, he, hlarge⟩
    unfold save
    rw [render?_of_large he hlarge]
  case held =>
    intro e he l
    have hdropped := (hfailed he).2 l
    rw [he] at hsaves
    cases hsaves with
    | failed _ _ held =>
      -- where nothing was in the folder that is ready, nothing was before
      refine (held l).imp (fun hsame => hsame.trans hdropped.symm) fun hheld => ⟨hheld.error, ?_,
        hheld.file⟩
      have hfresh := hheld.fresh
      rw [hmade.get?] at hfresh
      split at hfresh
      · cases hfresh
      · exact hfresh
  case kept =>
    intro e he
    exact fun l => same_or_madeAbove hmade ((hfailed he).2 l)
  case untouched =>
    intro e he l
    exact untouched_of_failed hmade ht (hfailed he).2
  case reloaded =>
    intro e he
    exact reloaded_of_failed hmade ht (hfailed he).2 (hfailed he).1

/-- A file can be put at `new/conf`, where `new` is missing. -/
theorem writable_bare :
    Writable (.of "new/conf") (octets { workers := 2 }).length bareFiles where
  stageable := ⟨(.of "/new/.tmp000000", ⟨[bytes "new", bytes ".tmp000000"], 0⟩), _,
    Prod.ext (by cbv) rfl⟩
  room limit hlimit := by cases hlimit
  free := ⟨[bytes "new", bytes "conf"], by cbv, fun mode => by
    rw [show (ready (.of "new/conf") bareFiles).tree.get? [bytes "new", bytes "conf"] = none by cbv]
    simp⟩
  plain := by decide

/-- What is saved at `new/conf` is loaded from there. -/
theorem save_restores_bare :
    bareFiles.tree.WellFormed ∧ ({ workers := 2 } : Settings).flaw? = none ∧
      (save { workers := 2 } (.of "new/conf") bareFiles).1 = .ok () ∧
      load (save { workers := 2 } (.of "new/conf") bareFiles).2 (.of "new/conf") =
        .ok { workers := 2 } := by
  have h := save_restores { workers := 2 } (.of "new/conf") bareFiles bareFiles_wellFormed rfl
  have hok := h.succeeds (by decide) writable_bare
  refine ⟨bareFiles_wellFormed, rfl, hok, h.restored hok ?_⟩
  -- nothing is at the place, so no link is
  rintro ⟨l, target, hplace, hlink, -⟩
  obtain rfl : [bytes "new", bytes "conf"] = l :=
    Except.ok.inj ((show place (.of "new/conf") bareFiles = _ by cbv).symm.trans hplace)
  rw [show (ready (.of "new/conf") bareFiles).tree.get? [bytes "new", bytes "conf"] = none
    by cbv] at hlink
  cases hlink

/-- Over the link any settings are saved that TOML can hold; their text does not matter. -/
theorem save_onto_link {text : List Char} (hrender : s.render? = some text) :
    (save s (.of "l/../l") shortcutFiles).1 = .ok () ∧
      load (save s (.of "l/../l") shortcutFiles).2 (.of "l/../l") = .ok {} := by
  rw [save, hrender]
  generalize Utf8.encodeChars text = octets
  exact ⟨by cbv, by cbv⟩

/-- Nor does it where the saving makes a folder of its own destination. -/
theorem save_onto_folder {text : List Char} (hrender : s.render? = some text) :
    ∃ fs', save s (.of "a/../a") bareFiles =
        (.error (.notPersisted (.of "/a/../.tmp000000") .isADirectory), fs') ∧
      (fs'.tree.get? [bytes ".tmp000000"]).isSome = true ∧
      (SaveError.drop (.notPersisted (.of "/a/../.tmp000000") .isADirectory) fs').tree.get?
        [bytes "a"] = some (.folder 0o755) ∧
      load (SaveError.drop (.notPersisted (.of "/a/../.tmp000000") .isADirectory) fs')
        (.of "a/../a") = .error (.notRead (.of "a/../a") .isADirectory) := by
  rw [save, hrender]
  generalize Utf8.encodeChars text = octets
  exact ⟨_, Prod.ext (by cbv) rfl, by cbv, by cbv, by cbv⟩

/-- What was saved is not loaded where the path leads along the link that was replaced. Where a
saving fails, its temporary file is there as long as its error is held; and where it has made a
folder of its own destination, nothing is loaded any more, even when the error has been dropped. -/
theorem save_through_itself :
    shortcutFiles.tree.WellFormed ∧
      (save { workers := 2 } (.of "l/../l") shortcutFiles).1 = .ok () ∧
      load (save { workers := 2 } (.of "l/../l") shortcutFiles).2 (.of "l/../l") = .ok {} ∧
    bareFiles.tree.WellFormed ∧
      (save {} (.of "a/../a") bareFiles).1 =
        .error (.notPersisted (.of "/a/../.tmp000000") .isADirectory) ∧
      ((save {} (.of "a/../a") bareFiles).2.tree.get? [bytes ".tmp000000"]).isSome = true ∧
      bareFiles.tree.get? [bytes "a"] = none ∧
      (SaveError.drop (.notPersisted (.of "/a/../.tmp000000") .isADirectory)
        (save {} (.of "a/../a") bareFiles).2).tree.get? [bytes "a"] = some (.folder 0o755) ∧
      load bareFiles (.of "a/../a") = .ok {} ∧
      load (SaveError.drop (.notPersisted (.of "/a/../.tmp000000") .isADirectory)
        (save {} (.of "a/../a") bareFiles).2) (.of "a/../a") =
        .error (.notRead (.of "a/../a") .isADirectory) := by
  obtain ⟨text, hrender⟩ := render?_of_small (s := { workers := 2 }) (by decide)
  obtain ⟨text', hrender'⟩ := render?_of_small (s := {}) (by decide)
  obtain ⟨hsaved, hlost⟩ := save_onto_link hrender
  obtain ⟨fs', hsave, hstays, hfolder, hload⟩ := save_onto_folder hrender'
  rw [hsave]
  exact ⟨shortcutFiles_wellFormed, hsaved, hlost, bareFiles_wellFormed, rfl, hstays, rfl, hfolder,
    by cbv, hload⟩

end Settings

end Courier
