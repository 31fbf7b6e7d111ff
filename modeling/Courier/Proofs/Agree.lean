import Courier.Proofs.Records

/-!
# Files that agree

Two states of the files agree if they differ in nothing but the contents of some files. No
operation finds a way into a folder, or to a file, by what another file holds, so each of them
comes to the same result in both states, and they agree afterwards. This is how two runs of one
session are compared that only wrote different lines into the log.

Main results:

* `walk_of_shape_eq`, `seek_of_shape_eq` — where a path leads depends on shapes only.
* `Files.Agree` — states that differ in the contents of some files.
* `Files.Agree.makeLineage`, `Files.Agree.openToAppend`, `Files.Agree.append`,
  `Files.Agree.rename`, `Files.Agree.remove` — the operations, one by one.
* `Journal.agree_add` — two records for one journal.
-/

namespace Courier

/-- An entry without its content. -/
def Entry.hollow : Entry → Entry
  | .file mode serial _ => .file mode serial []
  | e => e

/-- Without its content an entry has the shape it had. -/
theorem Entry.shape_hollow (e : Entry) : e.hollow.shape = e.shape := by
  cases e <;> rfl

/-! ## Where paths lead -/

section Walk

variable {t t' : Tree}

/-- A walk does not see what is in the files. -/
theorem walk_of_shape_eq (hshape : ∀ l, t'.shape l = t.shape l) (links : Nat) (l : Location)
    (steps : List Bytes) : walk t' links l steps = walk t links l steps := by
  have hfolder {m : Location} {mode : Nat} (hm : t.get? m = some (.folder mode)) :
      ∃ mode', t'.get? m = some (.folder mode') :=
    Tree.shape_eq_folder.mp ((hshape m).trans (Tree.shape_of_get? hm))
  -- each step of the one walk is made in the other tree: a folder is entered in both, and a link
  -- has the same target in both
  fun_induction walk t links l steps with
  | case1 => rw [walk]
  | case2 _ _ _ _ _ hl hstay ih =>
    obtain ⟨mode, hmode⟩ := hfolder hl
    rw [walk, hmode]
    simp only [hstay, if_true]
    exact ih
  | case3 _ _ _ _ _ hl hstay hup ih =>
    obtain ⟨mode, hmode⟩ := hfolder hl
    rw [walk, hmode]
    simp only [if_neg hstay, if_pos hup]
    exact ih
  | case4 _ _ _ _ _ hl hstay hup hlen =>
    obtain ⟨mode, hmode⟩ := hfolder hl
    rw [walk, hmode]
    simp only [if_neg hstay, if_neg hup, if_pos hlen]
  | case5 _ _ _ _ _ hl hstay hup hlen hnone =>
    obtain ⟨mode, hmode⟩ := hfolder hl
    rw [walk, hmode]
    simp only [if_neg hstay, if_neg hup, if_neg hlen,
      Tree.shape_eq_none.mp ((hshape _).trans (Tree.shape_eq_none.mpr hnone))]
  | case6 _ _ _ _ hl hstay hup hlen target hlink =>
    obtain ⟨mode, hmode⟩ := hfolder hl
    rw [walk, hmode]
    simp only [if_neg hstay, if_neg hup, if_neg hlen,
      Tree.shape_eq_link.mp ((hshape _).trans (Tree.shape_of_get? hlink))]
  | case7 _ _ _ _ hl hstay hup hlen target hlink links r ih =>
    obtain ⟨mode, hmode⟩ := hfolder hl
    rw [walk, hmode]
    simp only [if_neg hstay, if_neg hup, if_neg hlen,
      Tree.shape_eq_link.mp ((hshape _).trans (Tree.shape_of_get? hlink))]
    exact ih
  | case8 _ l step _ _ hl hstay hup hlen e hnot he ih =>
    obtain ⟨mode, hmode⟩ := hfolder hl
    rw [walk, hmode]
    simp only [if_neg hstay, if_neg hup, if_neg hlen]
    -- what is there may be another entry in the other tree, but no link
    have hs := (hshape _).trans (Tree.shape_of_get? he)
    cases he' : t'.get? (l ++ [step]) with
    | none =>
      rw [Tree.shape_eq_none.mpr he'] at hs
      cases hs
    | some e' =>
      rw [Tree.shape_of_get? he'] at hs
      cases e' with
      | link target =>
        cases e with
        | link target' => exact absurd rfl (hnot target')
        | file => cases hs
        | folder => cases hs
      | file => exact ih
      | folder => exact ih
  | case9 _ l _ _ hnot =>
    rw [walk]
    split
    · rename_i mode hmode
      obtain ⟨mode', hmode'⟩ :=
        Tree.shape_eq_folder.mp ((hshape l).symm.trans (Tree.shape_of_get? hmode))
      exact absurd hmode' (hnot mode')
    · rfl

/-- The folder that the last name of a route stands in does not depend on what is in the files. -/
theorem approach_of_shape_eq (hshape : ∀ l, t'.shape l = t.shape l) (links : Nat) (r : Route) :
    approach t' links r = approach t links r := by
  unfold approach
  rw [walk_of_shape_eq hshape]
  cases walk t links r.start r.steps.dropLast with
  | error f => rfl
  | ok found =>
    obtain ⟨l, left⟩ := found
    dsimp only [bind, Except.bind]
    -- the walk ends at the same location; what matters is whether a folder is there
    by_cases hfolder : t.shape l = some .folder
    · obtain ⟨mode, hmode⟩ := Tree.shape_eq_folder.mp hfolder
      obtain ⟨mode', hmode'⟩ := Tree.shape_eq_folder.mp ((hshape l).trans hfolder)
      rw [hmode, hmode']
    · have hnot {u : Tree} (hu : u.shape l = t.shape l) (mode : Nat) :
          u.get? l ≠ some (.folder mode) := fun h =>
        hfolder (hu.symm.trans (Tree.shape_of_get? h))
      split
      · rename_i mode hmode
        exact absurd hmode (hnot (hshape l) mode)
      · split
        · rename_i mode hmode
          exact absurd hmode (hnot rfl mode)
        · rfl

/-- One link of the way that a write goes. -/
theorem seek_eq (t : Tree) (links : Nat) (r : Route) :
    seek t links r = match approach t links r with
      | .error f => .error f
      | .ok (l, left) =>
        match r.slashAtEnd, r.lastName? with
        | false, some name =>
          if Route.maxName < name.length then .error .nameTooLong
          else
            match t.get? (l ++ [name]) with
            | none => .ok (l ++ [name], none)
            | some (.folder _) => .error .isADirectory
            | some (.file mode serial content) =>
              .ok (l ++ [name], some (.file mode serial content))
            | some (.link target) =>
              match left with
              | 0 => .error .tooManyLinks
              | left + 1 => seek t left (Route.ofPath l target)
        | _, _ => .error .isADirectory := by
  rw [seek]
  split
  · rename_i h
    rw [h]
  · rename_i l left h
    conv_rhs => rw [h]
    cases left <;> rfl

/-- A write fails with the same fault. -/
theorem seek_error_of_shape_eq (hshape : ∀ l, t'.shape l = t.shape l) {links : Nat} {r : Route}
    {f : Fault} (h : seek t links r = .error f) : seek t' links r = .error f := by
  have happroach {links : Nat} {r : Route} {found : Except Fault (Location × Nat)}
      (h : approach t links r = found) : approach t' links r = found :=
    (approach_of_shape_eq hshape links r).trans h
  -- by the cases of the search, those that fail: what is in the way has the same shape in the other
  -- tree
  fun_induction seek t links r with
  | case1 links r g happ =>
    rw [seek_eq, happroach happ]
    exact congrArg _ (Except.error.inj h)
  | case2 links r l left happ name hlast hslash hlong =>
    rw [seek_eq, happroach happ]
    simpa only [hslash, hlast, if_pos hlong] using h
  | case4 links r l left happ name hlast hslash hshort mode hfolder =>
    obtain ⟨mode', hfolder'⟩ :=
      Tree.shape_eq_folder.mp ((hshape _).trans (Tree.shape_of_get? hfolder))
    rw [seek_eq, happroach happ]
    simpa only [hslash, hlast, if_neg hshort, hfolder'] using h
  | case6 links r l name hlast hslash hshort target hlink happ =>
    have hlink' := Tree.shape_eq_link.mp ((hshape _).trans (Tree.shape_of_get? hlink))
    rw [seek_eq, happroach happ]
    simpa only [hslash, hlast, if_neg hshort, hlink'] using h
  | case7 links r l name hlast hslash hshort target hlink left happ _ ih =>
    have hlink' := Tree.shape_eq_link.mp ((hshape _).trans (Tree.shape_of_get? hlink))
    rw [seek_along (happroach happ) hslash hlast hshort hlink']
    exact ih h
  | case8 links r l left happ hnot =>
    rw [seek_eq, happroach happ]
    dsimp only
    split
    · rename_i name hslash hlast
      exact absurd hlast (hnot name hslash)
    · exact h
  | case3 => cases h
  | case5 => cases h

/-- A write ends up at the same place, or fails with the same fault. -/
theorem seek_of_shape_eq (hshape : ∀ l, t'.shape l = t.shape l) (links : Nat) (r : Route) :
    seek t' links r = (seek t links r).map fun found => (found.1, t'.get? found.1) := by
  -- a search that ends somewhere is the same in a tree that shows all that this one does
  cases h : seek t links r with
  | error f => exact seek_error_of_shape_eq hshape h
  | ok found =>
    obtain ⟨l, found⟩ := found
    obtain ⟨hget, hfile⟩ := get?_of_seek h
    refine seek_mono (fun m s hs => (hshape m).trans hs) h fun s hs => ?_
    rw [hshape, Tree.shape, hget] at hs
    obtain ⟨e, rfl, rfl⟩ := Option.map_eq_some_iff.mp hs
    exact Entry.isFile_iff.mp (hfile e rfl)

end Walk

/-! ## States that agree -/

namespace Files

/-! ### One write -/

section Append

variable (fs : Files) {handle : FileHandle} {octets : Bytes}

/-- A write draws no number. -/
theorem drawn_append (handle : FileHandle) (octets : Bytes) :
    (fs.append handle octets).2.drawn = fs.drawn := by
  rcases append_eq fs handle octets with h | ⟨written, h⟩ <;> (rw [h]; try rfl)

/-- And it changes nothing but the content of a file. -/
theorem hollow_append (handle : FileHandle) (octets : Bytes) (l : Location) :
    ((fs.append handle octets).2.tree.get? l).map Entry.hollow =
      (fs.tree.get? l).map Entry.hollow := by
  rcases append_eq fs handle octets with h | ⟨written, h⟩
  · rw [h]
  · rw [h, commit, Change.apply]
    -- a content that gets longer is left out on both sides
    by_cases hl : l = handle.location
    · subst hl
      rw [Change.get?_update_self, Option.map_map]
      congr 1
      funext e
      cases e <;> rfl
    · rw [Change.get?_update_of_ne _ _ hl]

/-- What a write makes of a file depends on the file alone. -/
theorem get?_append_congr {fs fs' : Files}
    (hfile : fs'.tree.get? handle.location = fs.tree.get? handle.location)
    (hlimit : fs'.sizeLimit = fs.sizeLimit) (octets : Bytes) :
    (fs'.append handle octets).2.tree.get? handle.location =
      (fs.append handle octets).2.tree.get? handle.location := by
  have hsize : fs'.sizeOf? handle = fs.sizeOf? handle := by
    unfold sizeOf?
    rw [hfile]
  have hwritten (written : Bytes) :
      (fs'.commit (.append handle.location written)).tree.get? handle.location =
        (fs.commit (.append handle.location written)).tree.get? handle.location := by
    simp only [commit, Change.apply]
    rw [Change.get?_update_self, Change.get?_update_self, hfile]
  unfold Files.append
  rw [hsize, hlimit]
  split
  · exact hfile
  · split
    · exact hwritten _
    · split
      · exact hwritten _
      · exact hwritten _

end Append

/-- Two states differ in nothing but the contents of the files at the locations `own`. -/
structure Agree (own : Location → Prop) (fs fs' : Files) : Prop where
  here : fs'.here = fs.here
  drawn : fs'.drawn = fs.drawn
  disk : fs'.disk = fs.disk
  hollow : ∀ l, (fs'.tree.get? l).map Entry.hollow = (fs.tree.get? l).map Entry.hollow
  same : ∀ l, ¬ own l → fs'.tree.get? l = fs.tree.get? l

/-- A path leads to a folder if the location it leads to has that shape. -/
theorem isFolder_iff {fs : Files} {p : Path} :
    fs.isFolder p = true ↔ ∃ l e, fs.stat p = .ok (l, e) ∧ fs.tree.shape l = some .folder := by
  unfold isFolder
  constructor
  · intro h
    split at h
    · rename_i l e hstat
      obtain ⟨-, -, he⟩ := stat_eq_ok hstat
      refine ⟨l, e, hstat, ?_⟩
      rw [Tree.shape_of_get? he]
      cases e with
      | folder => rfl
      | file => cases h
      | link => cases h
    · cases h
  · rintro ⟨l, e, hstat, hfolder⟩
    obtain ⟨-, -, he⟩ := stat_eq_ok hstat
    rw [Tree.shape_of_get? he] at hfolder
    rw [hstat]
    cases e with
    | folder => rfl
    | file => cases hfolder
    | link => cases hfolder

/-- What is removed is what is there, unless it is a folder. -/
theorem remove_of_get? {fs : Files} {p : Path} {l : Location} {e : Entry}
    (hslot : fs.slotOf p .isADirectory = .ok l) (he : fs.tree.get? l = some e) :
    fs.remove p =
      if e.isFolder then (.error .isADirectory, fs) else (.ok (), fs.commit (.remove l)) := by
  simp only [remove, hslot, bind, Except.bind, entryAt, he]
  cases e <;> rfl

namespace Agree

variable {own own' : Location → Prop} {fs fs' : Files}

/-- Every state agrees with itself. -/
theorem refl (own : Location → Prop) (fs : Files) : Agree own fs fs :=
  ⟨rfl, rfl, rfl, fun _ => rfl, fun _ _ => rfl⟩

/-- It does not matter which of the two comes first. -/
theorem symm (h : Agree own fs fs') : Agree own fs' fs :=
  ⟨h.here.symm, h.drawn.symm, h.disk.symm, fun l => (h.hollow l).symm,
    fun l hl => (h.same l hl).symm⟩

/-- States that differ in fewer files agree all the more. -/
theorem mono (h : Agree own fs fs') (hown : ∀ l, own l → own' l) : Agree own' fs fs' :=
  ⟨h.here, h.drawn, h.disk, h.hollow, fun l hl => h.same l fun hold => hl (hown l hold)⟩

/-- What agrees has the same shape everywhere, so what depends on shapes alone is the same in
both. -/
theorem shape (h : Agree own fs fs') (l : Location) : fs'.tree.shape l = fs.tree.shape l := by
  have hhollow := congrArg (Option.map Entry.shape) (h.hollow l)
  rw [Option.map_map, Option.map_map] at hhollow
  have hcomp : Entry.shape ∘ Entry.hollow = Entry.shape := funext Entry.shape_hollow
  rwa [hcomp] at hhollow

/-- Where nothing is in one state there is nothing in the other. -/
theorem none_iff (h : Agree own fs fs') (l : Location) :
    fs'.tree.get? l = none ↔ fs.tree.get? l = none := by
  rw [← Tree.shape_eq_none, ← Tree.shape_eq_none, h.shape]

/-- What is at a location is told apart by its content only. -/
theorem file (h : Agree own fs fs') {l : Location} {mode serial : Nat} {content : Bytes}
    (hl : fs.tree.get? l = some (.file mode serial content)) :
    ∃ content', fs'.tree.get? l = some (.file mode serial content') := by
  have hhollow := h.hollow l
  rw [hl] at hhollow
  obtain ⟨e, he, hsame⟩ := Option.map_eq_some_iff.mp hhollow
  -- an entry with the same shape and the same numbers is a file too
  cases e with
  | file mode' serial' content' =>
    obtain ⟨rfl, rfl, -⟩ := Entry.file.inj hsame
    exact ⟨content', he⟩
  | folder => cases hsame
  | link => cases hsame

/-! ## Looking -/

/-- A path is walked from the same folder. -/
theorem route? (h : Agree own fs fs') (p : Path) : fs'.route? p = fs.route? p := by
  unfold Files.route?
  rw [h.here]

/-- The last name of a path stands in the same folder. -/
theorem slotOf (h : Agree own fs fs') (p : Path) (f : Fault) :
    fs'.slotOf p f = fs.slotOf p f := by
  unfold Files.slotOf Files.slot
  rw [h.route?]
  simp only [approach_of_shape_eq h.shape]

/-- A path leads to a folder in both states or in neither. -/
theorem isFolder (h : Agree own fs fs') (p : Path) : fs'.isFolder p = fs.isFolder p := by
  have hcopy {fs fs' : Files} (h : Agree own fs fs') (hfolder : fs.isFolder p = true) :
      fs'.isFolder p = true := by
    obtain ⟨l, e, hstat, hl⟩ := isFolder_iff.mp hfolder
    obtain ⟨e', hstat'⟩ := stat_of_shape_eq h.shape h.here hstat
    exact isFolder_iff.mpr ⟨l, e', hstat', (h.shape l).trans hl⟩
  exact Bool.eq_iff_iff.mpr ⟨hcopy h.symm, hcopy h⟩

/-! ## Changing -/

/-- A change is made to both states, and at each location it leaves what there was in both of them
or puts the same there. -/
theorem commit (h : Agree own fs fs') {c : Change}
    (hc : ∀ l, (c.apply fs.tree).get? l = fs.tree.get? l ∧
        (c.apply fs'.tree).get? l = fs'.tree.get? l ∨
      (c.apply fs'.tree).get? l = (c.apply fs.tree).get? l) :
    Agree own (fs.commit c) (fs'.commit c) where
  here := h.here
  drawn := h.drawn
  disk := h.disk
  hollow := by
    intro l
    simp only [Files.commit]
    rcases hc l with ⟨hl, hl'⟩ | hl
    · rw [hl, hl']
      exact h.hollow l
    · rw [hl]
  same := by
    intro l hown
    simp only [Files.commit]
    rcases hc l with ⟨hl, hl'⟩ | hl
    · rw [hl, hl']
      exact h.same l hown
    · exact hl

/-- The same entry is put in the same place, whatever was there. -/
theorem commit_create (h : Agree own fs fs') (l : Location) (e : Entry) :
    Agree own (fs.commit (.create l e)) (fs'.commit (.create l e)) := by
  refine h.commit fun m => ?_
  simp only [Change.apply]
  by_cases hm : m = l
  · right
    rw [hm, Tree.get?_put_self, Tree.get?_put_self]
  · left
    rw [Tree.get?_put_of_ne _ _ hm, Tree.get?_put_of_ne _ _ hm]
    exact ⟨rfl, rfl⟩

/-- What is removed is not there any more to differ in. -/
theorem commit_remove (h : Agree own fs fs') (l : Location) :
    Agree (fun m => own m ∧ m ≠ l) (fs.commit (.remove l)) (fs'.commit (.remove l)) := by
  have hat (t : Tree) {m : Location} (hm : m ≠ l) :
      (Change.apply t (.remove l)).get? m = t.get? m :=
    Tree.get?_remove_of_ne t hm
  have hnone (t : Tree) : (Change.apply t (.remove l)).get? l = none := Tree.get?_remove_self t l
  have hagree := h.commit (c := .remove l) fun m => by
    by_cases hm : m = l
    · right
      rw [hm, hnone, hnone]
    · left
      exact ⟨hat _ hm, hat _ hm⟩
  -- at the place itself there is nothing left in either
  refine ⟨hagree.here, hagree.drawn, hagree.disk, hagree.hollow, fun m hm => ?_⟩
  by_cases hl : m = l
  · rw [hl]
    exact (hnone _).trans (hnone _).symm
  · exact hagree.same m fun hown => hm ⟨hown, hl⟩

/-- A file that is the same in both states is moved. -/
theorem commit_move (h : Agree own fs fs') {source : Location} (hown : ¬ own source)
    (target : Location) :
    Agree own (fs.commit (.move source target)) (fs'.commit (.move source target)) := by
  refine h.commit fun m => ?_
  simp only [Change.apply]
  rw [h.same source hown]
  cases fs.tree.get? source with
  | none => exact .inl ⟨rfl, rfl⟩
  | some e =>
    dsimp only
    -- the new place, the old one and any other
    by_cases hm : m = target
    · right
      rw [hm, Tree.get?_put_self, Tree.get?_put_self]
    by_cases hs : m = source
    · right
      rw [Tree.get?_put_of_ne _ _ hm, Tree.get?_put_of_ne _ _ hm, hs, Tree.get?_remove_self,
        Tree.get?_remove_self]
    · left
      rw [Tree.get?_put_of_ne _ _ hm, Tree.get?_put_of_ne _ _ hm, Tree.get?_remove_of_ne _ hs,
        Tree.get?_remove_of_ne _ hs]
      exact ⟨rfl, rfl⟩

/-- A folder is made in both states or in neither. -/
theorem makeFolder (h : Agree own fs fs') (p : Path) :
    ∃ r fs₁ fs₁', fs.makeFolder p = (r, fs₁) ∧ fs'.makeFolder p = (r, fs₁') ∧
      Agree own fs₁ fs₁' := by
  unfold Files.makeFolder
  rw [h.slotOf]
  cases fs.slotOf p .alreadyThere with
  | error f => exact ⟨_, _, _, rfl, rfl, h⟩
  | ok l =>
    dsimp only
    have hsome : (fs'.tree.get? l).isSome = (fs.tree.get? l).isSome := by
      rw [← Option.isSome_map (f := Entry.hollow), h.hollow, Option.isSome_map]
    rw [hsome]
    -- something was there already, or the folder is new in both states
    split
    · exact ⟨_, _, _, rfl, rfl, h⟩
    · exact ⟨_, _, _, rfl, rfl, h.commit_create l _⟩

/-- **A line of folders** is made in both states alike: each step depends on how the one before it
ended, and that is the same. -/
theorem makeLineage (h : Agree own fs fs') (ps : List Path) :
    ∃ r fs₁ fs₁', Files.makeLineage ps fs = (r, fs₁) ∧ Files.makeLineage ps fs' = (r, fs₁') ∧
      Agree own fs₁ fs₁' := by
  -- by induction on the folders above, for any two states that agree
  induction ps generalizing fs fs' with
  | nil => exact ⟨_, _, _, rfl, rfl, h⟩
  | cons p above ih =>
    rw [Files.makeLineage, Files.makeLineage]
    by_cases hp : p.parts.isEmpty = true
    · rw [if_pos hp, if_pos hp]
      exact ⟨_, _, _, rfl, rfl, h⟩
    rw [if_neg hp, if_neg hp]
    obtain ⟨r, fs₁, fs₁', hfirst, hfirst', h₁⟩ := h.makeFolder p
    rw [hfirst, hfirst']
    cases r with
    | ok => exact ⟨_, _, _, rfl, rfl, h₁⟩
    | error f =>
      dsimp only
      rw [h₁.isFolder]
      by_cases hf : f.kind = .notFound
      · rw [if_pos hf, if_pos hf]
        -- what is missing above is made in both states, and the folder is tried again
        obtain ⟨r, fs₂, fs₂', habove, habove', h₂⟩ := ih h₁
        rw [habove, habove']
        cases r with
        | error f => exact ⟨_, _, _, rfl, rfl, h₂⟩
        | ok =>
          obtain ⟨r, fs₃, fs₃', hagain, hagain', h₃⟩ := h₂.makeFolder p
          dsimp only
          rw [hagain, hagain']
          cases r with
          | ok => exact ⟨_, _, _, rfl, rfl, h₃⟩
          | error f =>
            dsimp only
            rw [h₃.isFolder]
            split
            · exact ⟨_, _, _, rfl, rfl, h₃⟩
            · exact ⟨_, _, _, rfl, rfl, h₃⟩
      · rw [if_neg hf, if_neg hf]
        split
        · exact ⟨_, _, _, rfl, rfl, h₁⟩
        · exact ⟨_, _, _, rfl, rfl, h₁⟩

/-- One and the same file is opened. -/
theorem openToAppend (h : Agree own fs fs') (p : Path) :
    ∃ r fs₁ fs₁', fs.openToAppend p = (r, fs₁) ∧ fs'.openToAppend p = (r, fs₁') ∧
      Agree own fs₁ fs₁' := by
  unfold Files.openToAppend
  rw [h.route?]
  cases fs.route? p with
  | error f => exact ⟨_, _, _, rfl, rfl, h⟩
  | ok r =>
    dsimp only [bind, Except.bind]
    rw [seek_of_shape_eq h.shape maxLinks r]
    cases hseek : seek fs.tree maxLinks r with
    | error f => exact ⟨_, _, _, rfl, rfl, h⟩
    | ok found =>
      obtain ⟨l, found⟩ := found
      obtain ⟨hl, hfile⟩ := get?_of_seek hseek
      dsimp only [Except.map]
      -- nothing was there, so a file with the next number is put in both states; or a file was
      cases found with
      | none =>
        rw [(h.none_iff l).mpr hl]
        have hdrawn : Agree own { fs with drawn := fs.drawn + 1 }
            { fs' with drawn := fs.drawn + 1 } :=
          ⟨h.here, rfl, h.disk, h.hollow, h.same⟩
        refine ⟨.ok ⟨l, fs.drawn⟩, (fs.createAt l 0o644 []).2, (fs'.createAt l 0o644 []).2, rfl,
          ?_, ?_⟩
        · dsimp only [createAt]
          rw [h.drawn]
        · dsimp only [createAt]
          rw [h.drawn]
          exact hdrawn.commit_create l _
      | some e =>
        cases e with
        | file mode serial content =>
          obtain ⟨content', hl'⟩ := h.file hl
          rw [hl']
          exact ⟨_, _, _, rfl, rfl, h⟩
        | folder => cases hfile _ rfl
        | link => cases hfile _ rfl

/-- Writes to one file change nothing else, and nothing at all if they are the same. -/
theorem append (h : Agree own fs fs') {handle : FileHandle} {octets octets' : Bytes}
    (hsame : ¬ own handle.location → octets' = octets) :
    Agree own (fs.append handle octets).2 (fs'.append handle octets').2 where
  here := by rw [here_appended, here_appended, h.here]
  drawn := by rw [drawn_append, drawn_append, h.drawn]
  disk := by rw [disk_append, disk_append, h.disk]
  hollow := fun l => by rw [hollow_append, hollow_append, h.hollow]
  same := by
    intro l hown
    -- in the file itself the same octets are added to the same content
    by_cases hl : l = handle.location
    · subst hl
      rw [hsame hown]
      exact get?_append_congr (h.same _ hown) (sizeLimit_of_disk h.disk) octets
    · rw [get?_append_of_ne _ hl, get?_append_of_ne _ hl, h.same l hown]

/-- That an entry is a folder does not show in its content. -/
theorem isFolder_at (h : Agree own fs fs') (l : Location) :
    (fs'.tree.get? l).map Entry.isFolder = (fs.tree.get? l).map Entry.isFolder := by
  have hhollow := congrArg (Option.map Entry.isFolder) (h.hollow l)
  rw [Option.map_map, Option.map_map] at hhollow
  have hcomp : Entry.isFolder ∘ Entry.hollow = Entry.isFolder := by
    funext e
    cases e <;> rfl
  rwa [hcomp] at hhollow

/-- What is in the files is nothing to the wait for the disk. -/
theorem sync (h : Agree own fs fs') : ∃ r fs₁ fs₁',
    fs.sync = (r, fs₁) ∧ fs'.sync = (r, fs₁') ∧ Agree own fs₁ fs₁' := by
  have hsyncs := syncs_of_disk h.disk
  have hlimit := sizeLimit_of_disk h.disk
  unfold Files.sync
  rw [hsyncs]
  split
  · exact ⟨_, _, _, rfl, rfl, h⟩
  · refine ⟨_, _, _, rfl, rfl, h.here, h.drawn, ?_, h.hollow, h.same⟩
    simp only [Files.disk, hlimit]

/-- **A rename** that moves a file both states have alike comes to the same result, and the states
agree after it. -/
theorem rename (h : Agree own fs fs') {source : Path}
    (hown : ∀ l, fs.slotOf source .busy = .ok l → ¬ own l) (target : Path) :
    ∃ r fs₁ fs₁', fs.rename source target = (r, fs₁) ∧ fs'.rename source target = (r, fs₁') ∧
      Agree own fs₁ fs₁' := by
  unfold Files.rename
  dsimp only [bind, Except.bind]
  simp only [h.slotOf, h.route?]
  -- the checks of a rename come one after the other, and each may end it
  cases hold : fs.slotOf source .busy with
  | error f => exact ⟨_, _, _, rfl, rfl, h⟩
  | ok old =>
    have hentry : fs'.entryAt old = fs.entryAt old := by
      unfold entryAt
      rw [h.same old (hown old hold)]
    cases fs.route? target with
    | error f => exact ⟨_, _, _, rfl, rfl, h⟩
    | ok route =>
      cases fs.slotOf target .busy with
      | error f => exact ⟨_, _, _, rfl, rfl, h⟩
      | ok new =>
        simp only [hentry, h.isFolder_at]
        cases fs.entryAt old with
        | error f => exact ⟨_, _, _, rfl, rfl, h⟩
        | ok found =>
          dsimp only
          by_cases hslash : route.slashAtEnd = true
          · rw [if_pos hslash]
            exact ⟨_, _, _, rfl, rfl, h⟩
          rw [if_neg hslash]
          by_cases hfolder : ((fs.tree.get? new).map Entry.isFolder).getD false = true
          · rw [if_pos hfolder]
            exact ⟨_, _, _, rfl, rfl, h⟩
          · rw [if_neg hfolder]
            exact ⟨_, _, _, rfl, rfl, h.commit_move (hown old hold) new⟩

/-- **A removal** comes to the same result, and the states agree after it. -/
theorem remove (h : Agree own fs fs') (p : Path) :
    ∃ r fs₁ fs₁', fs.remove p = (r, fs₁) ∧ fs'.remove p = (r, fs₁') ∧ Agree own fs₁ fs₁' := by
  have hslot' := h.slotOf p .isADirectory
  cases hslot : fs.slotOf p .isADirectory with
  | error f =>
    rw [hslot] at hslot'
    simp only [Files.remove, hslot, hslot', bind, Except.bind]
    exact ⟨_, _, _, rfl, rfl, h⟩
  -- both states have the same kind of entry there, or none
  | ok l =>
    rw [hslot] at hslot'
    cases he : fs.tree.get? l with
    | none =>
      have he' := (h.none_iff l).mpr he
      simp only [Files.remove, hslot, hslot', bind, Except.bind, entryAt, he, he']
      exact ⟨_, _, _, rfl, rfl, h⟩
    | some e =>
      have hfolder := h.isFolder_at l
      rw [he] at hfolder
      obtain ⟨e', he', hsame⟩ := Option.map_eq_some_iff.mp hfolder
      rw [remove_of_get? hslot he, remove_of_get? hslot' he', hsame]
      split
      · exact ⟨_, _, _, rfl, rfl, h⟩
      · exact ⟨_, _, _, rfl, rfl, (h.commit_remove l).mono fun _ hl => hl.1⟩

end Agree

end Files

/-! ## The journal -/

namespace Journal

variable {own : Location → Prop} {fs fs' : Files}

/-- Room for a journal is made in both states alike. -/
theorem agree_makeRoom (h : fs.Agree own fs') (journal : Path) :
    (makeRoom journal fs).Agree own (makeRoom journal fs') := by
  unfold makeRoom
  split
  · rename_i folder hfolder
    obtain ⟨r, fs₁, fs₁', hmake, hmake', h₁⟩ := h.makeLineage folder.lineage
    unfold Files.makeFolders
    rw [hmake, hmake']
    exact h₁
  · exact h

/-- Two records for one journal go to one file, if they are written at all. -/
theorem agree_add (h : fs.Agree own fs') (journal : Path) (r r' : Record) (differ : Prop)
    (hsame : ¬ differ → r' = r) :
    (add journal r fs).2.Agree (fun l => own l ∨ differ ∧ KeptAt journal (add journal r fs).2 l)
      (add journal r' fs').2 := by
  -- what is written does not come in before the writing itself
  obtain ⟨opened, fs₁, fs₁', hopen, hopen', h₁⟩ :=
    (agree_makeRoom h journal).openToAppend journal
  cases opened with
  | error f =>
    rw [files_add_of_closed hopen, files_add_of_closed hopen']
    exact (agree_makeRoom h journal).mono fun l hl => .inl hl
  | ok handle =>
    rw [files_add_of_open hopen, files_add_of_open hopen']
    have hkept := keptAt_of_opened (Files.opened_of_openToAppend hopen)
    -- the records may differ, or they are the same
    by_cases hdiffer : differ
    · -- whatever is written to it, the file is the journal
      refine (h₁.mono fun l hl => .inl hl).append fun hnot => ?_
      exact absurd (.inr ⟨hdiffer, hkept.append handle (trace r)⟩) hnot
    · obtain rfl := hsame hdiffer
      exact (h₁.append fun _ => rfl).mono fun l hl => .inl hl

end Journal

end Courier
