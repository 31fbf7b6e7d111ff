import Courier.Proofs.Limits
import Courier.Proofs.Session

/-!
# What a listener writes of its own

A listener adds a line to its log before and after each transfer, and a record to its journal after
it. A file that came to its place after the log was opened gets no line of it, wherever the log was.
A file that the journal's path leads to gets the record at its end. No other file is changed.

Main results:

* `EventLog.get?_note` — a file that is newer than the log is left alone.
* `Journal.added_add`, `Journal.get?_add` — what a record does to each location, and to a file that
  is there.
* `Session.get?_journaled` — the same of what follows a transfer.
-/

namespace Courier

/-! ## Where a write ends up -/

/-- That an entry is a file shows in its shape. -/
theorem Entry.isFile_iff {e : Entry} : e.isFile = true ↔ e.shape = .file := by
  cases e <;> simp [isFile, shape]

section Seek

variable {t : Tree} {links left : Nat} {r : Route} {l : Location} {name : Name}

/-- A write ends up where the last name of its route stands, if no folder and no link is there. -/
theorem seek_here {found : Option Entry} (happ : approach t links r = .ok (l, left))
    (hslash : r.slashAtEnd = false) (hlast : r.lastName? = some name)
    (hshort : ¬ Route.maxName < name.length) (hfound : t.get? (l ++ [name]) = found)
    (hfile : ∀ e, found = some e → e.isFile = true) :
    seek t links r = .ok (l ++ [name], found) := by
  -- the search goes on only from a link
  rw [seek]
  split
  · rename_i h
    rw [happ] at h
    cases h
  · rename_i h
    rw [happ] at h
    cases h
    simp only [hslash, hlast, if_neg hshort, hfound]
    cases found with
    | none => rfl
    | some e =>
      cases e with
      | file => rfl
      | folder => cases hfile _ rfl
      | link => cases hfile _ rfl

/-- Where a link is, it goes on along the target of that link. -/
theorem seek_along {target : Path} (happ : approach t links r = .ok (l, left + 1))
    (hslash : r.slashAtEnd = false) (hlast : r.lastName? = some name)
    (hshort : ¬ Route.maxName < name.length) (hlink : t.get? (l ++ [name]) = some (.link target)) :
    seek t links r = seek t left (Route.ofPath l target) := by
  rw [seek]
  split
  · rename_i h
    rw [happ] at h
    cases h
  · rename_i h
    rw [happ] at h
    cases h
    simp only [hslash, hlast, if_neg hshort, hlink]

/-- A write ends up at a file, or where nothing is. -/
theorem get?_of_seek {found : Option Entry}
    (h : seek t links r = .ok (l, found)) :
    t.get? l = found ∧ ∀ e, found = some e → e.isFile = true := by
  -- by the cases of the search: it ends where nothing is, or at a file, or goes on along a link
  fun_induction seek t links r with
  | case3 _ _ _ _ _ _ _ _ _ hnone =>
    cases h
    exact ⟨hnone, nofun⟩
  | case5 _ _ _ _ _ _ _ _ _ mode serial content hfile =>
    cases h
    refine ⟨hfile, fun e he => ?_⟩
    cases he
    rfl
  | case7 _ _ _ _ _ _ _ _ _ _ _ _ ih => exact ih h
  | case1 | case2 | case4 | case6 | case8 => cases h

/-- A write ends up at the same place when something is added to the tree, unless a folder or a
link is put in that place. -/
theorem seek_mono {t' : Tree} (hshown : t.ShownBy t') {found : Option Entry}
    (h : seek t links r = .ok (l, found)) (hl : ∀ s, t'.shape l = some s → s = .file) :
    seek t' links r = .ok (l, t'.get? l) := by
  have happroach {links left : Nat} {r : Route} {l : Location}
      (h : approach t links r = .ok (l, left)) : approach t' links r = .ok (l, left) := by
    obtain ⟨hwalk, hfolder⟩ := Files.approach_eq_ok.mp h
    exact Files.approach_eq_ok.mpr ⟨walk_mono hshown hwalk, hshown _ _ hfolder⟩
  have hfile (e : Entry) (he : t'.get? l = some e) : e.isFile = true :=
    Entry.isFile_iff.mpr (hl _ (Tree.shape_of_get? he))
  -- each step finds the same in the larger tree, so the search takes the same steps there
  fun_induction seek t links r with
  | case3 links r m left happ name hlast hslash hshort hnone =>
    cases h
    exact seek_here (happroach happ) hslash hlast hshort rfl hfile
  | case5 links r m left happ name hlast hslash hshort mode serial content =>
    cases h
    exact seek_here (happroach happ) hslash hlast hshort rfl hfile
  -- a link that was there still is, and has the same target
  | case7 links r m name hlast hslash hshort target hlink left happ _ ih =>
    have hlink' := Tree.shape_eq_link.mp (hshown _ _ (Tree.shape_of_get? hlink))
    rw [seek_along (happroach happ) hslash hlast hshort hlink']
    exact ih h
  | case1 | case2 | case4 | case6 | case8 => cases h

end Seek

namespace Files

variable {fs fs' : Files}

/-- The same of a write to a path. -/
theorem get?_of_route_seek {p : Path} {l : Location} {found : Option Entry}
    (h : (fs.route? p >>= seek fs.tree maxLinks) = .ok (l, found)) :
    fs.tree.get? l = found ∧ ∀ e, found = some e → e.isFile = true := by
  cases hroute : fs.route? p with
  | error f => rw [hroute] at h; cases h
  | ok r => rw [hroute] at h; exact Courier.get?_of_seek h

/-- What can come of opening a file to add to it. -/
theorem openToAppend_cases {p : Path} {r : Except Fault FileHandle}
    (h : fs.openToAppend p = (r, fs')) :
    (∃ handle mode content, r = .ok handle ∧ fs' = fs ∧
      (fs.route? p >>= seek fs.tree maxLinks) =
        .ok (handle.location, some (.file mode handle.serial content))) ∨
    (∃ handle, r = .ok handle ∧
      (fs.route? p >>= seek fs.tree maxLinks) = .ok (handle.location, none) ∧
      fs.tree.get? handle.location = none ∧
      fs.Evolves [.create handle.location (.file 0o644 handle.serial [])] fs') ∨
    ∃ f, r = .error f ∧ fs' = fs := by
  unfold openToAppend at h
  split at h
  · cases h
    exact .inr (.inr ⟨_, rfl, rfl⟩)
  · rename_i hseek
    cases h
    exact .inl ⟨_, _, _, rfl, rfl, hseek⟩
  · rename_i l found hnot hseek
    cases h
    -- nothing but a file is found, so nothing is there
    obtain ⟨hget, hfile⟩ := get?_of_route_seek hseek
    cases found with
    | none => exact .inr (.inl ⟨_, rfl, hseek, hget, rfl, rfl, rfl⟩)
    | some e =>
      cases e with
      | file mode serial content => exact absurd rfl (hnot mode serial content)
      | folder => cases hfile _ rfl
      | link => cases hfile _ rfl

/-- A write changes nothing but where its handle was opened. -/
theorem get?_append_of_ne (fs : Files) {handle : FileHandle} {octets : Bytes} {l : Location}
    (hl : l ≠ handle.location) : (fs.append handle octets).2.tree.get? l = fs.tree.get? l := by
  rcases append_eq fs handle octets with h | ⟨written, h⟩
  · rw [h]
  · rw [h, commit, Change.get?_apply_of_notMem _ (by simpa [Change.touched] using hl)]

/-- A write adds to one file only, the one that the handle was opened at. -/
theorem get?_append {l : Location} {mode serial : Nat} {content : Bytes}
    (hfile : fs.tree.get? l = some (.file mode serial content)) (handle : FileHandle)
    (octets : Bytes) :
    ∃ more, (fs.append handle octets).2.tree.get? l = some (.file mode serial (content ++ more)) ∧
      (more = [] ∨ handle = ⟨l, serial⟩) := by
  have hkept : fs.tree.get? l = some (.file mode serial (content ++ [])) := by
    rw [List.append_nil]
    exact hfile
  by_cases hl : l = handle.location
  · subst hl
    -- the handle is of the file that is there, or of one that has lost its place
    by_cases hserial : serial = handle.serial
    · rcases append_eq fs handle octets with h | ⟨written, h⟩
      · exact ⟨[], by rwa [h], .inl rfl⟩
      · refine ⟨written, ?_, .inr (by rw [hserial])⟩
        rw [h, commit, Change.apply, Change.get?_update_self, hfile]
        rfl
    · have hsize : fs.sizeOf? handle = none := by simp [sizeOf?, hfile, hserial]
      refine ⟨[], ?_, .inl rfl⟩
      rw [Files.append, hsize]
      exact hkept
  · exact ⟨[], by rwa [get?_append_of_ne fs hl], .inl rfl⟩

/-- Nor does it change what is there, only how long it is. -/
theorem shape_appended (fs : Files) (handle : FileHandle) (octets : Bytes) (l : Location) :
    (fs.append handle octets).2.tree.shape l = fs.tree.shape l := by
  rcases append_eq fs handle octets with h | ⟨written, h⟩
  · rw [h]
  · rw [h]
    exact Change.shape_append ..

/-- So every folder and every link stays. -/
theorem shownBy_append (fs : Files) (handle : FileHandle) (octets : Bytes) :
    fs.tree.ShownBy (fs.append handle octets).2.tree :=
  fun _ _ hs => (shape_appended ..).trans hs

/-- The working folder is not changed by a write. -/
theorem here_appended (fs : Files) (handle : FileHandle) (octets : Bytes) :
    (fs.append handle octets).2.here = fs.here := by
  rcases append_eq fs handle octets with h | ⟨written, h⟩ <;> (rw [h]; try rfl)

/-! ### Files that get longer -/

/-- There is a file at `l`, and it has got longer, or is as long as it was. -/
def Longer (fs fs' : Files) (l : Location) : Prop :=
  ∃ mode serial content more, fs.tree.get? l = some (.file mode serial content) ∧
    fs'.tree.get? l = some (.file mode serial (content ++ more))

/-- What has got longer twice has got longer. -/
theorem Longer.trans {fs'' : Files} {l : Location} (h : Longer fs fs' l)
    (h' : Longer fs' fs'' l) : Longer fs fs'' l := by
  obtain ⟨mode, serial, content, more, hold, hnew⟩ := h
  obtain ⟨mode', serial', content', more', hold', hnew'⟩ := h'
  -- it is the same file in between
  cases hnew.symm.trans hold'
  rw [List.append_assoc] at hnew'
  exact ⟨mode, serial, content, more ++ more', hold, hnew'⟩

/-- What is as it was at first may get longer after that. -/
theorem Longer.of_eq_left {fs'' : Files} {l : Location} (h : Longer fs' fs'' l)
    (heq : fs'.tree.get? l = fs.tree.get? l) : Longer fs fs'' l := by
  unfold Longer at h ⊢
  rwa [heq] at h

/-- And what has got longer may stay so. -/
theorem Longer.of_eq_right {fs'' : Files} {l : Location} (h : Longer fs fs' l)
    (heq : fs''.tree.get? l = fs'.tree.get? l) : Longer fs fs'' l := by
  unfold Longer at h ⊢
  rwa [← heq] at h

/-- Nothing has changed, but files of `own` may have got longer. -/
def Grown (own : Location → Prop) (fs fs' : Files) : Prop :=
  ∀ l, fs'.tree.get? l = fs.tree.get? l ∨ own l ∧ Longer fs fs' l

section Grown

variable {own : Location → Prop} {fs'' : Files}

/-- Where nothing is done nothing has got longer. -/
theorem Grown.refl (own : Location → Prop) (fs : Files) : Grown own fs fs :=
  fun _ => .inl rfl

/-- **Writes one after the other** make no more files longer than those of each of them. -/
theorem Grown.trans (h : Grown own fs fs') (h' : Grown own fs' fs'') : Grown own fs fs'' := by
  intro l
  -- it is longer after both if it got longer in one of them
  rcases h l with hfirst | ⟨hown, hfirst⟩
  · rcases h' l with hnext | ⟨hown, hnext⟩
    · exact .inl (hnext.trans hfirst)
    · exact .inr ⟨hown, hnext.of_eq_left hfirst⟩
  · rcases h' l with hnext | ⟨-, hnext⟩
    · exact .inr ⟨hown, hfirst.of_eq_right hnext⟩
    · exact .inr ⟨hown, hfirst.trans hnext⟩

/-- What is not there now was not there before. -/
theorem Grown.none (h : Grown own fs fs') {l : Location} (hl : fs'.tree.get? l = none) :
    fs.tree.get? l = none := by
  rcases h l with hsame | ⟨-, mode, serial, content, more, -, hnew⟩
  · exact hsame.symm.trans hl
  · rw [hl] at hnew
    cases hnew

/-- No other file is changed. -/
theorem Grown.same (h : Grown own fs fs') {l : Location} (hl : ¬ own l) :
    fs'.tree.get? l = fs.tree.get? l :=
  (h l).resolve_right fun hlonger => hl hlonger.1

end Grown

/-- A write makes one file longer, if any. -/
theorem grown_append (fs : Files) (handle : FileHandle) (octets : Bytes) :
    Grown (· = handle.location) fs (fs.append handle octets).2 := by
  intro l
  by_cases hl : l = handle.location
  · subst hl
    rcases append_eq fs handle octets with h | ⟨written, h⟩
    · exact .inl (by rw [h])
    have happend : (fs.append handle octets).2.tree.get? handle.location =
        (fs.tree.get? handle.location).map (Change.onContent (· ++ written)) := by
      rw [h, commit, Change.apply, Change.get?_update_self]
    rw [happend]
    -- only a file has a content that could get longer
    cases he : fs.tree.get? handle.location with
    | none => exact .inl rfl
    | some e =>
      rw [he] at happend
      cases e with
      | file mode serial content => exact .inr ⟨rfl, mode, serial, content, written, he, happend⟩
      | folder => exact .inl rfl
      | link => exact .inl rfl
  · exact .inl (get?_append_of_ne fs hl)

/-! ### Files that are opened -/

/-- The file that a path leads to was opened to add to it, and is new if nothing was there. -/
structure Opened (p : Path) (fs : Files) (handle : FileHandle) (fs' : Files) : Prop where
  led : ∃ found, (fs.route? p >>= seek fs.tree maxLinks) = .ok (handle.location, found)
  here : fs'.here = fs.here
  shown : fs.tree.ShownBy fs'.tree
  others : ∀ l, l ≠ handle.location → fs'.tree.get? l = fs.tree.get? l
  file : fs'.tree.shape handle.location = some .file
  place : fs'.tree.get? handle.location = fs.tree.get? handle.location ∨
    fs.tree.get? handle.location = none

/-- What is known of a file that was opened to add to it, whether or not it was there. -/
theorem opened_of_openToAppend {p : Path} {handle : FileHandle}
    (h : fs.openToAppend p = (.ok handle, fs')) : Opened p fs handle fs' := by
  rcases openToAppend_cases h with
    ⟨handle', mode, content, hhandle, rfl, hseek⟩ | ⟨handle', hhandle, hseek, hnone, hevolves⟩ |
      ⟨f, hf, -⟩
  -- the file was there, and opening it does nothing to it
  · cases hhandle
    have hshape : fs'.tree.shape handle.location = some .file :=
      Tree.shape_of_get? (get?_of_route_seek hseek).1
    exact ⟨⟨_, hseek⟩, rfl, .refl _, fun _ _ => rfl, hshape, .inl rfl⟩
  -- it was not, so it is made, and it is empty
  · cases hhandle
    have htree := hevolves.tree
    constructor
    case led => exact ⟨_, hseek⟩
    case here => exact hevolves.here
    case shown =>
      rw [htree]
      exact Change.shownBy_create hnone _
    case others =>
      intro l hl
      rw [htree]
      exact Tree.get?_put_of_ne _ _ hl
    case file =>
      rw [htree]
      exact Tree.shape_of_get? (Tree.get?_put_self ..)
    case place => exact .inr hnone
  · cases hf

end Files

/-! ## Lines and records -/

/-- The log was opened at a location. -/
def EventLog.At (log : EventLog) (l : Location) : Prop :=
  ∃ handle, log.handle = some handle ∧ l = handle.location

/-- A line makes the log longer, if it does anything. -/
theorem EventLog.grown_note (log : EventLog) (clock : Clock) (e : Event) (fs : Files) :
    fs.Grown log.At (log.note clock e fs) := by
  unfold EventLog.note
  cases hhandle : log.handle with
  | none => exact .refl _ _
  | some handle =>
    intro l
    rcases Files.grown_append fs handle (bytes (line clock.wall e)) l with hsame | ⟨hl, hlonger⟩
    · exact .inl hsame
    · exact .inr ⟨⟨handle, hhandle, hl⟩, hlonger⟩

/-- The file of the log got its number before `serial` was drawn. -/
def EventLog.OpenedBy (log : EventLog) (serial : Nat) : Prop :=
  ∀ handle, log.handle = some handle → handle.serial < serial

/-- A line uses up no number and no octet of the limit. -/
theorem EventLog.numbers_note (log : EventLog) (clock : Clock) (e : Event) (fs : Files) :
    (log.note clock e fs).numbers = fs.numbers := by
  rcases log.note_cases clock e fs with h | ⟨handle, octets, -, h⟩
  · rw [h]
  · rw [h]
    rfl

/-- **A file that is newer than the log** is left alone by it. -/
theorem EventLog.get?_note {log : EventLog} {fs : Files} {l : Location} {mode serial : Nat}
    {content : Bytes} (hlog : log.OpenedBy serial)
    (hfile : fs.tree.get? l = some (.file mode serial content)) (clock : Clock) (e : Event) :
    (log.note clock e fs).tree.get? l = some (.file mode serial content) := by
  unfold EventLog.note
  split
  · rename_i handle hhandle
    -- a line that got into the file would have come through a handle with its number
    obtain ⟨more, hmore, rfl | rfl⟩ :=
      Files.get?_append hfile handle (bytes (line clock.wall e))
    · rwa [List.append_nil] at hmore
    · exact absurd (hlog _ hhandle) (Nat.lt_irrefl _)
  · exact hfile

namespace Journal

/-- A path leads to the file at `l` when something is to be added to it. -/
def KeptAt (journal : Path) (fs : Files) (l : Location) : Prop :=
  ∃ found, (fs.route? journal >>= seek fs.tree maxLinks) = .ok (l, found)

/-- A journal is where it was when something is added to the tree, as long as no folder and no
link is put there. -/
theorem KeptAt.mono {journal : Path} {fs fs' : Files} {l : Location} (h : KeptAt journal fs l)
    (hhere : fs'.here = fs.here) (hshown : fs.tree.ShownBy fs'.tree)
    (hl : ∀ s, fs'.tree.shape l = some s → s = .file) : KeptAt journal fs' l := by
  obtain ⟨found, hfound⟩ := h
  have hroute : fs'.route? journal = fs.route? journal := by unfold Files.route?; rw [hhere]
  refine ⟨fs'.tree.get? l, ?_⟩
  rw [hroute]
  cases h : fs.route? journal with
  | error f => rw [h] at hfound; cases hfound
  | ok r => rw [h] at hfound; exact seek_mono hshown hfound hl

/-- The folders above a file that is to be added to. -/
def above (p : Path) : List Path :=
  match p.parent? with
  | some parent => parent.lineage
  | none => []

/-- Room is made by folders alone, and only where nothing was. -/
theorem makeRoom_furnished (journal : Path) (fs : Files) :
    ∃ made, Files.Furnished (above journal) fs made (makeRoom journal fs) := by
  unfold makeRoom above
  cases journal.parent? with
  | some parent => exact Files.makeLineage_furnished rfl
  | none => exact ⟨[], .refl _ _⟩

/-- It uses up no number. -/
theorem numbers_makeRoom (journal : Path) (fs : Files) :
    (makeRoom journal fs).numbers = fs.numbers := by
  unfold makeRoom
  split
  · exact Files.numbers_makeLineage ..
  · rfl

/-- A file that is opened to add to it is where the path leads, also if it is new. -/
theorem keptAt_of_opened {journal : Path} {fs fs' : Files} {handle : FileHandle}
    (h : Files.Opened journal fs handle fs') : KeptAt journal fs' handle.location := by
  have hkept : KeptAt journal fs handle.location := h.led
  refine hkept.mono h.here h.shown fun s hs => ?_
  rw [h.file] at hs
  exact (Option.some.inj hs).symm

/-- A journal is where it was when something was written to any file. -/
theorem KeptAt.append {journal : Path} {fs : Files} {l : Location} (h : KeptAt journal fs l)
    (handle : FileHandle) (octets : Bytes) : KeptAt journal (fs.append handle octets).2 l := by
  refine h.mono (Files.here_appended ..) (Files.shownBy_append _ _ _) fun s hs => ?_
  obtain ⟨found, hfound⟩ := h
  obtain ⟨hget, hfile⟩ := Files.get?_of_route_seek hfound
  rw [Files.shape_appended, Tree.shape, hget] at hs
  obtain ⟨e, rfl, rfl⟩ := Option.map_eq_some_iff.mp hs
  exact Entry.isFile_iff.mp (hfile e rfl)

/-- A folder at `l` is new. It is one of those above the journal. -/
def MadeAbove (journal : Path) (fs fs' : Files) (l : Location) : Prop :=
  fs.tree.get? l = none ∧ fs'.tree.get? l = some (.folder 0o755) ∧
    ∃ p ∈ above journal, ∃ folder name, fs'.Slot p folder name ∧ l = folder ++ [name]

/-- A folder above the journal is still one when nothing has happened to it. -/
theorem MadeAbove.mono {journal : Path} {fs fs₁ fs₂ : Files} {l : Location}
    (h : MadeAbove journal fs fs₁ l) (hhere : fs₂.here = fs₁.here)
    (hshown : fs₁.tree.ShownBy fs₂.tree) (hl : fs₂.tree.get? l = fs₁.tree.get? l) :
    MadeAbove journal fs fs₂ l := by
  obtain ⟨hnone, hfolder, p, hp, folder, name, hslot, hname⟩ := h
  exact ⟨hnone, hl.trans hfolder, p, hp, folder, name, hslot.mono hhere hshown, hname⟩

/-- Each location is as it was when room is made, or it is one of the folders above the journal.
-/
theorem madeAbove_makeRoom (journal : Path) (fs : Files) (l : Location) :
    (makeRoom journal fs).tree.get? l = fs.tree.get? l ∨
      MadeAbove journal fs (makeRoom journal fs) l := by
  obtain ⟨made, hmade⟩ := makeRoom_furnished journal fs
  -- only what was made differs, and that is folders
  by_cases hl : l ∈ made
  · right
    exact ⟨hmade.fresh l hl, by rw [hmade.get?, if_pos hl], hmade.named l hl⟩
  · left
    rw [hmade.get?, if_neg hl]

/-- What has become of a location when a record was added to the journal. -/
inductive Added (journal : Path) (fs fs' : Files) (l : Location) : Prop where
  | same (hsame : fs'.tree.get? l = fs.tree.get? l)
  | longer (hkept : KeptAt journal fs' l) (hlonger : fs.Longer fs' l)
  | new (hkept : KeptAt journal fs' l) (hnone : fs.tree.get? l = none)
      (hfile : fs'.tree.shape l = some .file)
  | folder (hmade : MadeAbove journal fs fs' l)

/-- Whatever is written to a journal that was opened, it is all in one place. -/
theorem added_append {journal : Path} {fs fs₁ : Files} {handle : FileHandle}
    (h : Files.Opened journal (makeRoom journal fs) handle fs₁) (octets : Bytes) (l : Location) :
    Added journal fs (fs₁.append handle octets).2 l := by
  have hkept := (keptAt_of_opened h).append handle octets
  have hroom := madeAbove_makeRoom journal fs l
  by_cases hl : l = handle.location
  · subst hl
    -- no folder was made where the journal is
    have hsame : (makeRoom journal fs).tree.get? handle.location =
        fs.tree.get? handle.location := by
      refine hroom.resolve_right fun hmade => ?_
      have hfolder := h.shown _ _ (Tree.shape_of_get? hmade.2.1)
      rw [h.file] at hfolder
      cases hfolder
    -- the journal was there and has got longer, or it is new
    rcases h.place with hplace | hnew
    · rcases Files.grown_append fs₁ handle octets handle.location with hleft | ⟨-, hlonger⟩
      · exact .same (hleft.trans (hplace.trans hsame))
      · exact .longer hkept (hlonger.of_eq_left (hplace.trans hsame))
    · exact .new hkept (hsame.symm.trans hnew) ((Files.shape_appended ..).trans h.file)
  · have hleft : (fs₁.append handle octets).2.tree.get? l = (makeRoom journal fs).tree.get? l :=
      (Files.get?_append_of_ne fs₁ hl).trans (h.others l hl)
    rcases hroom with hroom | hmade
    · exact .same (hleft.trans hroom)
    · exact .folder (hmade.mono ((Files.here_appended ..).trans h.here)
        (h.shown.trans (Files.shownBy_append fs₁ handle octets)) hleft)

/-- What a record leaves at the end of the journal: its line, or the start of it. -/
def trace (r : Record) : Bytes :=
  match r.render? with
  | some line => Utf8.encodeChars (line ++ ['\n'])
  | none => Utf8.encodeChars r.start

/-- Something is written for every record. -/
theorem trace_ne_nil (r : Record) : trace r ≠ [] := by
  unfold trace
  split
  · simp [Utf8.encodeChars, Utf8.encodeChar]
  · simp [Utf8.encodeChars, Utf8.encodeChar, Record.start]

/-- Once the journal is open, a record is written to it in one go, whatever comes of that. -/
theorem files_add_of_open {journal : Path} {fs fs₁ : Files} {handle : FileHandle}
    (hopen : (makeRoom journal fs).openToAppend journal = (.ok handle, fs₁)) (r : Record) :
    (add journal r fs).2 = (fs₁.append handle (trace r)).2 := by
  unfold add trace
  rw [hopen]
  dsimp only
  cases r.render? with
  | none => rfl
  | some line =>
    dsimp only
    cases happend : fs₁.append handle (Utf8.encodeChars (line ++ ['\n'])) with
    | mk written fs₂ => cases written <;> rfl

/-- A journal that cannot be opened is left as it was, with room made for it. -/
theorem files_add_of_closed {journal : Path} {fs fs₁ : Files} {f : Fault}
    (hopen : (makeRoom journal fs).openToAppend journal = (.error f, fs₁)) (r : Record) :
    (add journal r fs).2 = makeRoom journal fs := by
  unfold add
  rw [hopen]
  dsimp only
  rcases Files.openToAppend_cases hopen with ⟨_, _, _, h, -⟩ | ⟨_, h, -⟩ | ⟨_, -, h⟩
  · cases h
  · cases h
  · exact h

/-- **What a record does** to the files: it is at the end of the journal, or is all that there is in
a new one, and the folders above the journal are made. -/
theorem added_add (journal : Path) (r : Record) (fs : Files) (l : Location) :
    Added journal fs (add journal r fs).2 l := by
  -- if the journal cannot be opened there are still the folders that were made for it
  cases hopen : (makeRoom journal fs).openToAppend journal with
  | mk opened fs₁ =>
    cases opened with
    | error f =>
      rw [files_add_of_closed hopen r]
      rcases madeAbove_makeRoom journal fs l with hsame | hmade
      · exact .same hsame
      · exact .folder hmade
    | ok handle =>
      rw [files_add_of_open hopen r]
      exact added_append (Files.opened_of_openToAppend hopen) (trace r) l

/-- **A record is added at the end of the journal**, and no other file is changed. -/
theorem get?_add (fs : Files) {l : Location} {mode serial : Nat} {content : Bytes}
    (hfile : fs.tree.get? l = some (.file mode serial content)) (journal : Path) (r : Record) :
    ∃ more, (add journal r fs).2.tree.get? l = some (.file mode serial (content ++ more)) ∧
      (more = [] ∨ KeptAt journal (add journal r fs).2 l) := by
  -- there was a file, so it can only be as it was or longer
  cases added_add journal r fs l with
  | same hsame => exact ⟨[], by rw [hsame, hfile, List.append_nil], .inl rfl⟩
  | longer hkept hlonger =>
    obtain ⟨mode', serial', content', more, hold, hnew⟩ := hlonger
    cases hold.symm.trans hfile
    exact ⟨more, hnew, .inr hkept⟩
  | new _ hnone =>
    rw [hnone] at hfile
    cases hfile
  | folder hmade =>
    rw [hmade.1] at hfile
    cases hfile

/-- A journal that is there is opened where it is. -/
theorem openToAppend_of_kept {fs : Files} {l : Location} {mode serial : Nat} {content : Bytes}
    {journal : Path} (hfile : fs.tree.get? l = some (.file mode serial content))
    (hkept : KeptAt journal fs l) :
    (makeRoom journal fs).openToAppend journal = (.ok ⟨l, serial⟩, makeRoom journal fs) ∧
      KeptAt journal (makeRoom journal fs) l ∧
      (makeRoom journal fs).Holds ⟨l, serial⟩ mode content := by
  obtain ⟨made, hmade⟩ := makeRoom_furnished journal fs
  have hl : l ∉ made := fun hl => by
    rw [hmade.fresh l hl] at hfile
    cases hfile
  have hroom : (makeRoom journal fs).tree.get? l = some (.file mode serial content) := by
    rw [hmade.get?, if_neg hl, hfile]
  -- the path leads to the same file when there is room for it
  have hkept' : KeptAt journal (makeRoom journal fs) l :=
    hkept.mono hmade.evolves.here hmade.shown fun s hs => by
      rw [Tree.shape_of_get? hroom] at hs
      exact (Option.some.inj hs).symm
  refine ⟨?_, hkept', hroom⟩
  obtain ⟨found, hfound⟩ := hkept'
  obtain rfl : found = some (.file mode serial content) :=
    (Files.get?_of_route_seek hfound).1.symm.trans hroom
  unfold Files.openToAppend
  rw [hfound]

/-- If nothing limits the size of the journal, a record is added. -/
theorem get?_add_of_kept (fs : Files) {l : Location} {mode serial : Nat} {content : Bytes}
    {journal : Path} (hfile : fs.tree.get? l = some (.file mode serial content))
    (hkept : KeptAt journal fs l) (hlimit : fs.sizeLimit = none) (r : Record) :
    ∃ more, (add journal r fs).2.tree.get? l = some (.file mode serial (content ++ more)) ∧
      more ≠ [] := by
  obtain ⟨hopen, -, hholds⟩ := openToAppend_of_kept hfile hkept
  have hlimit' : (makeRoom journal fs).sizeLimit = none :=
    (Files.sizeLimit_of_disk (congrArg Prod.snd (numbers_makeRoom journal fs))).trans hlimit
  rw [files_add_of_open hopen r,
    Files.append_of_fits (trace r) hholds fun limit h => by rw [hlimit'] at h; cases h]
  exact ⟨trace r, hholds.append (trace r), trace_ne_nil r⟩

end Journal

namespace Session

/-- The listener's journal is kept at a location. -/
def JournalAt (ctx : Context) (fs : Files) (l : Location) : Prop :=
  ∃ journal, ctx.journal = some journal ∧ Journal.KeptAt journal fs l

/-- The files that a listener writes by itself: its log, and what its journal's path leads to. -/
def Kept (ctx : Context) (fs : Files) (l : Location) : Prop :=
  ctx.log.At l ∨ JournalAt ctx fs l

/-- What follows a transfer adds to no file but the journal. -/
theorem get?_journaled {ctx : Context} {fs fs' : Files} {l : Location} {mode serial : Nat}
    {content : Bytes} (h : Journaled ctx fs fs')
    (hfile : fs.tree.get? l = some (.file mode serial content)) :
    ∃ more, fs'.tree.get? l = some (.file mode serial (content ++ more)) ∧
      (more = [] ∨ JournalAt ctx fs' l) := by
  rcases h with rfl | ⟨journal, record, n, hjournal, rfl⟩
  · exact ⟨[], by rwa [List.append_nil], .inl rfl⟩
  · obtain ⟨more, hmore, hkept⟩ :=
      Journal.get?_add { fs with drawn := n } hfile journal record
    exact ⟨more, hmore, hkept.imp id fun hkept => ⟨journal, hjournal, hkept⟩⟩

/-- What is left of the files when a record has been added, or could not be. -/
theorem journalize_added {ctx : Context} {journal : Path} (hjournal : ctx.journal = some journal)
    (command : Command) (peer : String) (file : Path) (result : Except TransferError Report)
    (m : Machine) :
    (journalize ctx command peer file result m).files =
      (Journal.add journal (recordOf m.ambient.clock m.files.drawn command peer file result)
        { m.files with drawn := m.files.drawn + 1 }).2 := by
  unfold journalize
  rw [hjournal]
  dsimp only
  cases hadd : Journal.add journal (recordOf m.ambient.clock m.files.drawn command peer file result)
      { m.files with drawn := m.files.drawn + 1 } with
  | mk added files => cases added <;> simp [Machine.warn]

/-- The same, without saying what the record is. -/
theorem journalize_files {ctx : Context} {journal : Path} (hjournal : ctx.journal = some journal)
    (command : Command) (peer : String) (file : Path) (result : Except TransferError Report)
    (m : Machine) :
    ∃ record n, (journalize ctx command peer file result m).files =
      (Journal.add journal record { m.files with drawn := n }).2 :=
  ⟨_, _, journalize_added hjournal command peer file result m⟩

/-- A session whose path is resolved adds a record to the journal, if there is one and the transfer
does not panic. -/
theorem serve_recorded {ctx : Context} {peer : String} {header : Header} {c : Connection}
    {m : Machine} {r : Location} {journal : Path} (hjournal : ctx.journal = some journal)
    (h : resolve (opening ctx peer header m.ambient.clock m.files) ctx.root (.of header.path) =
      .ok r)
    (hend : TransferError.hasPanicked (transfer ctx header.command (Files.pathOf r) c
      { m with files := opening ctx peer header m.ambient.clock m.files }).1 = false) :
    ∃ clock e files record n,
      files = ctx.log.note clock e (transfer ctx header.command (Files.pathOf r) c
        { m with files := opening ctx peer header m.ambient.clock m.files }).2.2.files ∧
      (serve ctx peer header c m).2.2.files =
        (Journal.add journal record { files with drawn := n }).2 := by
  cases htransfer : transfer ctx header.command (Files.pathOf r) c
      { m with files := opening ctx peer header m.ambient.clock m.files } with
  | mk result rest =>
  obtain ⟨c', n⟩ := rest
  rw [htransfer] at hend
  rw [serve_eq h htransfer, conclude_of_not hend]
  obtain ⟨record, n, hrecord⟩ := journalize_files hjournal header.command peer (Files.pathOf r) _
    (Machine.mapFiles _ _)
  exact ⟨_, _, _, record, n, rfl, hrecord⟩

end Session

end Courier
