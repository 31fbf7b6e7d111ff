import Courier.Proofs.Atomic
import Courier.Proofs.Disclosure
import Courier.Proofs.Growth
import Courier.Proofs.Journal
import Courier.Proofs.Unaware

/-!
# What lies outside of what is served

A transfer changes nothing but what lies strictly below the root. A log that lies outside of what is
served keeps its content through a transfer, and so does a journal whose path leads outside whatever
is served.

Main results:

* `Session.inside_transfer` — a transfer changes only what is served.
* `Journal.Outside` — a journal of which nothing comes to lie in what is served.
* `Journal.Apart` — a journal that can be added to in one place, whatever is served.
* `Journal.Apart.keeps_add` — a record is added to such a journal.
-/

namespace Courier

open Files

/-! ## A transfer -/

namespace Files

/-- Nothing has changed but what lies strictly below `top`, and no folder or link is gone. -/
structure Inside (top : Location) (fs fs' : Files) : Prop where
  here : fs'.here = fs.here
  sizeLimit : fs'.sizeLimit = fs.sizeLimit
  others : ∀ l, ¬ StrictlyBelow top l → fs'.tree.get? l = fs.tree.get? l
  shown : fs.tree.ShownBy fs'.tree
  intact : fs.tree.WellFormed → fs'.tree.WellFormed
  distinct : fs.tree.Distinct → fs'.tree.Distinct

variable {top : Location} {fs fs' : Files}

/-- Nothing has changed where nothing is done. -/
theorem Inside.refl (top : Location) (fs : Files) : fs.Inside top fs :=
  ⟨rfl, rfl, fun _ _ => rfl, .refl _, id, id⟩

/-- Changes below the root one after the other are changes below the root. -/
theorem Inside.trans {fs'' : Files} (h : fs.Inside top fs') (h' : fs'.Inside top fs'') :
    fs.Inside top fs'' where
  here := h'.here.trans h.here
  sizeLimit := h'.sizeLimit.trans h.sizeLimit
  others := fun l hl => (h'.others l hl).trans (h.others l hl)
  shown := h.shown.trans h'.shown
  intact := h'.intact ∘ h.intact
  distinct := h'.distinct ∘ h.distinct

/-- What is not below the root at all is not strictly below it. -/
theorem not_strictlyBelow {l : Location} (h : ¬ top <+: l) : ¬ StrictlyBelow top l :=
  fun hbelow => h hbelow.1

end Files

namespace Session

variable {fs : Files} {root asked : Path} {top r : Location} {e : Entry}

/-- The folders that are made for a served location lie strictly below the root. -/
theorem furnished_below {prepared : Files} {made : List Location} (ht : fs.tree.WellFormed)
    (hroot : fs.stat root = .ok (top, e)) (h : resolve fs root asked = .ok r)
    (hmade : Furnished (pathOf r).folder.lineage fs made prepared) :
    ∀ l ∈ made, StrictlyBelow top l := by
  obtain ⟨top', e', hroot', hbelow, hclear, hproper, -⟩ := resolve_eq_ok ht h
  obtain rfl : top' = top := (Prod.mk.inj (Except.ok.inj (hroot'.symm.trans hroot))).1
  rcases List.eq_nil_or_concat r with rfl | ⟨k, n, rfl⟩
  · -- the root is the top of the tree, and everything that has a name lies below it
    obtain rfl := List.prefix_nil.mp hbelow
    intro l hl
    obtain ⟨p, -, folder, name, -, rfl⟩ := hmade.named l hl
    exact strictlyBelow_concat List.nil_prefix name
  · rw [List.concat_eq_append] at *
    exact made_below ht hproper hclear (firm_of_stat ht hroot') hbelow hmade

/-- Where it is staged and put in its place, a file for a served location changes nothing else. -/
theorem inside_stages {fs' : Files} {cs : List Change} {data : Bytes}
    {result : Except TransferError Report} (hproper : ProperLocation r)
    (hclear : fs.tree.Clear r) (hbelow : fs.tree.shape r ≠ some .folder → StrictlyBelow top r)
    (hlimit : fs'.sizeLimit = fs.sizeLimit) (hevolves : fs.Evolves cs fs')
    (h : Transfer.Stages (pathOf r) data fs result cs) : fs.Inside top fs' := by
  have hreplaces := h.replaces
  cases result with
  | error e =>
    -- all is as before in the end
    obtain ⟨-, hsame⟩ := hreplaces.error e rfl
    rw [← hevolves.tree] at hsame
    have hshape (l : Location) : fs'.tree.shape l = fs.tree.shape l :=
      congrArg (Option.map Entry.shape) (hsame l)
    exact ⟨hevolves.here, hlimit, fun l _ => hsame l, fun l s hs => (hshape l).trans hs,
      fun ht => ht.of_shape_eq hshape, hevolves.distinct⟩
  | ok report =>
    obtain ⟨folder, name, source, earlier, mode, serial, hslot, hfree, -, -, hfile, -, hothers⟩ :=
      hreplaces.ok report rfl
    rw [← hevolves.tree] at hfile hothers
    obtain rfl := slot_pathOf hproper hclear hslot
    have hfree' : fs.tree.shape (folder ++ [name]) ≠ some .folder := fun hfolder => by
      obtain ⟨mode, hmode⟩ := Tree.shape_eq_folder.mp hfolder
      exact hfree mode hmode
    have hnew : fs'.tree.shape (folder ++ [name]) = some .file := Tree.shape_of_get? hfile
    constructor
    case here => exact hevolves.here
    case sizeLimit => exact hlimit
    case others =>
      intro l hl
      refine hothers l fun heq => hl ?_
      rw [heq]
      exact hbelow hfree'
    case shown =>
      intro l s hs
      by_cases hl : l = folder ++ [name]
      · -- there was a file in its place, if anything
        rw [hl] at hs ⊢
        cases s with
        | file => exact hnew
        | folder => exact absurd hs hfree'
        | link target => exact absurd (Tree.shape_eq_link.mp hs) (hclear _ List.prefix_rfl target)
      · rw [Tree.shape, hothers l hl]
        exact hs
    case intact =>
      intro ht
      refine (ht.put hslot.place hfree' (.file mode serial data)).of_shape_eq fun l => ?_
      by_cases hl : l = folder ++ [name]
      · rw [hl, hnew, Tree.shape, Tree.get?_put_self]
        rfl
      · rw [Tree.shape, Tree.shape, hothers l hl, Tree.get?_put_of_ne _ _ hl]
    case distinct => exact hevolves.distinct

/-- **A receive changes only what is served**, and takes no folder or link away. -/
theorem inside_receiveFile (settings : Settings) (s : Inbound) (a : Ambient)
    (ht : fs.tree.WellFormed) (hroot : fs.stat root = .ok (top, e))
    (h : resolve fs root asked = .ok r) :
    fs.Inside top (Transfer.receiveFile settings (pathOf r) s a fs).2.2.2 := by
  obtain ⟨-, -, -, -, hclear, hproper, -⟩ := resolve_eq_ok ht h
  have hne : (pathOf r).isEmpty = false := by simpa [Path.isEmpty] using text_pathOf_ne_nil r
  have hlimit := Transfer.sizeLimit_receiveFile settings (pathOf r) s a fs
  have hnumbers := Transfer.numbers_prepareFolder (pathOf r) fs
  obtain ⟨prepared, made, hmade, hcases⟩ := Transfer.receiveFile_cases settings s a fs hne
  have hbelow := furnished_below ht hroot h hmade
  have hprepared (hnumbers : prepared.numbers = fs.numbers) : fs.Inside top prepared :=
    ⟨hmade.evolves.here, sizeLimit_of_disk (congrArg Prod.snd hnumbers),
      fun l hl => by rw [hmade.get?, if_neg fun hmem => hl (hbelow l hmem)], hmade.shown,
      hmade.wellFormed, hmade.evolves.distinct⟩
  rcases hcases with ⟨_, hprepare, -, hfiles⟩ | ⟨hprepare, cs, hevolves, hstages⟩
  · rw [hprepare] at hnumbers
    rw [hfiles]
    exact hprepared hnumbers
  · rw [hprepare] at hnumbers
    have hinside := hprepared hnumbers
    refine hinside.trans (inside_stages hproper (clear_of_furnished hmade hclear) ?_
      (hlimit.trans hinside.sizeLimit.symm) hevolves hstages)
    -- where there is no folder now, there was none before
    exact fun hfree => strictlyBelow_of_resolve ht hroot h fun hfolder =>
      hfree (hmade.shown _ _ hfolder)

/-- **A transfer changes only what is served.** -/
theorem inside_transfer (ctx : Context) (command : Command) (c : Connection) {m : Machine}
    (ht : m.files.tree.WellFormed) (hroot : m.files.stat root = .ok (top, e))
    (h : resolve m.files root asked = .ok r) :
    m.files.Inside top (transfer ctx command (pathOf r) c m).2.2.files := by
  rcases transfer_files ctx command (pathOf r) c m with ⟨-, hfiles⟩ | ⟨-, hfiles⟩
  · rw [hfiles]
    exact .refl top m.files
  · rw [hfiles]
    exact inside_receiveFile ctx.settings c.inbound m.ambient ht hroot h

end Session

/-! ## The journal -/

namespace Files

/-- Two states look the same outside of what is served. -/
structure SameOutside (top : Location) (fs fs' : Files) : Prop where
  here : fs'.here = fs.here
  shape : ∀ x, ¬ StrictlyBelow top x → fs'.tree.shape x = fs.tree.shape x

/-- Two states look the same outside of what is served, but that in the second there may be folders
`made` and a file `l` that were missing in the first. -/
structure Beside (top : Location) (made : List Location) (l : Location) (fs fs' : Files) :
    Prop where
  here : fs'.here = fs.here
  shape : ∀ x, ¬ StrictlyBelow top x → fs'.tree.shape x = fs.tree.shape x ∨
    fs.tree.shape x = none ∧
      (x = l ∧ fs'.tree.shape x = some .file ∨ x ∈ made ∧ fs'.tree.shape x = some .folder)

variable {top l : Location} {made : List Location} {fs fs' fs'' : Files}

/-- Where all changes are below the root everything outside is the same. -/
theorem Inside.sameOutside (h : fs.Inside top fs') : fs.SameOutside top fs' :=
  ⟨h.here, fun x hx => congrArg (Option.map Entry.shape) (h.others x hx)⟩

/-- What is twice the same is the same. -/
theorem SameOutside.trans (h : fs.SameOutside top fs') (h' : fs'.SameOutside top fs'') :
    fs.SameOutside top fs'' :=
  ⟨h'.here.trans h.here, fun x hx => (h'.shape x hx).trans (h.shape x hx)⟩

/-- Where everything outside is the same it is so beside the journal. -/
theorem SameOutside.beside (h : fs.SameOutside top fs') (made : List Location) (l : Location) :
    fs.Beside top made l fs' :=
  ⟨h.here, fun x hx => .inl (h.shape x hx)⟩

/-- Beside the journal, too, nothing has changed then. -/
theorem Beside.refl (fs : Files) : fs.Beside top made l fs :=
  ⟨rfl, fun _ _ => .inl rfl⟩

/-- And what is done beside the journal one after the other is done beside it. -/
theorem Beside.trans (h : fs.Beside top made l fs') (h' : fs'.Beside top made l fs'') :
    fs.Beside top made l fs'' where
  here := h'.here.trans h.here
  shape := by
    intro x hx
    rcases h'.shape x hx with hsame | ⟨hnone, hnew⟩
    · rw [hsame]
      exact h.shape x hx
    · -- what is missing in between was missing at first
      refine .inr ⟨?_, hnew⟩
      rcases h.shape x hx with hsame | ⟨hfirst, -⟩
      · exact hsame.symm.trans hnone
      · exact hfirst

end Files

namespace Journal

/-- Whatever is served, nothing of the journal comes to lie in it: its path does not lead there, and
no folder for it is made there. -/
def Outside (top : Location) (journal : Path) (fs : Files) : Prop :=
  ∀ fs', fs.SameOutside top fs' → ∀ l, top <+: l →
    (makeRoom journal fs').tree.get? l = fs'.tree.get? l ∧ ¬ KeptAt journal (makeRoom journal fs') l

/-- Whatever is served, and however much of it is there already, the journal can be opened at `l`,
and only the folders `made` are made for it; none of these locations is served. -/
structure Apart (top : Location) (journal : Path) (fs : Files) (made : List Location)
    (l : Location) : Prop where
  outside : ∀ x ∈ l :: made, ¬ top <+: x
  opens : ∀ fs', fs.Beside top made l fs' → ∃ serial fs₁,
    (makeRoom journal fs').openToAppend journal = (.ok ⟨l, serial⟩, fs₁) ∧
      ∀ x, fs₁.tree.shape x = if x = l then some .file else
        if x ∈ made then some .folder else fs'.tree.shape x

/-- At a location there is a file with this content, or nothing and there is no content. -/
def HeldAt (l : Location) (fs : Files) (content : Bytes) : Prop :=
  (∃ mode serial, fs.tree.get? l = some (.file mode serial content)) ∨
    fs.tree.get? l = none ∧ content = []

variable {top l : Location} {made : List Location} {journal : Path} {fs fs' fs₁ : Files}
  {handle : FileHandle}

/-- What is served is left alone by a journal outside of it. -/
theorem Outside.get?_add (h : Outside top journal fs) (hsame : fs.SameOutside top fs')
    (hl : top <+: l) (r : Record) : (add journal r fs').2.tree.get? l = fs'.tree.get? l := by
  obtain ⟨hroom, hnot⟩ := h fs' hsame l hl
  cases hopen : (makeRoom journal fs').openToAppend journal with
  | mk opened fs₁ =>
    cases opened with
    | error f =>
      rw [files_add_of_closed hopen]
      exact hroom
    | ok handle =>
      have hopened := opened_of_openToAppend hopen
      have hne : l ≠ handle.location := fun heq => hnot (heq ▸ hopened.led)
      rw [files_add_of_open hopen, get?_append_of_ne _ hne, hopened.others l hne, hroom]

/-- Where the path leads, no folder is made for the journal. -/
theorem get?_makeRoom_of_kept (h : KeptAt journal (makeRoom journal fs) l) :
    (makeRoom journal fs).tree.get? l = fs.tree.get? l := by
  obtain ⟨found, hfound⟩ := h
  obtain ⟨hget, hfile⟩ := get?_of_route_seek hfound
  refine (madeAbove_makeRoom journal fs l).resolve_right fun hmade => ?_
  have hfolder := hmade.2.1
  rw [hget] at hfolder
  cases hfile _ hfolder

/-- A file that is opened has the content that was held at its location. -/
theorem heldAt_iff_of_open
    (hopen : (makeRoom journal fs).openToAppend journal = (.ok handle, fs₁)) {content : Bytes} :
    HeldAt handle.location fs content ↔ ∃ mode, fs₁.Holds handle mode content := by
  have hsame := get?_makeRoom_of_kept (opened_of_openToAppend hopen).led
  unfold HeldAt
  rw [← hsame]
  -- the file was there, with what it holds, or it is new and empty
  rcases openToAppend_cases hopen with
    ⟨handle', mode, content', hr, rfl, hseek⟩ | ⟨handle', hr, -, hnone, hevolves⟩ | ⟨f, hr, -⟩
  · cases hr
    have hget := (get?_of_route_seek hseek).1
    unfold Holds
    rw [hget]
    simp
  · cases hr
    have hnew : fs₁.tree.get? handle.location = some (.file 0o644 handle.serial []) := by
      rw [hevolves.tree]
      exact Tree.get?_put_self ..
    unfold Holds
    rw [hnone, hnew]
    simp [eq_comm]
  · cases hr

/-- The journal is what is held at the location where it is opened. -/
theorem Apart.heldAt (h : Apart top journal fs made l) {content : Bytes}
    (hkeeps : Keeps journal fs content) : HeldAt l fs content := by
  obtain ⟨serial, fs₁, hopen, -⟩ := h.opens fs (.refl fs)
  obtain ⟨handle, fs₂, mode, hopen', -, hholds, -⟩ := hkeeps.opened
  cases hopen.symm.trans hopen'
  exact (heldAt_iff_of_open hopen).mpr ⟨mode, hholds⟩

/-- No other file is the journal. -/
theorem Apart.eq_of_kept (h : Apart top journal fs made l) {x : Location} {mode serial : Nat}
    {content : Bytes} (hkept : KeptAt journal fs x)
    (hfile : fs.tree.get? x = some (.file mode serial content)) : x = l := by
  obtain ⟨serial', fs₁, hopen, -⟩ := h.opens fs (.refl fs)
  cases hopen.symm.trans (openToAppend_of_kept hfile hkept).1
  rfl

/-- A journal can be added to where its path leads, if its folder is there. -/
theorem Apart.of_kept (hl : ¬ top <+: l)
    (hkept : ∀ fs', fs.Beside top [] l fs' →
      makeRoom journal fs' = fs' ∧ KeptAt journal fs' l) : Apart top journal fs [] l where
  outside := by simpa using hl
  opens := by
    intro fs' hbeside
    obtain ⟨hroom, found, hfound⟩ := hkept fs' hbeside
    obtain ⟨serial, fs₁, hopen⟩ : ∃ serial fs₁,
        fs'.openToAppend journal = (.ok ⟨l, serial⟩, fs₁) := by
      unfold openToAppend
      rw [hfound]
      split
      · rename_i h
        cases h
      · rename_i h
        cases h
        exact ⟨_, _, rfl⟩
      · rename_i h
        cases h
        exact ⟨_, _, rfl⟩
    have hopened := opened_of_openToAppend hopen
    -- no folder has to be made, so the file is all that can be new
    refine ⟨serial, fs₁, by rw [hroom, hopen], fun x => ?_⟩
    by_cases hx : x = l
    · rw [if_pos hx, hx]
      exact hopened.file
    · rw [if_neg hx, if_neg List.not_mem_nil, Tree.shape, hopened.others x hx]
      rfl

/-- With its folders made, the path of the journal leads to its location. -/
theorem Apart.kept (h : Apart top journal fs made l) (hbeside : fs.Beside top made l fs') :
    KeptAt journal (makeRoom journal fs') l := by
  obtain ⟨serial, fs₁, hopen, -⟩ := h.opens fs' hbeside
  exact (opened_of_openToAppend hopen).led

/-- A place that is apart from the root stays so. -/
theorem Apart.mono (h : Apart top journal fs made l) (hbeside : fs.Beside top made l fs') :
    Apart top journal fs' made l :=
  ⟨h.outside, fun fs'' h' => h.opens fs'' (hbeside.trans h')⟩

/-- A record is nothing to the disk. -/
theorem disk_add (journal : Path) (r : Record) (fs : Files) :
    (add journal r fs).2.disk = fs.disk := by
  have hroom : (makeRoom journal fs).disk = fs.disk :=
    congrArg Prod.snd (numbers_makeRoom journal fs)
  have hdisk := disk_openToAppend (makeRoom journal fs) journal
  cases hopen : (makeRoom journal fs).openToAppend journal with
  | mk opened fs₁ =>
    rw [hopen] at hdisk
    cases opened with
    | error f =>
      rw [files_add_of_closed hopen]
      exact hroom
    | ok handle =>
      rw [files_add_of_open hopen]
      exact (disk_append ..).trans (hdisk.trans hroom)

/-- **A record is added** to what is held at the journal's location. -/
theorem Apart.keeps_add (h : Apart top journal fs made l) {old : Bytes} (hheld : HeldAt l fs old)
    (r : Record) (hroom : fs.Room (old ++ trace r).length) :
    Keeps journal (add journal r fs).2 (old ++ trace r) := by
  obtain ⟨serial, fs₁, hopen, -⟩ := h.opens fs (.refl fs)
  obtain ⟨mode, hholds⟩ := (heldAt_iff_of_open hopen).mp hheld
  have hkept := keptAt_of_opened (opened_of_openToAppend hopen)
  have hdisk := disk_add journal r fs
  rw [files_add_of_open hopen] at hdisk ⊢
  rw [disk_append] at hdisk
  have hlimit := sizeLimit_of_disk hdisk
  exact .file (hkept.append _ _) (append_of_room _ hholds (hroom.mono hlimit (Nat.le_refl _)))

/-- Nothing else comes of it than the journal and the folders for it. -/
theorem Apart.beside_add (h : Apart top journal fs made l) (r : Record) :
    fs.Beside top made l (add journal r fs).2 := by
  have hgrows := grows_add journal r fs
  obtain ⟨serial, fs₁, hopen, hshape⟩ := h.opens fs (.refl fs)
  have hadded (x : Location) : (add journal r fs).2.tree.shape x = fs₁.tree.shape x := by
    rw [files_add_of_open hopen]
    exact shape_appended ..
  refine ⟨hgrows.here, fun x _ => ?_⟩
  -- what was there keeps its shape; what is new is the journal or one of its folders
  cases hx : fs.tree.shape x with
  | some s => exact .inl (hgrows.shown x s hx)
  | none =>
    rw [hadded, hshape]
    by_cases hl : x = l
    · exact .inr ⟨rfl, .inl ⟨hl, if_pos hl⟩⟩
    · rw [if_neg hl]
      by_cases hmade : x ∈ made
      · exact .inr ⟨rfl, .inr ⟨hmade, if_pos hmade⟩⟩
      · exact .inl (by rw [if_neg hmade, hx])

/-- Whatever else there is stays as it is. -/
theorem Apart.get?_add (h : Apart top journal fs made l) (r : Record) {x : Location}
    (hx : x ≠ l) (hthere : fs.tree.get? x ≠ none) :
    (add journal r fs).2.tree.get? x = fs.tree.get? x := by
  obtain ⟨serial, fs₁, hopen, -⟩ := h.opens fs (.refl fs)
  rw [files_add_of_open hopen, get?_append_of_ne _ hx, (opened_of_openToAppend hopen).others x hx]
  exact (madeAbove_makeRoom journal fs x).resolve_right fun hmade => hthere hmade.1

/-- A record keeps the locations distinct. -/
theorem distinct_add (journal : Path) (r : Record) (h : fs.tree.Distinct) :
    (add journal r fs).2.tree.Distinct := by
  obtain ⟨made, hmade⟩ := makeRoom_furnished journal fs
  have hroom := hmade.evolves.distinct h
  have hopened : ((makeRoom journal fs).openToAppend journal).2.tree.Distinct := by
    rcases openToAppend_cases (Prod.eta ((makeRoom journal fs).openToAppend journal)).symm with
      ⟨_, _, _, -, hfs, -⟩ | ⟨_, -, -, -, hevolves⟩ | ⟨_, -, hfs⟩
    · rwa [hfs]
    · exact hevolves.distinct hroom
    · rwa [hfs]
  -- what is written to a file does not change the locations
  cases hopen : (makeRoom journal fs).openToAppend journal with
  | mk opened fs₁ =>
    rw [hopen] at hopened
    cases opened with
    | error f =>
      rw [files_add_of_closed hopen]
      exact hroom
    | ok handle =>
      rw [files_add_of_open hopen]
      rcases append_eq fs₁ handle (trace r) with happend | ⟨octets, happend⟩
      · rwa [happend]
      · rw [happend]
        exact hopened.apply _

/-- A journal is kept where all that was there is still there, and its location is as it was. -/
theorem Apart.keeps (h : Apart top journal fs made l) (hbeside : fs.Beside top made l fs')
    (hshown : fs.tree.ShownBy fs'.tree) (hl : fs'.tree.get? l = fs.tree.get? l) {content : Bytes}
    (hkeeps : Keeps journal fs content) : Keeps journal fs' content := by
  cases hkeeps with
  | @file x mode serial content hkept hfile =>
    obtain rfl := h.eq_of_kept hkept hfile
    rw [← hl] at hfile
    refine .file (hkept.mono hbeside.here hshown fun s hs => ?_) hfile
    rw [Tree.shape_of_get? hfile] at hs
    exact (Option.some.inj hs).symm
  | @missing x hseek =>
    -- it is to be made where it was to be made before, and there is nothing yet
    obtain ⟨found, hfound⟩ := h.kept (.refl fs)
    obtain ⟨found', hfound'⟩ := h.kept hbeside
    obtain rfl : l = x := (Prod.mk.inj (Except.ok.inj (hfound.symm.trans hseek))).1
    have hnone : (makeRoom journal fs').tree.get? l = none := by
      rw [get?_makeRoom_of_kept ⟨found', hfound'⟩, hl, ← get?_makeRoom_of_kept ⟨none, hseek⟩]
      exact (get?_of_route_seek hseek).1
    rw [← (get?_of_route_seek hfound').1, hnone] at hfound'
    exact .missing hfound'

/-- Nothing of a journal that is added to in one place comes to lie in what is served. -/
theorem Apart.journalOutside (h : Apart top journal fs made l) : Outside top journal fs := by
  intro fs' hsame x hx
  obtain ⟨serial, fs₁, hopen, hshape⟩ := h.opens fs' (hsame.beside made l)
  have hopened := opened_of_openToAppend hopen
  have hmade : x ∉ l :: made := fun hmem => h.outside x hmem hx
  rw [List.mem_cons, not_or] at hmade
  constructor
  · -- a folder that is made would be among those that are made for the journal
    refine (madeAbove_makeRoom journal fs' x).resolve_right ?_
    rintro ⟨hnone, hfolder, -⟩
    have hfolder' := hopened.shown _ _ (Tree.shape_of_get? hfolder)
    rw [hshape, if_neg hmade.1, if_neg hmade.2, Tree.shape_eq_none.mpr hnone] at hfolder'
    cases hfolder'
  · rintro ⟨found, hfound⟩
    obtain ⟨found', hfound'⟩ := hopened.led
    exact hmade.1 (Prod.mk.inj (Except.ok.inj (hfound.symm.trans hfound'))).1

end Journal

end Courier
