import Courier.Proofs.Intact
import Courier.Proofs.Journal

/-!
# Files that only grow

Most of what a transfer or a session does to the files only adds to them: folders are made, files
are made with a number of their own, and files get longer. What was there before is still there,
and is the same file, folder or link.

Main results:

* `Files.Grows` — states of the files that come from one another in this way.
* `Files.grows_openToAppend`, `Files.grows_append`, `Files.Furnished.grows`, `Files.Created.grows` —
  the operations, one by one.
* `Session.grows_journalize`, `EventLog.grows_note` — what is told the journal and the log.
-/

namespace Courier

namespace Files

/-- A file with a number that was not drawn in `fs`, but was in `fs'`. -/
def IsNumbered (fs fs' : Files) (e : Entry) : Prop :=
  ∃ mode serial content, e = .file mode serial content ∧ fs.drawn ≤ serial ∧ serial < fs'.drawn

/-- What was there is still there, but for the contents of files; what is new is a folder, or a file
with a new number, and has its place in the tree. -/
structure Grows (fs fs' : Files) : Prop where
  here : fs'.here = fs.here
  drawn : fs.drawn ≤ fs'.drawn
  kept : ∀ l e, fs.tree.get? l = some e → (fs'.tree.get? l).map Entry.hollow = some e.hollow
  new : ∀ l e, fs.tree.get? l = none → fs'.tree.get? l = some e →
    e.isFolder = true ∨ IsNumbered fs fs' e
  intact : fs.tree.WellFormed → fs'.tree.WellFormed

variable {fs fs' fs'' : Files} {l : Location}

/-- What is the same but for its content is a folder if the other is. -/
theorem isFolder_of_hollow {e e' : Entry} (h : e'.hollow = e.hollow) (he : e.isFolder = true) :
    e'.isFolder = true := by
  cases e with
  | folder mode =>
    cases e' with
    | folder => rfl
    | _ => cases h
  | _ => cases he

/-- What is the same as a file but for its content is a file with the same number. -/
theorem file_of_hollow {e : Entry} {mode serial : Nat} {content : Bytes}
    (h : e.hollow = Entry.hollow (.file mode serial content)) :
    ∃ content', e = .file mode serial content' := by
  cases e with
  | file => cases h; exact ⟨_, rfl⟩
  | _ => cases h

/-- And what is the same as a link is that link. -/
theorem link_of_hollow {e : Entry} {target : Path} (h : e.hollow = Entry.hollow (.link target)) :
    e = .link target := by
  cases e with
  | link => cases h; rfl
  | _ => cases h

namespace Grows

/-- Where nothing is done nothing grows. -/
theorem refl (fs : Files) : fs.Grows fs where
  here := rfl
  drawn := Nat.le_refl _
  kept := fun l e he => by rw [he]; rfl
  new := fun l e hnone he => by rw [hnone] at he; cases he
  intact := id

/-- **What grows twice grows**: what is new after both was new after one of them. -/
theorem trans (h : fs.Grows fs') (h' : fs'.Grows fs'') : fs.Grows fs'' where
  here := h'.here.trans h.here
  drawn := Nat.le_trans h.drawn h'.drawn
  kept := by
    intro l e he
    obtain ⟨e', he', hhollow⟩ := Option.map_eq_some_iff.mp (h.kept l e he)
    rw [h'.kept l e' he', hhollow]
  new := by
    intro l e hnone he
    -- it came with the second growth or with the first
    cases hmid : fs'.tree.get? l with
    | none =>
      rcases h'.new l e hmid he with hfolder | ⟨mode, serial, content, heq, hle, hlt⟩
      · exact .inl hfolder
      · exact .inr ⟨mode, serial, content, heq, Nat.le_trans h.drawn hle, hlt⟩
    | some e' =>
      -- it was new after the first growth, and has only got longer since
      have hkept := h'.kept l e' hmid
      rw [he] at hkept
      have hhollow : e.hollow = e'.hollow := Option.some.inj hkept
      rcases h.new l e' hnone hmid with hfolder | ⟨mode, serial, content, rfl, hle, hlt⟩
      · exact .inl (isFolder_of_hollow hhollow hfolder)
      · obtain ⟨content', rfl⟩ := file_of_hollow hhollow
        exact .inr ⟨mode, serial, content', rfl, hle, Nat.lt_of_lt_of_le hlt h'.drawn⟩
  intact := h'.intact ∘ h.intact

/-- Everything still shows. -/
theorem shown (h : fs.Grows fs') : fs.tree.ShownBy fs'.tree := by
  intro l s hs
  obtain ⟨e, he, rfl⟩ := Option.map_eq_some_iff.mp hs
  obtain ⟨e', he', hhollow⟩ := Option.map_eq_some_iff.mp (h.kept l e he)
  rw [Tree.shape_of_get? he', ← Entry.shape_hollow e', hhollow, Entry.shape_hollow]

/-- A link that is there has been there: none is made. -/
theorem link (h : fs.Grows fs') {target : Path} (he : fs'.tree.get? l = some (.link target)) :
    fs.tree.get? l = some (.link target) := by
  -- what is new is a folder or a file, so the link was there
  cases hold : fs.tree.get? l with
  | none =>
    rcases h.new l _ hold he with hfolder | ⟨_, _, _, heq, -⟩
    · cases hfolder
    · cases heq
  | some e =>
    have hkept := h.kept l e hold
    rw [he] at hkept
    rw [link_of_hollow (Option.some.inj hkept).symm]

/-- A file was there with its number before, or it has a new number. -/
theorem file (h : fs.Grows fs') {mode serial : Nat} {content : Bytes}
    (he : fs'.tree.get? l = some (.file mode serial content)) :
    (∃ content', fs.tree.get? l = some (.file mode serial content')) ∨
      (fs.tree.get? l = none ∧ fs.drawn ≤ serial ∧ serial < fs'.drawn) := by
  cases hold : fs.tree.get? l with
  | none =>
    rcases h.new l _ hold he with hfolder | ⟨_, _, _, heq, hle, hlt⟩
    · cases hfolder
    · cases heq
      exact .inr ⟨rfl, hle, hlt⟩
  | some e =>
    have hkept := h.kept l e hold
    rw [he] at hkept
    obtain ⟨content', rfl⟩ := file_of_hollow (Option.some.inj hkept).symm
    exact .inl ⟨content', rfl⟩

end Grows

/-! ## One operation -/

/-- Drawing numbers adds nothing. -/
theorem Evolves.grows (h : fs.Evolves [] fs') (hdrawn : fs.drawn ≤ fs'.drawn) : fs.Grows fs' where
  here := h.here
  drawn := hdrawn
  kept := fun l e he => by
    rw [h.tree, Tree.after, he]
    rfl
  new := fun l e hnone he => by
    rw [h.tree, Tree.after, hnone] at he
    cases he
  intact := fun ht => by
    rw [h.tree]
    exact ht

/-- Folders that are made are all that is new. -/
theorem Furnished.grows {ps : List Path} {made : List Location} (h : Furnished ps fs made fs')
    (hdrawn : fs'.drawn = fs.drawn) : fs.Grows fs' where
  here := h.evolves.here
  drawn := Nat.le_of_eq hdrawn.symm
  kept := by
    intro l e he
    have hl : l ∉ made := fun hl => by
      rw [h.fresh l hl] at he
      cases he
    rw [h.get?, if_neg hl, he]
    rfl
  new := by
    intro l e hnone he
    rw [h.get?] at he
    split at he
    · cases he
      exact .inl rfl
    · rw [hnone] at he
      cases he
  intact := h.wellFormed

/-- A new file with a number of its own. -/
theorem grows_create {mode serial : Nat} {content : Bytes} (hplace : fs.tree.Place l)
    (hfresh : fs.tree.get? l = none)
    (hevolves : fs.Evolves [.create l (.file mode serial content)] fs')
    (hle : fs.drawn ≤ serial) (hlt : serial < fs'.drawn) : fs.Grows fs' where
  here := hevolves.here
  drawn := Nat.le_trans hle (Nat.le_of_lt hlt)
  kept := by
    intro m e he
    have hm : m ≠ l := by
      rintro rfl
      rw [hfresh] at he
      cases he
    rw [hevolves.tree, Tree.after, Change.apply, Tree.get?_put_of_ne _ _ hm, Tree.after, he]
    rfl
  -- the file is the only new entry, and its number was not drawn before
  new := by
    intro m e hnone he
    rw [hevolves.tree, Tree.after, Change.apply] at he
    by_cases hm : m = l
    · subst hm
      rw [Tree.get?_put_self] at he
      cases he
      exact .inr ⟨_, _, _, rfl, hle, hlt⟩
    · rw [Tree.get?_put_of_ne _ _ hm, Tree.after, hnone] at he
      cases he
  intact := fun ht => by
    rw [hevolves.tree]
    exact ht.put hplace (by simp [Tree.shape_eq_none.mpr hfresh]) _

/-- A file that is made is all that is new. -/
theorem Created.grows {p : Path} {mode : Nat} {handle : FileHandle}
    (h : fs.Created p mode handle fs') (hle : fs.drawn ≤ handle.serial)
    (hlt : handle.serial < fs'.drawn) : fs.Grows fs' := by
  obtain ⟨folder, name, hslot, hlocation⟩ := h.slot
  exact grows_create (hlocation ▸ hslot.place) h.fresh h.evolves hle hlt

/-- Nothing is new when a file gets longer. -/
theorem grows_append (fs : Files) (handle : FileHandle) (octets : Bytes) :
    fs.Grows (fs.append handle octets).2 where
  here := here_appended fs handle octets
  drawn := Nat.le_of_eq (drawn_append fs handle octets).symm
  kept := fun l e he => by
    rw [hollow_append, he]
    rfl
  new := fun l e hnone he => by
    have hhollow : ((fs.append handle octets).2.tree.get? l).map Entry.hollow =
        (fs.tree.get? l).map Entry.hollow := hollow_append ..
    rw [hnone, he] at hhollow
    cases hhollow
  intact := fun ht => ht.of_shape_eq (shape_appended fs handle octets)

/-- Making folders adds folders, and uses up no number. -/
theorem grows_makeFolders (fs : Files) (p : Path) : fs.Grows (fs.makeFolders p).2 := by
  obtain ⟨made, hmade⟩ := makeLineage_furnished (Prod.eta (makeLineage p.lineage fs)).symm
  exact hmade.grows (congrArg Prod.fst (numbers_makeLineage p.lineage fs))

/-- Opening a file to add to it makes it, if it was missing. -/
theorem grows_openToAppend (fs : Files) (p : Path) : fs.Grows (fs.openToAppend p).2 := by
  unfold openToAppend
  split
  · exact .refl fs
  · exact .refl fs
  · rename_i l found hnot hseek
    obtain ⟨hget, hfile⟩ := get?_of_route_seek hseek
    -- nothing was found, or a file that is left as it is
    cases found with
    | none =>
      have hevolves := Evolves.commit { fs with drawn := fs.drawn + 1 }
        (.create l (.file 0o644 fs.drawn []))
      exact grows_create (place_of_route_seek hseek) hget
        ⟨hevolves.tree, hevolves.changes, hevolves.here⟩ (Nat.le_refl _) (Nat.lt_succ_self _)
    | some e =>
      cases e with
      | file mode serial content => exact absurd rfl (hnot mode serial content)
      | folder => cases hfile _ rfl
      | link => cases hfile _ rfl

end Files

/-! ## The log and the journal -/

/-- A line in the log makes one file longer, if any. -/
theorem EventLog.grows_note (log : EventLog) (clock : Clock) (e : Event) (fs : Files) :
    fs.Grows (log.note clock e fs) := by
  unfold note
  split
  · exact Files.grows_append ..
  · exact .refl fs

namespace Journal

/-- Room for a journal is folders. -/
theorem grows_makeRoom (p : Path) (fs : Files) : fs.Grows (makeRoom p fs) := by
  unfold makeRoom
  split
  · exact Files.grows_makeFolders ..
  · exact .refl fs

/-- A record makes room, opens the journal and adds to it, and each of these only grows. -/
theorem grows_add (journal : Path) (r : Record) (fs : Files) : fs.Grows (add journal r fs).2 := by
  have hopened := (grows_makeRoom journal fs).trans (Files.grows_openToAppend _ journal)
  -- the journal may not open; there is room for it all the same
  cases hopen : (makeRoom journal fs).openToAppend journal with
  | mk found fs₁ =>
    rw [hopen] at hopened
    cases found with
    | error f =>
      rw [files_add_of_closed hopen r]
      exact grows_makeRoom journal fs
    | ok handle =>
      rw [files_add_of_open hopen r]
      exact hopened.trans (Files.grows_append ..)

end Journal

/-- What a session does when its transfer has ended only grows the files. -/
theorem Session.grows_journalize (ctx : Context) (command : Command) (peer : String) (file : Path)
    (result : Except TransferError Report) (m : Machine) :
    m.files.Grows (journalize ctx command peer file result m).files := by
  unfold journalize
  split
  · exact .refl _
  · rename_i journal _
    -- the record takes a number before it is added
    have hdraw : m.files.Grows { m.files with drawn := m.files.drawn + 1 } :=
      (Files.Evolves.draw m.files _).grows (Nat.le_succ _)
    have hadd := hdraw.trans (Journal.grows_add journal
      (recordOf m.ambient.clock m.files.drawn command peer file result) _)
    dsimp only
    split
    · rename_i hresult
      rw [hresult] at hadd
      exact hadd
    · rename_i hresult
      rw [hresult] at hadd
      exact hadd

end Courier
