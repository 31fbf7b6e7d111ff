import Courier.Proofs.Agree
import Courier.Proofs.Confinement
import Courier.Proofs.Growth
import Courier.Session.Run

/-!
# A transfer is not aware of the log

Lines in the log change nothing but the content of one file. A transfer finds its way by the shapes
of entries, and looks into no file but the one that it sends. So two transfers from states that
agree but for the contents of some other files come to the same result, take and write the same
octets, and leave states that agree.

Main results:

* `Tree.Distinct` — a tree with one entry for each location.
* `Session.resolve_unaware` — a path is resolved to the same location.
* `Transfer.receiveFile_unaware`, `Transfer.sendFile_unaware`, `Session.transfer_unaware` — two
  transfers.
-/

namespace Courier

/-! ## One entry for each location -/

namespace Tree

/-- No location has two entries. -/
def Distinct (t : Tree) : Prop :=
  (t.entries.map Prod.fst).Nodup

instance (t : Tree) : Decidable t.Distinct :=
  inferInstanceAs (Decidable (List.Nodup _))

variable {t t' : Tree}

/-- The locations of the entries are those where something is. -/
theorem mem_locations {l : Location} : l ∈ t.entries.map Prod.fst ↔ t.get? l ≠ none := by
  simp [get?, List.find?_eq_none]

/-- They stay distinct when one is taken away. -/
theorem Distinct.remove (h : t.Distinct) (l : Location) : (t.remove l).Distinct :=
  h.sublist (List.filter_sublist.map Prod.fst)

/-- And when an entry is put, as what was there before makes room for it. -/
theorem Distinct.put (h : t.Distinct) (l : Location) (e : Entry) : (t.put l e).Distinct := by
  refine List.nodup_cons.mpr ⟨?_, h.remove l⟩
  rw [mem_locations, get?_remove_self]
  exact fun hne => hne rfl

/-- **Every change** keeps the locations distinct. -/
theorem Distinct.apply (h : t.Distinct) (c : Change) : (c.apply t).Distinct := by
  have hupdate (l : Location) (f : Entry → Entry) : (Change.update t l f).Distinct := by
    unfold Change.update
    split
    · exact h.put l _
    · exact h
  -- by the kind of change: each one puts or removes at one location, a move at two
  cases c with
  | create l e => exact h.put l e
  | append => exact hupdate ..
  | overwrite => exact hupdate ..
  | setMode => exact hupdate ..
  | move source target =>
    rw [Change.apply]
    split
    · exact (h.remove source).put target _
    · exact h
  | remove l => exact h.remove l

/-- So does any number of changes. -/
theorem Distinct.after (h : t.Distinct) (cs : List Change) : (t.after cs).Distinct := by
  induction cs with
  | nil => exact h
  | cons c cs ih => exact ih.apply c

/-- Trees with entries at the same locations have as many of them. -/
theorem Distinct.length_eq (h : t.Distinct) (h' : t'.Distinct)
    (hsame : ∀ l, t'.get? l = none ↔ t.get? l = none) : t'.entries.length = t.entries.length := by
  have hperm : (t'.entries.map Prod.fst).Perm (t.entries.map Prod.fst) :=
    (List.perm_ext_iff_of_nodup h' h).mpr fun l => by
      rw [mem_locations, mem_locations, ne_eq, ne_eq, hsame]
  simpa using hperm.length_eq

end Tree

/-- So the tree of the files stays a tree of distinct locations, whatever is done to them. -/
theorem Files.Evolves.distinct {fs fs' : Files} {cs : List Change} (h : fs.Evolves cs fs')
    (hdistinct : fs.tree.Distinct) : fs'.tree.Distinct := by
  rw [h.tree]
  exact hdistinct.after cs

/-! ## Looking -/

namespace Files

/-- What is found in two states that agree: the same entry, but for the content of a file. -/
inductive Found (own : Location → Prop) :
    Except Fault (Location × Entry) → Except Fault (Location × Entry) → Prop where
  | error (f : Fault) : Found own (.error f) (.error f)
  | ok {l : Location} {e e' : Entry} (hhollow : e'.hollow = e.hollow) (hsame : ¬ own l → e' = e) :
      Found own (.ok (l, e)) (.ok (l, e'))

namespace Agree

variable {own : Location → Prop} {fs fs' fs'' : Files}

/-- States that agree with a third one, each but for the same files, agree. -/
theorem trans (h : Agree own fs fs') (h' : Agree own fs' fs'') : Agree own fs fs'' :=
  ⟨h'.here.trans h.here, h'.drawn.trans h.drawn, h'.disk.trans h.disk,
    fun l => (h'.hollow l).trans (h.hollow l), fun l hl => (h'.same l hl).trans (h.same l hl)⟩

/-- At a location there is the same entry in both states, but for the content of a file. -/
theorem entryAt (h : Agree own fs fs') (l : Location) :
    Found own (fs.entryAt l) (fs'.entryAt l) := by
  have hhollow := h.hollow l
  unfold Files.entryAt
  cases he : fs.tree.get? l with
  | none =>
    rw [(h.none_iff l).mpr he]
    exact .error _
  | some e =>
    rw [he] at hhollow
    obtain ⟨e', he', hsame⟩ := Option.map_eq_some_iff.mp hhollow
    rw [he']
    refine .ok hsame fun hown => ?_
    exact Option.some.inj (he'.symm.trans ((h.same l hown).trans he))

/-- The end of a route is found at the same place. -/
theorem endOf (h : Agree own fs fs') (r : Route) : Found own (fs.endOf r) (fs'.endOf r) := by
  unfold Files.endOf
  rw [walk_of_shape_eq h.shape]
  cases walk fs.tree maxLinks r.start r.allSteps with
  | error f => exact .error f
  | ok found => exact h.entryAt found.1

/-- A path is followed to the same place. -/
theorem stat (h : Agree own fs fs') (p : Path) : Found own (fs.stat p) (fs'.stat p) := by
  unfold Files.stat
  rw [h.route?]
  cases fs.route? p with
  | error f => exact .error f
  | ok r => exact h.endOf r

/-- And the place has the same path. -/
theorem located (h : Agree own fs fs') (p : Path) :
    Found own (fs.located p) (fs'.located p) := by
  have hstat := h.stat p
  unfold Files.located
  generalize fs.stat p = x, fs'.stat p = y at hstat ⊢
  cases hstat with
  | error f => exact .error f
  | @ok l e e' hhollow hsame =>
    simp only [bind, Except.bind]
    rw [h.route?]
    cases fs.route? (pathOf l) with
    | error f => exact .error f
    | ok r => exact .ok hhollow hsame

/-- A last link is found in both states, or in none. -/
theorem lstat (h : Agree own fs fs') (p : Path) : Found own (fs.lstat p) (fs'.lstat p) := by
  unfold Files.lstat
  rw [h.route?]
  cases fs.route? p with
  | error f => exact .error f
  | ok r =>
    dsimp only [bind, Except.bind]
    rw [approach_of_shape_eq h.shape]
    split
    · cases approach fs.tree maxLinks r with
      | error f => exact .error f
      | ok found =>
        dsimp only
        split
        · exact .error _
        · exact h.entryAt _
    · exact h.endOf r

/-- A path leads to a file in both states or in none. -/
theorem isFile (h : Agree own fs fs') (p : Path) : fs'.isFile p = fs.isFile p := by
  unfold Files.isFile
  have hfound := h.stat p
  generalize fs.stat p = x, fs'.stat p = y at hfound
  cases hfound with
  | error => rfl
  | @ok _ e e' hhollow =>
    show e'.isFile = e.isFile
    cases e <;> cases e' <;> first | rfl | cases hhollow

/-! ## Making files and writing to them -/

/-- A new file is made in both states, with the same number, or in none. -/
theorem createNew (h : Agree own fs fs') (p : Path) (mode : Nat) :
    ∃ r fs₁ fs₁', fs.createNew p mode = (r, fs₁) ∧ fs'.createNew p mode = (r, fs₁') ∧
      Agree own fs₁ fs₁' := by
  unfold Files.createNew
  rw [h.slotOf]
  cases fs.slotOf p .alreadyThere with
  | error f => exact ⟨_, _, _, rfl, rfl, h⟩
  | ok l =>
    dsimp only
    -- the states differ in contents at most, so a location is free in both or in none
    have hsome : (fs'.tree.get? l).isSome = (fs.tree.get? l).isSome := by
      rw [← Option.isSome_map (f := Entry.hollow), h.hollow, Option.isSome_map]
    rw [hsome]
    split
    · exact ⟨_, _, _, rfl, rfl, h⟩
    · have hdrawn : Agree own { fs with drawn := fs.drawn + 1 }
          { fs' with drawn := fs.drawn + 1 } :=
        ⟨h.here, rfl, h.disk, h.hollow, h.same⟩
      refine ⟨.ok ⟨l, fs.drawn⟩, (fs.createAt l mode []).2, (fs'.createAt l mode []).2, rfl, ?_, ?_⟩
      · dsimp only [createAt]
        rw [h.drawn]
      · dsimp only [createAt]
        rw [h.drawn]
        exact hdrawn.commit_create l _

/-- **A file with a drawn name** is made in both states, after as many tries. -/
theorem createUnique (h : Agree own fs fs') (folder : Path) (lead tail : Bytes)
    (mode tries : Nat) :
    ∃ r fs₁ fs₁', Files.createUnique folder lead tail mode tries fs = (r, fs₁) ∧
      Files.createUnique folder lead tail mode tries fs' = (r, fs₁') ∧ Agree own fs₁ fs₁' := by
  -- by induction on the names that are left to be tried
  induction tries generalizing fs fs' with
  | zero => exact ⟨_, _, _, rfl, rfl, h⟩
  | succ tries ih =>
    rw [Files.createUnique, Files.createUnique, h.drawn]
    obtain ⟨r, fs₁, fs₁', hnew, hnew', h₁⟩ :=
      h.createNew (folder.child (lead ++ randomName fs.drawn ++ tail)) mode
    rw [hnew, hnew']
    cases r with
    | ok handle => exact ⟨_, _, _, rfl, rfl, h₁⟩
    | error f =>
      dsimp only
      split
      · -- the name is taken in both states, and the next one is drawn
        rw [h₁.drawn]
        exact ih ⟨h₁.here, rfl, h₁.disk, h₁.hollow, h₁.same⟩
      · exact ⟨_, _, _, rfl, rfl, h₁⟩

/-- What is written to a file with the same content in both states is taken in both or in none. -/
theorem append_same (h : Agree own fs fs') {handle : FileHandle} (hown : ¬ own handle.location)
    (octets : Bytes) :
    ∃ r fs₁ fs₁', fs.append handle octets = (r, fs₁) ∧ fs'.append handle octets = (r, fs₁') ∧
      Agree own fs₁ fs₁' := by
  have hsize : fs'.sizeOf? handle = fs.sizeOf? handle := by
    unfold sizeOf?
    rw [h.same _ hown]
  -- the result of a write depends on the length of its file and the limit, no more
  have hresult : (fs'.append handle octets).1 = (fs.append handle octets).1 := by
    unfold Files.append
    rw [hsize, sizeLimit_of_disk h.disk]
    split
    · rfl
    · split
      · rfl
      · split <;> rfl
  exact ⟨(fs.append handle octets).1, (fs.append handle octets).2, (fs'.append handle octets).2,
    rfl, Prod.ext hresult rfl, h.append fun _ => rfl⟩

end Agree

end Files

/-! ## Resolving a path -/

namespace Session

variable {own : Location → Prop} {fs fs' : Files}

/-- Each name of a path is looked up in the same way. -/
theorem resolveFrom_unaware (h : fs.Agree own fs') (root : Location) (asked : Path)
    (reached : Location) (names : List Name) :
    resolveFrom fs' root asked reached names = resolveFrom fs root asked reached names := by
  -- by induction on the names that are left
  induction names generalizing reached with
  | nil => rw [resolveFrom, resolveFrom]
  | cons name rest ih =>
    have hlstat := h.lstat (Files.pathOf (reached ++ [name]))
    have hlocated := h.located (Files.pathOf (reached ++ [name]))
    rw [resolveFrom, resolveFrom]
    generalize fs.lstat (Files.pathOf (reached ++ [name])) = x,
      fs'.lstat (Files.pathOf (reached ++ [name])) = y at hlstat ⊢
    generalize fs.located (Files.pathOf (reached ++ [name])) = z,
      fs'.located (Files.pathOf (reached ++ [name])) = w at hlocated ⊢
    cases hlstat with
    | error f => rfl
    | @ok l e e' hhollow =>
      -- a link has the same target in both states, a file may hold something else
      cases e with
      | link target =>
        obtain rfl := Files.link_of_hollow hhollow
        cases hlocated with
        | error => rfl
        | ok =>
          dsimp only
          rw [ih]
      | file mode serial content =>
        obtain ⟨content', rfl⟩ := Files.file_of_hollow hhollow
        exact ih _
      | folder mode =>
        cases e' with
        | folder => exact ih _
        | file => cases hhollow
        | link => cases hhollow

/-- **A path is resolved** without a look into any file. -/
theorem resolve_unaware (h : fs.Agree own fs') (root asked : Path) :
    resolve fs' root asked = resolve fs root asked := by
  have hroot := h.located root
  unfold resolve
  generalize fs.located root = x, fs'.located root = y at hroot ⊢
  cases requestedNames asked with
  | error e => rfl
  | ok names =>
    cases hroot with
    | error => rfl
    | ok => exact resolveFrom_unaware h _ _ _ _

end Session

/-! ## Receiving -/

namespace Transfer

variable {own : Location → Prop} {fs fs' : Files}

/-- The folder of a destination is prepared in both states, or it fails in both. -/
theorem prepareFolder_unaware (h : fs.Agree own fs') (dest : Path) :
    ∃ r fs₁ fs₁', prepareFolder dest fs = (r, fs₁) ∧ prepareFolder dest fs' = (r, fs₁') ∧
      fs₁.Agree own fs₁' := by
  have hstat := h.stat dest.folder
  unfold prepareFolder
  dsimp only
  generalize fs.stat dest.folder = x, fs'.stat dest.folder = y at hstat ⊢
  -- nothing is there, or the same kind of entry is found in both states
  cases hstat with
  | error f =>
    dsimp only
    split
    · obtain ⟨r, fs₁, fs₁', hmake, hmake', h₁⟩ := h.makeLineage dest.folder.lineage
      unfold Files.makeFolders
      rw [hmake, hmake']
      cases r with
      | ok => exact ⟨_, _, _, rfl, rfl, h₁⟩
      | error => exact ⟨_, _, _, rfl, rfl, h₁⟩
    · exact ⟨_, _, _, rfl, rfl, h⟩
  | @ok l e e' hhollow =>
    cases e with
    | folder mode =>
      cases e' with
      | folder =>
        cases hhollow
        dsimp only
        split
        · exact ⟨_, _, _, rfl, rfl, h⟩
        · exact ⟨_, _, _, rfl, rfl, h⟩
      | file => cases hhollow
      | link => cases hhollow
    | file mode serial content =>
      obtain ⟨content', rfl⟩ := Files.file_of_hollow hhollow
      exact ⟨_, _, _, rfl, rfl, h⟩
    | link target =>
      obtain rfl := Files.link_of_hollow hhollow
      exact ⟨_, _, _, rfl, rfl, h⟩

/-- The staged file gets the same name in both: as many names are tried, since there are as many
entries. -/
theorem make_unaware (h : fs.Agree own fs') (hdistinct : fs.tree.Distinct)
    (hdistinct' : fs'.tree.Distinct) (dest : Path) :
    ∃ r fs₁ fs₁', Staged.make dest fs = (r, fs₁) ∧ Staged.make dest fs' = (r, fs₁') ∧
      fs₁.Agree own fs₁' := by
  have hdraws : fs'.draws = fs.draws :=
    congrArg (· + 1) (hdistinct.length_eq hdistinct' h.none_iff)
  unfold Staged.make
  rw [h.here, hdraws]
  dsimp only
  obtain ⟨r, fs₁, fs₁', hunique, hunique', h₁⟩ := h.createUnique
    ((Files.pathOf fs.here).join dest.folder) (Staged.lead dest) Staged.tail 0o644 fs.draws
  rw [hunique, hunique']
  cases r with
  | ok => exact ⟨_, _, _, rfl, rfl, h₁⟩
  | error => exact ⟨_, _, _, rfl, rfl, h₁⟩

/-- Whether a file can be staged is nothing to what is in other files. -/
theorem stageable_unaware (h : fs.Agree own fs') (hdistinct : fs.tree.Distinct)
    (hdistinct' : fs'.tree.Distinct) {dest : Path} (hstage : Stageable dest fs) :
    Stageable dest fs' := by
  obtain ⟨prepared, staged, fs₁, hprepare, hmake⟩ := hstage
  obtain ⟨r, fs₂, fs₂', hprepared, hprepared', h₂⟩ := prepareFolder_unaware h dest
  cases hprepare.symm.trans hprepared
  obtain ⟨made, hmade⟩ := prepareFolder_furnished hprepared
  obtain ⟨made', hmade'⟩ := prepareFolder_furnished hprepared'
  obtain ⟨r, fs₃, fs₃', hmade₂, hmade₂', -⟩ := make_unaware h₂ (hmade.evolves.distinct hdistinct)
    (hmade'.evolves.distinct hdistinct') dest
  cases hmake.symm.trans hmade₂
  exact ⟨_, staged, fs₃', hprepared', hmade₂'⟩

/-- What comes in is taken and written in the same way. The staged file is the only one that is
written, and it is the same in both states. -/
theorem receiveRest_unaware {staged : Staged} {settings : Settings} {pace : Pace}
    {s t : Inbound} {a b : Ambient} {fs₁ : Files} {r : Except TransferError Pace}
    (h : fs.Agree own fs') (hown : ¬ own staged.handle.location)
    (hrun : receiveRest settings staged pace s a fs = (r, t, b, fs₁)) :
    ∃ fs₁', receiveRest settings staged pace s a fs' = (r, t, b, fs₁') ∧ fs₁.Agree own fs₁' := by
  -- by the chunks of the run, for any other state that agrees
  fun_induction receiveRest settings staged pace s a fs generalizing fs' with
  | case1 pace s a fs e u c hread =>
    cases hrun
    rw [receiveRest, hread]
    exact ⟨_, rfl, h⟩
  | case2 pace s a fs u c hread =>
    cases hrun
    rw [receiveRest, hread]
    exact ⟨_, rfl, h⟩
  | case3 pace s a fs o octets u c hread f fs₂ happend =>
    cases hrun
    obtain ⟨r, _, fs₂', happend₁, happend', h₂⟩ := h.append_same hown (o :: octets)
    cases happend.symm.trans happend₁
    rw [receiveRest, hread]
    dsimp only
    rw [happend']
    exact ⟨_, rfl, h₂⟩
  | case4 pace s a fs o octets u c hread fs₂ happend pace' clock hrecord ih =>
    obtain ⟨r, _, fs₂', happend₁, happend', h₂⟩ := h.append_same hown (o :: octets)
    cases happend.symm.trans happend₁
    obtain ⟨fs₁', hrest, h₁⟩ := ih h₂ hrun
    rw [receiveRest, hread]
    dsimp only
    rw [happend']
    dsimp only
    rw [hrecord]
    exact ⟨fs₁', hrest, h₁⟩

/-- The staged file is removed in both states when it cannot be kept. -/
theorem discard_unaware {α : Type} (h : fs.Agree own fs') (staged : Staged) (e : TransferError) :
    ∃ r fs₁ fs₁',
      ((.error e : Except TransferError α), (fs.remove staged.path).2) = (r, fs₁) ∧
      ((.error e : Except TransferError α), (fs'.remove staged.path).2) = (r, fs₁') ∧
        fs₁.Agree own fs₁' := by
  obtain ⟨r, fs₁, fs₁', hremove, hremove', h₁⟩ := h.remove staged.path
  rw [hremove, hremove']
  exact ⟨_, _, _, rfl, rfl, h₁⟩

/-- The staged file is moved or removed in both states. -/
theorem promote_unaware {staged : Staged} (h : fs.Agree own fs')
    (hown : ∀ l, fs.slotOf staged.path .busy = .ok l → ¬ own l) (dest : Path) :
    ∃ r fs₁ fs₁', promote staged dest fs = (r, fs₁) ∧ promote staged dest fs' = (r, fs₁') ∧
      fs₁.Agree own fs₁' := by
  obtain ⟨r, fs₁, fs₁', hsync, hsync', h₁⟩ := h.sync
  have hslot := Files.slotOf_sync fs staged.path .busy
  rw [hsync] at hslot
  unfold promote
  rw [hsync, hsync']
  cases r with
  | error f => exact discard_unaware h₁ staged _
  | ok =>
    obtain ⟨r, fs₂, fs₂', hrename, hrename', h₂⟩ := h₁.rename (hslot ▸ hown) dest
    dsimp only
    rw [hrename, hrename']
    cases r with
    | ok => exact ⟨_, _, _, rfl, rfl, h₂⟩
    | error f => exact discard_unaware h₂ staged _

/-- A receive that has its folder comes to the same end in both states. -/
theorem receiveStaged_unaware (h : fs.Agree own fs') (hdistinct : fs.tree.Distinct)
    (hdistinct' : fs'.tree.Distinct) (hown : ∀ l, own l → fs.tree.get? l ≠ none)
    (settings : Settings) (dest : Path) (s : Inbound) (a : Ambient) :
    ∃ r t b fs₁ fs₁', receiveStaged settings dest s a fs = (r, t, b, fs₁) ∧
      receiveStaged settings dest s a fs' = (r, t, b, fs₁') ∧ fs₁.Agree own fs₁' := by
  obtain ⟨made, fs₁, fs₁', hmake, hmake', h₁⟩ := make_unaware h hdistinct hdistinct' dest
  unfold receiveStaged
  rw [hmake, hmake']
  rcases Staged.make_cases hmake with ⟨staged, n, rfl, -, hcreated⟩ | ⟨e, rfl, -⟩
  · -- the staged file is new, so both states have the same content in it
    have hstaged : ¬ own staged.handle.location := fun hl => hown _ hl hcreated.fresh
    dsimp only
    generalize Pace.begin settings.baseRate.toNat a.clock = pace
    obtain ⟨r, t, b, fs₂, hrest⟩ :
        ∃ r t b fs₂, receiveRest settings staged pace s a fs₁ = (r, t, b, fs₂) :=
      ⟨_, _, _, _, rfl⟩
    obtain ⟨fs₂', hrest', h₂⟩ := receiveRest_unaware h₁ hstaged hrest
    rw [hrest, hrest']
    cases r with
    | error e =>
      obtain ⟨r, fs₃, fs₃', hremove, hremove', h₃⟩ := h₂.remove staged.path
      dsimp only
      rw [hremove, hremove']
      exact ⟨_, _, _, _, _, rfl, rfl, h₃⟩
    | ok pace' =>
      -- it is found again by its path
      have hslot (l : Location) (hl : fs₂.slotOf staged.path .busy = .ok l) : ¬ own l := by
        obtain ⟨pieces, content, hmore, hholds, -⟩ := receiveRest_holds hcreated.holds hrest
        have hwritten : Written dest fs staged pieces content fs₂ :=
          ⟨⟨fs₁, hcreated⟩, hcreated.evolves.trans hmore, hholds⟩
        obtain ⟨folder, name, hslot, hlocation⟩ := hwritten.slot
        obtain rfl := Except.ok.inj ((hslot.slotOf .busy).symm.trans hl)
        exact hlocation ▸ hstaged
      obtain ⟨r, fs₃, fs₃', hpromote, hpromote', h₃⟩ := promote_unaware h₂ hslot dest
      dsimp only
      rw [hpromote, hpromote']
      cases r with
      | ok => exact ⟨_, _, _, _, _, rfl, rfl, h₃⟩
      | error => exact ⟨_, _, _, _, _, rfl, rfl, h₃⟩
  · exact ⟨_, _, _, _, _, rfl, rfl, h₁⟩

/-- **A receive is not aware** of what is in other files. -/
theorem receiveFile_unaware (h : fs.Agree own fs') (hdistinct : fs.tree.Distinct)
    (hdistinct' : fs'.tree.Distinct) (hown : ∀ l, own l → fs.tree.get? l ≠ none)
    (settings : Settings) (dest : Path) (s : Inbound) (a : Ambient) :
    ∃ r t b fs₁ fs₁', receiveFile settings dest s a fs = (r, t, b, fs₁) ∧
      receiveFile settings dest s a fs' = (r, t, b, fs₁') ∧ fs₁.Agree own fs₁' := by
  have hregistered : ∃ r t b fs₁ fs₁',
      receiveRegistered settings dest s a.register fs = (r, t, b, fs₁) ∧
      receiveRegistered settings dest s a.register fs' = (r, t, b, fs₁') ∧ fs₁.Agree own fs₁' := by
    unfold receiveRegistered
    by_cases hempty : dest.isEmpty = true
    · rw [if_pos hempty, if_pos hempty]
      exact ⟨_, _, _, _, _, rfl, rfl, h⟩
    rw [if_neg hempty, if_neg hempty]
    obtain ⟨r, fs₁, fs₁', hprepare, hprepare', h₁⟩ := prepareFolder_unaware h dest
    obtain ⟨made, hmade⟩ := prepareFolder_furnished hprepare
    obtain ⟨made', hmade'⟩ := prepareFolder_furnished hprepare'
    rw [hprepare, hprepare']
    cases r with
    | error e => exact ⟨_, _, _, _, _, rfl, rfl, h₁⟩
    | ok =>
      refine receiveStaged_unaware h₁ (hmade.evolves.distinct hdistinct)
        (hmade'.evolves.distinct hdistinct') (fun l hl hnone => ?_) settings dest s a.register
      -- what is missing now was missing before
      rw [hmade.get?] at hnone
      split at hnone
      · cases hnone
      · exact hown l hl hnone
  obtain ⟨r, t, b, fs₁, fs₁', hrun, hrun', h₁⟩ := hregistered
  unfold receiveFile
  rw [hrun, hrun']
  exact ⟨_, _, _, _, _, rfl, rfl, h₁⟩

/-! ## Sending -/

/-- **A send is not aware** of what is in any file but its own. -/
theorem sendFile_unaware (h : fs.Agree own fs') {path : Path}
    (hown : ∀ l e, fs.stat path = .ok (l, e) → ¬ own l) (settings : Settings) (s : Outbound)
    (a : Ambient) : sendFile settings fs' path s a = sendFile settings fs path s a := by
  have hstat := h.stat path
  unfold sendFile
  generalize fs.stat path = x, fs'.stat path = y at hstat hown ⊢
  cases hstat with
  | error f => rfl
  | @ok l e e' _ hsame =>
    obtain rfl := hsame (hown l e rfl)
    rfl

end Transfer

/-! ## A transfer -/

namespace Session

variable {own : Location → Prop}

/-- **A transfer is not aware** of what is in other files than the one that it sends. -/
theorem transfer_unaware {m : Machine} {fs' : Files} {file : Path} (h : m.files.Agree own fs')
    (hdistinct : m.files.tree.Distinct) (hdistinct' : fs'.tree.Distinct)
    (hown : ∀ l, own l → m.files.tree.get? l ≠ none)
    (hfile : ∀ l e, m.files.stat file = .ok (l, e) → e.isFile = true → ¬ own l) (ctx : Context)
    (command : Command) (c : Connection) :
    ∃ r d n fs₁', transfer ctx command file c m = (r, d, n) ∧
      transfer ctx command file c { m with files := fs' } = (r, d, { n with files := fs₁' }) ∧
      n.files.Agree own fs₁' := by
  unfold transfer
  -- a store looks at its staged file, a retrieve at the file that it sends
  cases command with
  | store =>
    obtain ⟨r, t, b, fs₁, fs₁', hrun, hrun', h₁⟩ := Transfer.receiveFile_unaware h hdistinct
      hdistinct' hown ctx.settings file c.inbound m.ambient
    dsimp only
    rw [hrun, hrun']
    exact ⟨_, _, _, _, rfl, rfl, h₁⟩
  | retrieve =>
    dsimp only
    -- whether a file is there at all does not depend on what is in it
    rw [h.isFile]
    by_cases hisFile : m.files.isFile file = true
    · have hread (l : Location) (e : Entry) (hstat : m.files.stat file = .ok (l, e)) : ¬ own l := by
        refine hfile l e hstat ?_
        unfold Files.isFile at hisFile
        rwa [hstat] at hisFile
      rw [if_pos hisFile, if_pos hisFile, Transfer.sendFile_unaware h hread]
      exact ⟨_, _, _, _, rfl, rfl, h⟩
    · rw [if_neg hisFile, if_neg hisFile]
      exact ⟨_, _, _, _, rfl, rfl, h⟩

end Session

end Courier
