import Courier.Proofs.Confinement
import Courier.Proofs.Receive

/-!
# What receiving does around the root

All that a receive into a served location makes, writes, moves or removes lies strictly below the
root, with one exception. Where the names of a path lead back to the root itself, the root is
taken for the destination: a store to it stages a file next to the root, and removes it again.

Main results:

* `Session.made_below` — the folders made for a served location lie strictly below the root.
* `Session.receive_effects` — a receive into a served location stays strictly below the root
  unless the location is the root.
-/

namespace Courier

open Files

/-- `l` lies below `top`, and is not `top` itself. -/
def StrictlyBelow (top l : Location) : Prop :=
  top <+: l ∧ l ≠ top

/-- What lies in a folder below `top` lies strictly below `top`. -/
theorem strictlyBelow_concat {top k : Location} (h : top <+: k) (n : Name) :
    StrictlyBelow top (k ++ [n]) := by
  refine ⟨h.trans (List.prefix_append ..), fun heq => ?_⟩
  have hlength := h.length_le
  rw [← heq, List.length_append, List.length_singleton] at hlength
  omega

/-! ## Receiving into a ready folder -/

namespace Transfer

variable {fs fs' : Files} {dest : Path} {data : Bytes} {cs : List Change}
  {result : Except TransferError Report}

/-- Which locations a receive into a ready folder touches. -/
theorem Stages.touched (h : Stages dest data fs result cs) :
    (cs = [] ∧ ∀ staged fs', Staged.make dest fs ≠ (.ok staged, fs')) ∨
      ∃ staged fs', Staged.make dest fs = (.ok staged, fs') ∧
        (∃ c ∈ cs, staged.handle.location ∈ c.touched) ∧
        ∀ c ∈ cs, ∀ l ∈ c.touched, l = staged.handle.location ∨
          ∃ folder name, fs.Slot dest folder name ∧ l = folder ++ [name] := by
  -- until it is moved or removed, only the staged file is touched
  have writes_only {staged : Staged} {pieces : List Bytes} {c : Change} {l : Location}
      (hc : c ∈ writes staged pieces) (hl : l ∈ c.touched) : l = staged.handle.location := by
    rw [touched_of_mem_writes hc] at hl
    exact List.mem_singleton.mp hl
  cases h with
  | unstaged hmake => exact .inl ⟨rfl, fun staged fs' h => by rw [hmake] at h; cases h⟩
  | discarded hmake =>
    refine .inr ⟨_, _, hmake, ⟨_, List.mem_cons_self .., List.mem_singleton_self _⟩, ?_⟩
    intro c hc l hl
    rcases List.mem_cons.mp hc with rfl | hc
    · exact .inl (List.mem_singleton.mp hl)
    · exact .inl (writes_only hc hl)
  | @promoted _ _ _ folder name _ hmake hslot =>
    refine .inr ⟨_, _, hmake, ⟨_, List.mem_cons_self .., List.mem_cons_self ..⟩, ?_⟩
    intro c hc l hl
    rcases List.mem_cons.mp hc with rfl | hc
    · rcases List.mem_cons.mp hl with rfl | hl
      · exact .inl rfl
      · exact .inr ⟨folder, name, hslot, List.mem_singleton.mp hl⟩
    · exact .inl (writes_only hc hl)

/-- A file for a destination gets staged. -/
def Stageable (dest : Path) (fs : Files) : Prop :=
  ∃ prepared staged fs', prepareFolder dest fs = (.ok (), prepared) ∧
    Staged.make dest prepared = (.ok staged, fs')

end Transfer

namespace Session

open Transfer

variable {fs fs' : Files} {top r : Location} {made : List Location}

/-! ## Receiving into a served location -/

/-- A served location is clear of links after folders have been made, too. -/
theorem clear_of_furnished {ps : List Path} (h : Furnished ps fs made fs')
    (hclear : fs.tree.Clear r) : fs'.tree.Clear r := by
  intro l hl target hlink
  rw [h.get?] at hlink
  split at hlink
  · cases hlink
  · exact hclear l hl target hlink

/-- The folders made for a served location lie above it. -/
theorem made_above {k : Location} {n : Name} (hproper : ProperLocation (k ++ [n]))
    (hclear : fs.tree.Clear (k ++ [n]))
    (h : Furnished (pathOf (k ++ [n])).folder.lineage fs made fs') : ∀ l ∈ made, l <+: k := by
  intro l hl
  obtain ⟨p, hp, folder, name, hslot, rfl⟩ := h.named l hl
  rw [folder_pathOf_concat hproper] at hp
  obtain ⟨hlast, -⟩ := Path.proper_of_lastName? hslot.last
  obtain ⟨front, hfront⟩ := List.getLast?_eq_some_iff.mp hlast
  have hproper' := hproper.of_append_left
  -- the path of the folder is a beginning of the names of the location
  have hon : p.isAbsolute = true ∧ front ++ [name] <+: k := by
    rcases Path.steps_of_mem_lineage hp with hnil | ⟨habs, hsteps⟩
    · have hsteps : p.steps = [] := by simp [Path.steps, hnil, Path.segments]
      rw [hsteps] at hlast
      cases hlast
    · rw [steps_pathOf hproper', hfront] at hsteps
      exact ⟨habs.trans (isAbsolute_pathOf k), hsteps⟩
  obtain ⟨habs, hnames⟩ := hon
  -- no link is on the way, so the place of the folder is what its names say
  have hfolder : folder = front := by
    obtain ⟨left, hwalk⟩ := hslot.walked
    have hstart : (Route.ofPath fs'.here p).start = [] := by simp [Route.ofPath, habs]
    rw [hstart, hfront, List.dropLast_concat] at hwalk
    have hfront' : front <+: k := (List.prefix_append ..).trans hnames
    refine eq_of_leads_top (fun n hn => hproper' n (hfront'.subset hn)) ?_ (leads_of_walk hwalk)
    exact Tree.Clear.of_prefix (clear_of_furnished h hclear)
      (hfront'.trans (List.prefix_append ..))
  rwa [hfolder]

/-- They lie strictly below the root: what is above the root, and the root itself, is there
already. -/
theorem made_below {k : Location} {n : Name} (ht : fs.tree.WellFormed)
    (hproper : ProperLocation (k ++ [n])) (hclear : fs.tree.Clear (k ++ [n]))
    (htop : fs.tree.Firm top) (hbelow : top <+: k ++ [n])
    (h : Furnished (pathOf (k ++ [n])).folder.lineage fs made fs') :
    ∀ l ∈ made, StrictlyBelow top l := by
  intro l hl
  have hnames := made_above hproper hclear h l hl
  -- all that is above the root exists, and what was made did not
  obtain ⟨s, hs, -⟩ := htop
  have hnot : ¬ l <+: top := by
    intro hle
    have hmissing := Tree.shape_eq_none.mpr (h.fresh _ hl)
    rcases ht.shape_of_prefix hle hs with hfolder | heq
    · rw [hmissing] at hfolder
      cases hfolder
    · rw [← heq, hmissing] at hs
      cases hs
  rcases List.prefix_or_prefix_of_prefix hbelow (hnames.trans (List.prefix_append ..)) with h' | h'
  · exact ⟨h', fun heq => hnot (heq ▸ List.prefix_rfl)⟩
  · exact absurd h' hnot

/-- A file for a served location is staged next to it. -/
theorem staged_beside {k : Location} {n : Name} {staged : Staged}
    (hproper : ProperLocation (k ++ [n])) (hclear : fs.tree.Clear (k ++ [n]))
    (hmake : Staged.make (pathOf (k ++ [n])) fs = (.ok staged, fs')) :
    ∃ m, staged.handle.location = k ++ [m] := by
  rcases Staged.make_cases hmake with ⟨staged', i, hr, hpath, hcreated⟩ | ⟨e, hr, -⟩
  · cases hr
    obtain ⟨folder, name, hslot, hlocation⟩ := hcreated.slot
    have hname := Staged.proper_name (pathOf (k ++ [n])) i
    -- the folder of the path is absolute, so the working folder does not matter
    rw [hpath, Staged.folder, folder_pathOf_concat hproper,
      Path.join_of_isAbsolute (isAbsolute_pathOf k),
      child_pathOf hproper.of_append_left hname.noSlash] at hslot
    obtain ⟨rfl, -⟩ := slot_pathOf_concat (hproper.of_append_left.concat hname)
      (hclear.of_prefix (List.prefix_append ..)) hslot
    exact ⟨name, hlocation⟩
  · cases hr

/-- What a receive into a served location touches, once the folder above it is ready. -/
theorem stages_effects {k : Location} {n : Name} {data : Bytes} {cs : List Change}
    {result : Except TransferError Report} (hproper : ProperLocation (k ++ [n]))
    (hclear : fs.tree.Clear (k ++ [n])) (hbelow : top <+: k ++ [n])
    (h : Stages (pathOf (k ++ [n])) data fs result cs) :
    (∃ c ∈ cs, ∃ l ∈ c.touched, ¬ StrictlyBelow top l) ↔
      k ++ [n] = top ∧ ∃ staged fs', Staged.make (pathOf (k ++ [n])) fs = (.ok staged, fs') := by
  rcases h.touched with ⟨rfl, hnot⟩ | ⟨staged, fs', hmake, ⟨c, hc, hl⟩, htouched⟩
  · constructor
    · rintro ⟨c, hc, -⟩
      cases hc
    · rintro ⟨-, staged, fs', hmake⟩
      exact absurd hmake (hnot staged fs')
  · obtain ⟨m, hm⟩ := staged_beside hproper hclear hmake
    refine ⟨?_, fun ⟨heq, _⟩ => ⟨c, hc, _, hl, ?_⟩⟩
    · rintro ⟨c, hc, l, hl, hnot⟩
      refine ⟨?_, staged, fs', hmake⟩
      rcases List.prefix_concat_iff.mp hbelow with heq | hbelow
      · exact heq.symm
      · -- below the root, both the destination and what is staged lie strictly below it
        rcases htouched c hc l hl with rfl | ⟨folder, name, hslot, rfl⟩
        · exact absurd (hm ▸ strictlyBelow_concat hbelow m) hnot
        · rw [← slot_pathOf hproper hclear hslot] at hnot
          exact absurd (strictlyBelow_concat hbelow n) hnot
    · -- what is staged next to the root has as many names as the root
      rintro ⟨hle, hne⟩
      rw [hm, ← heq] at hle hne
      exact hne (hle.eq_of_length (by simp)).symm

/-- Where the root is the top of the tree, everything lies below it. -/
theorem receive_effects_top (settings : Settings) (s : Inbound) (a : Ambient) {dest : Path}
    (hne : dest.isEmpty = false) :
    ∃ cs, fs.Evolves cs (receiveFile settings dest s a fs).2.2.2 ∧
      ∀ c ∈ cs, ∀ l ∈ c.touched, StrictlyBelow [] l := by
  -- whatever a slot names has a name, so it is not the top
  have hslot {fs : Files} {p : Path} {folder : Location} {name : Name}
      (_ : fs.Slot p folder name) : StrictlyBelow [] (folder ++ [name]) :=
    strictlyBelow_concat List.nil_prefix name
  obtain ⟨prepared, made, hmade, hcases⟩ := receiveFile_cases settings s a fs hne
  have hfolders : ∀ c ∈ made.map Change.folderAt, ∀ l ∈ c.touched, StrictlyBelow [] l := by
    intro c hc l hl
    obtain ⟨p, -, folder, name, h, rfl⟩ := hmade.named l (Change.mem_of_touched_folders hc hl)
    exact hslot h
  rcases hcases with ⟨e, -, -, hfiles⟩ | ⟨-, cs, hevolves, hstages⟩
  · exact ⟨_, hfiles ▸ hmade.evolves, hfolders⟩
  · refine ⟨_, hmade.evolves.trans hevolves, fun c hc l hl => ?_⟩
    rcases List.mem_append.mp hc with hc | hc
    · rcases hstages.touched with ⟨rfl, -⟩ | ⟨staged, fs', hmake, -, htouched⟩
      · cases hc
      · rcases htouched c hc l hl with rfl | ⟨folder, name, h, rfl⟩
        · rcases Staged.make_cases hmake with ⟨staged', n, hr, -, hcreated⟩ | ⟨e, hr, -⟩
          · cases hr
            obtain ⟨folder, name, h, hlocation⟩ := hcreated.slot
            exact hlocation ▸ hslot h
          · cases hr
        · exact hslot h
    · exact hfolders c hc l hl

/-- **Receiving stays below the root**, unless it is the root that is to be received. -/
theorem receive_effects (settings : Settings) (s : Inbound) (a : Ambient)
    (ht : fs.tree.WellFormed) (hproper : ProperLocation r) (hclear : fs.tree.Clear r)
    (htop : fs.tree.Firm top) (hbelow : top <+: r) :
    ∃ cs, fs.Evolves cs (receiveFile settings (pathOf r) s a fs).2.2.2 ∧
      ((∃ c ∈ cs, ∃ l ∈ c.touched, ¬ StrictlyBelow top l) ↔
        r = top ∧ top ≠ [] ∧ Stageable (pathOf r) fs) := by
  have hne : (pathOf r).isEmpty = false := by simpa [Path.isEmpty] using text_pathOf_ne_nil r
  rcases List.eq_nil_or_concat r with rfl | ⟨k, n, rfl⟩
  · -- the root is the top of the tree
    obtain rfl := List.prefix_nil.mp hbelow
    obtain ⟨cs, hevolves, hcs⟩ := receive_effects_top settings s a hne
    refine ⟨cs, hevolves, ?_, ?_⟩
    · rintro ⟨c, hc, l, hl, hnot⟩
      exact absurd (hcs c hc l hl) hnot
    · rintro ⟨-, h, -⟩
      exact absurd rfl h
  · rw [List.concat_eq_append] at *
    obtain ⟨prepared, made, hmade, hcases⟩ := receiveFile_cases settings s a fs hne
    have hfolders := made_below ht hproper hclear htop hbelow hmade
    -- folders made on the way lie strictly below the root, so only later changes count
    have hnone {cs : List Change} :
        (∃ c ∈ cs ++ made.map Change.folderAt, ∃ l ∈ c.touched, ¬ StrictlyBelow top l) ↔
          ∃ c ∈ cs, ∃ l ∈ c.touched, ¬ StrictlyBelow top l := by
      constructor
      · rintro ⟨c, hc, l, hl, hnot⟩
        rcases List.mem_append.mp hc with hc | hc
        · exact ⟨c, hc, l, hl, hnot⟩
        · exact absurd (hfolders l (Change.mem_of_touched_folders hc hl)) hnot
      · rintro ⟨c, hc, h⟩
        exact ⟨c, List.mem_append_left _ hc, h⟩
    rcases hcases with ⟨e, hprepare, -, hfiles⟩ | ⟨hprepare, cs, hevolves, hstages⟩
    · -- folders are all that is made
      refine ⟨[] ++ made.map Change.folderAt, hfiles ▸ hmade.evolves, hnone.trans ?_⟩
      constructor
      · rintro ⟨c, hc, -⟩
        cases hc
      · rintro ⟨-, -, prepared', staged, fs', hready, -⟩
        rw [hprepare] at hready
        cases hready
    · refine ⟨_, hmade.evolves.trans hevolves, hnone.trans ?_⟩
      rw [stages_effects hproper (clear_of_furnished hmade hclear) hbelow hstages]
      constructor
      · rintro ⟨heq, staged, fs', hmake⟩
        exact ⟨heq, by simp [← heq], prepared, staged, fs', hprepare, hmake⟩
      · rintro ⟨heq, -, prepared', staged, fs', hready, hmake⟩
        rw [hprepare] at hready
        obtain rfl := (Prod.mk.inj hready).2
        exact ⟨heq, staged, fs', hmake⟩

end Session

end Courier
