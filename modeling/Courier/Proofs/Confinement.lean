import Mathlib.Data.List.Permutation
import Courier.Proofs.Lookup
import Courier.Session.Resolve

/-!
# Served locations lie under the root

A peer's path is walked name by name. The walk stays under the root all the time: it steps over
files and folders that are there, jumps along a link only to what lies under the root again, and
once a name is missing it takes the rest as it is. So the location reached is always one that
the names read so far really lead to.

Main results:

* `Session.resolveFrom_eq_ok` — what the walk keeps true from any location it has reached.
* `Session.resolve_confined` — a served location lies under the root, has no link above or at
  it, and is what the names of the path denote.
-/

namespace Courier

/-- What some names below `top` denote: the location that the longest run of them that exists
leads to, and the other names below it. -/
def Denotes (t : Tree) (top : Location) (names : List Name) (r : Location) : Prop :=
  ∃ found rest reached, names = found ++ rest ∧ Leads t top found reached ∧ r = reached ++ rest ∧
    ∀ more, more <+: rest → more ≠ [] → ∀ l, ¬ Leads t top (found ++ more) l

/-- Where nothing has the next name, no further names lead anywhere. -/
theorem not_leads_of_missing {t : Tree} {top reached l : Location} {found more : List Name}
    {name : Name} (hname : ProperName name) (hleads : Leads t top found reached)
    (hmissing : t.shape (reached ++ [name]) = none) :
    ¬ Leads t top (found ++ name :: more) l := by
  intro h
  -- the first names lead to `reached` only, and the next name is missing there
  obtain ⟨m, hm, hrest⟩ := leads_append.mp h
  obtain rfl := hm.unique hleads
  cases hrest with
  | stay _ hstay _ => rw [hname.notStay] at hstay; cases hstay
  | up _ _ hup _ => rw [hname.notUp] at hup; cases hup
  | enter _ _ _ hs _ _ => rw [hmissing] at hs; cases hs
  | follow _ _ _ hs _ => rw [hmissing] at hs; cases hs

/-- Names below a missing one are no links, nor is what lies above it. -/
theorem Tree.Clear.append_missing {t : Tree} (ht : t.WellFormed) {l : Location} {name : Name}
    {rest : List Name} (hl : t.Clear l) (hmissing : t.shape (l ++ [name]) = none) :
    t.Clear (l ++ name :: rest) := by
  intro m hm target htarget
  -- a prefix ends above the missing name, or it goes on below it
  have hnext : l ++ [name] <+: l ++ name :: rest := ⟨rest, by simp⟩
  rcases List.prefix_or_prefix_of_prefix hm hnext with h | ⟨k, rfl⟩
  · rcases List.prefix_concat_iff.mp h with rfl | h
    · rw [shape_eq_none.mp hmissing] at htarget
      cases htarget
    · exact hl m h target htarget
  · have := ht.shape_append_eq_none (k := k) hmissing
    rw [shape_eq_none.mp this] at htarget
    cases htarget

namespace Session

/-- What is true of a location that the walk of the names has reached. -/
structure Reached (t : Tree) (top : Location) (found : List Name) (reached : Location) : Prop where
  below : top <+: reached
  firm : t.Firm reached
  leads : Leads t top found reached

variable {fs : Files} {root asked : Path} {top reached r : Location} {found names : List Name}

/-- A file or a folder is reached by its name from where it lies. -/
theorem Reached.enter (ht : fs.tree.WellFormed) {name : Name}
    (h : Reached fs.tree top found reached) (hname : ProperName name)
    (hnext : fs.tree.Firm (reached ++ [name])) :
    Reached fs.tree top (found ++ [name]) (reached ++ [name]) := by
  obtain ⟨s, hs, hnot⟩ := hnext
  refine ⟨h.below.trans (List.prefix_append ..), ⟨s, hs, hnot⟩, ?_⟩
  exact leads_append.mpr ⟨reached, h.leads,
    .enter (ht.above _ _ _ hs) hname.notStay hname.notUp hs hnot (.done _)⟩

/-- A link is followed to its end, however many links that takes. -/
theorem Reached.follow (ht : fs.tree.WellFormed) {name : Name} {target : Location} {e : Entry}
    (h : Reached fs.tree top found reached) (hname : ProperName name)
    (hstat : fs.stat (Files.pathOf (reached ++ [name])) = .ok (target, e))
    (hbelow : top <+: target) : Reached fs.tree top (found ++ [name]) target := by
  have hproper : ProperLocation reached := h.firm.proper ht
  obtain ⟨_, ⟨left, hwalk⟩, _⟩ := Files.stat_eq_ok hstat
  rw [Files.ofPath_pathOf_concat (hproper.concat hname)] at hwalk
  -- the walk to the link passes through the location reached before
  obtain ⟨m, hm, hrest⟩ := leads_append.mp (leads_of_walk hwalk)
  obtain rfl := Files.eq_of_leads_top hproper (ht.clear_of_firm h.firm) hm
  exact ⟨hbelow, Files.firm_of_stat ht hstat, leads_append.mpr ⟨m, h.leads, hrest⟩⟩

/-- What the names that are left lead to, from what is reached so far. -/
theorem resolveFrom_eq_ok (ht : fs.tree.WellFormed) (hnames : ProperLocation names)
    (hreached : Reached fs.tree top found reached)
    (h : resolveFrom fs top asked reached names = .ok r) :
    top <+: r ∧ fs.tree.Clear r ∧ ProperLocation r ∧ Denotes fs.tree top (found ++ names) r := by
  -- name by name: `found` are the names that are read and `reached` is where they lead
  induction names generalizing found reached with
  | nil =>
    cases h
    -- all names are read, and they lead to what was reached
    refine ⟨hreached.below, ht.clear_of_firm hreached.firm, hreached.firm.proper ht,
      found, [], r, rfl, hreached.leads, by simp, ?_⟩
    intro more hmore hne
    exact absurd (List.prefix_nil.mp hmore) hne
  | cons name rest ih =>
    have hname : ProperName name := hnames name (List.mem_cons_self ..)
    have hrest : ProperLocation rest := fun n hn => hnames n (List.mem_cons_of_mem _ hn)
    have hassoc : found ++ name :: rest = found ++ [name] ++ rest := by simp
    rw [resolveFrom] at h
    rcases Files.lstat_pathOf ht hreached.firm hname with ⟨e, hlstat, he⟩ | ⟨f, hlstat, hkind⟩
    · rw [hlstat] at h
      rw [hassoc]
      cases e with
      | link target =>
        dsimp only at h
        split at h
        · cases h
        · rename_i l e hlocated
          obtain ⟨hstat, -⟩ := Files.located_eq_ok.mp hlocated
          split at h
          · -- a link is followed only to what lies under the root
            rename_i hbelow
            exact ih hrest
              (hreached.follow ht hname hstat (List.isPrefixOf_iff_prefix.mp hbelow)) h
          · cases h
      | file =>
        exact ih hrest (hreached.enter ht hname ⟨_, Tree.shape_of_get? he, nofun⟩) h
      | folder =>
        exact ih hrest (hreached.enter ht hname ⟨_, Tree.shape_of_get? he, nofun⟩) h
    · rw [hlstat] at h
      dsimp only at h
      split at h
      · rename_i hf
        -- the name is missing in a folder, so the rest of the names is taken as it is
        obtain ⟨hfolder, hnone⟩ := hkind hf
        have hmissing := Tree.shape_eq_none.mpr hnone
        have hr : r = reached ++ name :: rest := by
          have := Except.ok.inj h
          simpa using this.symm
        subst hr
        refine ⟨hreached.below.trans (List.prefix_append ..),
          (ht.clear_of_firm hreached.firm).append_missing ht hmissing, ?_,
          found, name :: rest, reached, rfl, hreached.leads, rfl, ?_⟩
        · intro n hn
          rcases List.mem_append.mp hn with hn | hn
          · exact hreached.firm.proper ht n hn
          · exact hnames n hn
        · intro more hmore hne l
          obtain ⟨x, more, rfl⟩ := List.exists_cons_of_ne_nil hne
          obtain ⟨rfl, _⟩ := List.cons_prefix_cons.mp hmore
          exact not_leads_of_missing hname hreached.leads hmissing
      · cases h

/-- **A path that is resolved** leads below the root, to a location without links along it. -/
theorem resolve_eq_ok (ht : fs.tree.WellFormed) (h : resolve fs root asked = .ok r) :
    ∃ top e, fs.stat root = .ok (top, e) ∧ top <+: r ∧ fs.tree.Clear r ∧ ProperLocation r ∧
      Denotes fs.tree top asked.names r := by
  unfold resolve at h
  split at h
  · cases h
  · rename_i names hnames
    have hasked : asked.names = names := by
      unfold requestedNames at hnames
      split at hnames
      · cases hnames
      split at hnames
      · cases hnames
      · exact Except.ok.inj hnames
    split at h
    · cases h
    · rename_i top e hlocated
      obtain ⟨hroot, -⟩ := Files.located_eq_ok.mp hlocated
      -- the walk begins at the root, with no names read
      have hfirm := Files.firm_of_stat ht hroot
      refine ⟨top, e, hroot, ?_⟩
      rw [hasked]
      exact resolveFrom_eq_ok ht (hasked ▸ Path.proper_names asked)
        ⟨List.prefix_rfl, hfirm, .done top⟩ h

/-- **Served locations are confined.** A location that a peer's path is resolved to lies under
the root. No link stands above or at it, so its path leads to it and nowhere else, be it to look
something up or to make it. It is what the names in the path denote below the root. -/
theorem resolve_confined (ht : fs.tree.WellFormed) (h : resolve fs root asked = .ok r) :
    ∃ top e, fs.stat root = .ok (top, e) ∧
      top <+: r ∧
      (∀ l, l <+: r → ∀ target, fs.tree.get? l ≠ some (.link target)) ∧
      (∀ l e, fs.stat (Files.pathOf r) = .ok (l, e) → l = r) ∧
      (∀ l f, fs.slotOf (Files.pathOf r) f = .ok l → l = r) ∧
      Denotes fs.tree top asked.names r := by
  obtain ⟨top, e, hroot, hbelow, hclear, hproper, hdenotes⟩ := resolve_eq_ok ht h
  refine ⟨top, e, hroot, hbelow, hclear, fun l e hl => ?_, fun l f hl => ?_, hdenotes⟩
  · exact (Files.stat_pathOf hproper hclear hl).1
  · obtain ⟨folder, name, hslot, rfl⟩ := Files.slot_of_slotOf hl
    exact (Files.slot_pathOf hproper hclear hslot).symm

/-- A folder `srv` in which `alias` is a link to `via`, and `via` one to the folder `real`. -/
def linkedFiles : Files :=
  { tree := ⟨[([], .folder 0o755), ([bytes "srv"], .folder 0o755),
      ([bytes "srv", bytes "real"], .folder 0o755),
      ([bytes "srv", bytes "alias"], .link (.of "via")),
      ([bytes "srv", bytes "via"], .link (.of "/srv/./real"))]⟩
    here := [] }

/-- `linkedFiles` is a well-formed tree. -/
theorem linkedFiles_wellFormed : linkedFiles.tree.WellFormed :=
  .of_entries (by decide) (by decide)

/-- A path with links in it, and two names at its end that are missing. -/
theorem resolve_confined_linked :
    let r : Location := [bytes "srv", bytes "real", bytes "new", bytes "file.txt"]
    linkedFiles.tree.WellFormed ∧
      resolve linkedFiles (.of "srv") (.of "/alias/./new/file.txt") = .ok r ∧
      ∃ top e, linkedFiles.stat (.of "srv") = .ok (top, e) ∧
        top <+: r ∧
        (∀ l, l <+: r → ∀ target, linkedFiles.tree.get? l ≠ some (.link target)) ∧
        (∀ l e, linkedFiles.stat (Files.pathOf r) = .ok (l, e) → l = r) ∧
        (∀ l f, linkedFiles.slotOf (Files.pathOf r) f = .ok l → l = r) ∧
        Denotes linkedFiles.tree top (Path.of "/alias/./new/file.txt").names r := by
  have hresolve : resolve linkedFiles (.of "srv") (.of "/alias/./new/file.txt") =
      .ok [bytes "srv", bytes "real", bytes "new", bytes "file.txt"] := by cbv
  exact ⟨linkedFiles_wellFormed, hresolve, resolve_confined linkedFiles_wellFormed hresolve⟩

end Session

end Courier
