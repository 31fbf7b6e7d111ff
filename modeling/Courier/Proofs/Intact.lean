import Courier.Proofs.Records

/-!
# Trees stay well-formed

Whatever is made is made in a folder and under a proper name, and only files are moved or removed.
So a tree that has the shape of a file system keeps it.

Main results:

* `Tree.WellFormed.create`, `Tree.WellFormed.remove`, `Tree.WellFormed.move` — the changes, one by
  one.
* `Files.Furnished.wellFormed` — folders that are made on the way.
* `Files.place_of_seek` — where a file is made that is opened to add to it.
-/

namespace Courier

/-- A location is a proper name in a folder. -/
def Tree.Place (t : Tree) (l : Location) : Prop :=
  ∃ folder name, l = folder ++ [name] ∧ t.shape folder = some .folder ∧ ProperName name

/-- A slot is a place for an entry: a proper name in a folder. -/
theorem Files.Slot.place {fs : Files} {p : Path} {folder : Location} {name : Name}
    (h : fs.Slot p folder name) : fs.tree.Place (folder ++ [name]) :=
  ⟨folder, name, rfl, h.isFolder, h.proper⟩

namespace Tree.WellFormed

variable {t t' : Tree} {l : Location}

/-- Something new in a place where nothing but a file or a link was leaves the tree well-formed. -/
theorem put (h : t.WellFormed) (hplace : t.Place l) (hfree : t.shape l ≠ some .folder)
    (e : Entry) : (t.put l e).WellFormed := by
  obtain ⟨folder, name, rfl, hfolder, hname⟩ := hplace
  have hother {m : Location} (hm : m ≠ folder ++ [name]) :
      (t.put (folder ++ [name]) e).shape m = t.shape m :=
    congrArg (Option.map Entry.shape) (Tree.get?_put_of_ne t e hm)
  -- a folder is in another place
  have hkept {m : Location} (hm : t.shape m = some .folder) :
      (t.put (folder ++ [name]) e).shape m = some .folder := by
    rw [hother fun heq => hfree (heq ▸ hm)]
    exact hm
  constructor
  case top => exact hkept h.top
  case above =>
    intro m n s hs
    by_cases hm : m ++ [n] = folder ++ [name]
    · obtain ⟨rfl, -⟩ := List.append_inj' hm rfl
      exact hkept hfolder
    · rw [hother hm] at hs
      exact hkept (h.above m n s hs)
  case proper =>
    intro m s hs
    by_cases hm : m = folder ++ [name]
    · exact hm ▸ (h.proper folder _ hfolder).concat hname
    · rw [hother hm] at hs
      exact h.proper m s hs

/-- Without one of its files a tree is well-formed. -/
theorem remove (h : t.WellFormed) (hfile : t.shape l = some .file) : (t.remove l).WellFormed := by
  have hother {m : Location} (hm : m ≠ l) : (t.remove l).shape m = t.shape m :=
    congrArg (Option.map Entry.shape) (Tree.get?_remove_of_ne t hm)
  have hold {m : Location} {s : Shape} (hs : (t.remove l).shape m = some s) :
      t.shape m = some s := by
    by_cases hm : m = l
    · rw [hm, Tree.shape, Tree.get?_remove_self] at hs
      cases hs
    · rwa [hother hm] at hs
  have hkept {m : Location} (hm : t.shape m = some .folder) :
      (t.remove l).shape m = some .folder := by
    rw [hother fun heq => by rw [heq, hfile] at hm; cases hm]
    exact hm
  exact ⟨hkept h.top, fun m n s hs => hkept (h.above m n s (hold hs)),
    fun m s hs => h.proper m s (hold hs)⟩

/-- A file that takes another place leaves the tree well-formed. -/
theorem move {target : Location} (h : t.WellFormed) (hfile : t.shape l = some .file)
    (hplace : t.Place target) (hfree : t.shape target ≠ some .folder) :
    ((Change.move l target).apply t).WellFormed := by
  rw [Change.apply]
  split
  · refine (h.remove hfile).put ?_ ?_ _
    -- the folder that it moves to is no file, so it is still there when the file is away
    · obtain ⟨folder, name, rfl, hfolder, hname⟩ := hplace
      have hne : folder ≠ l := fun heq => by
        rw [heq, hfile] at hfolder
        cases hfolder
      refine ⟨folder, name, rfl, ?_, hname⟩
      rw [Tree.shape, Tree.get?_remove_of_ne _ hne]
      exact hfolder
    · intro hfolder
      by_cases hne : target = l
      · rw [hne, Tree.shape, Tree.get?_remove_self] at hfolder
        cases hfolder
      · rw [Tree.shape, Tree.get?_remove_of_ne _ hne] at hfolder
        exact hfree hfolder
  · exact h

end Tree.WellFormed

namespace Files

variable {fs fs' : Files}

/-- Folders that are made on the way leave the tree well-formed. -/
theorem Furnished.wellFormed {ps : List Path} {made : List Location}
    (h : Furnished ps fs made fs') (ht : fs.tree.WellFormed) : fs'.tree.WellFormed := by
  -- each folder that was made is a proper name in a folder
  have hplace {l : Location} (hl : l ∈ made) : fs'.tree.Place l := by
    obtain ⟨p, -, folder, name, hslot, rfl⟩ := h.named l hl
    exact hslot.place
  have hold {l : Location} (hl : l ∉ made) : fs'.tree.shape l = fs.tree.shape l := by
    rw [Tree.shape, h.get?, if_neg hl]
    rfl
  have hproper (k : Nat) : ∀ l s, l.length = k → fs'.tree.shape l = some s → ProperLocation l := by
    -- by the length of the location: the folder above a new folder may be new itself
    induction k with
    | zero =>
      intro l s hk _ n hn
      rw [List.length_eq_zero_iff.mp hk] at hn
      cases hn
    | succ k ih =>
      intro l s hk hs
      by_cases hl : l ∈ made
      · obtain ⟨folder, name, rfl, hfolder, hname⟩ := hplace hl
        exact (ih folder _ (by simpa using hk) hfolder).concat hname
      · exact ht.proper l s (hold hl ▸ hs)
  constructor
  case top => exact h.shown _ _ ht.top
  case above =>
    intro l n s hs
    by_cases hl : l ++ [n] ∈ made
    · obtain ⟨folder, name, heq, hfolder, -⟩ := hplace hl
      obtain ⟨rfl, -⟩ := List.append_inj' heq rfl
      exact hfolder
    · exact h.shown _ _ (ht.above l n s (hold hl ▸ hs))
  case proper => exact fun l s hs => hproper l.length l s rfl hs

/-- A write ends up at a proper name in a folder. -/
theorem place_of_seek {t : Tree} {links : Nat} {here : Location} {p : Path} {l : Location}
    {found : Option Entry} (h : seek t links (Route.ofPath here p) = .ok (l, found)) :
    t.Place l := by
  generalize hr : Route.ofPath here p = r at h
  have place {links left : Nat} {here : Location} {p : Path} {m : Location} {name : Name}
      (happ : approach t links (Route.ofPath here p) = .ok (m, left))
      (hlast : (Route.ofPath here p).lastName? = some name) : t.Place (m ++ [name]) :=
    ⟨m, name, rfl, (approach_eq_ok.mp happ).2, (Path.proper_of_lastName? hlast).2⟩
  -- a link at the end sends the search on, from its folder and with its target
  fun_induction seek t links r generalizing here p with
  | case3 links r m left happ name hlast hslash hshort hnone =>
    cases h
    subst hr
    exact place happ hlast
  | case5 links r m left happ name hlast hslash hshort mode serial content =>
    cases h
    subst hr
    exact place happ hlast
  | case7 links r m name hlast hslash hshort target hlink left happ _ ih => exact ih rfl h
  | case1 | case2 | case4 | case6 | case8 => cases h

/-- What the system looks for, if it is not stopped, is a place for an entry. -/
theorem place_of_route_seek {p : Path} {l : Location} {found : Option Entry}
    (h : (fs.route? p >>= seek fs.tree maxLinks) = .ok (l, found)) : fs.tree.Place l := by
  cases hroute : fs.route? p with
  | error f =>
    rw [hroute] at h
    cases h
  | ok r =>
    obtain ⟨rfl, -⟩ := route?_eq_ok hroute
    rw [hroute] at h
    exact place_of_seek h

end Files

end Courier
