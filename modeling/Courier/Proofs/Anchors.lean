import Courier.Proofs.Lookup

/-!
# Paths while links are replaced

A receive may put its file in the place of a symbolic link. A path that leads along that link then
ends at the file, and finds nothing beyond it. So, as long as folders stay and links at most become
files, a path that asks for a name in a folder asks for it in the same folder, or fails.

Main results:

* `walk_followed` — a walk is what it was, or ends at a file that has replaced a link.
* `Files.Slot.followed` — a slot stays where it is, or is not found any more.
-/

namespace Courier

/-- A link of one tree has become a file in another one. -/
def Tree.Replaced (t t' : Tree) : Prop :=
  ∃ l target, t.get? l = some (.link target) ∧ t'.shape l = some .file

/-- Folders stay, and links stay or become files. -/
structure Tree.Follows (t t' : Tree) : Prop where
  folder : ∀ l, t.shape l = some .folder → t'.shape l = some .folder
  link : ∀ l target, t.get? l = some (.link target) →
    t'.get? l = some (.link target) ∨ t'.shape l = some .file

section Walk

variable {t t' : Tree} {links left : Nat} {l l' : Location} {steps : List Bytes}

/-- A walk that steps on a file ends there. -/
theorem walk_of_replaced {step : Bytes} {rest : List Bytes} {mode : Nat}
    (hfolder : t'.get? l = some (.folder mode)) (hstay : ¬ isStay step = true)
    (hup : ¬ isUp step = true) (hlen : ¬ Route.maxName < step.length)
    (hfile : t'.shape (l ++ [step]) = some .file)
    (h : walk t' links l (step :: rest) = .ok (l', left)) : t'.shape l' = some .file := by
  obtain ⟨fileMode, serial, content, hget⟩ := Tree.shape_eq_file.mp hfile
  rw [walk, hfolder] at h
  simp only [if_neg hstay, if_neg hup, if_neg hlen, hget] at h
  rw [walk_of_file hfile h]
  exact hfile

/-- A walk that ends at a folder still does, or some link on its way was replaced; then it does not
end at a folder any more. -/
theorem walk_followed (hfollows : t.Follows t') (h : walk t links l steps = .ok (l', left))
    (hfolder : t.shape l' = some .folder) :
    walk t' links l steps = .ok (l', left) ∨
      (t.Replaced t' ∧ ∀ m k, walk t' links l steps = .ok (m, k) → t'.shape m = some .file) := by
  have kept {m : Location} {mode : Nat} (hm : t.get? m = some (.folder mode)) :
      ∃ mode', t'.get? m = some (.folder mode') :=
    Tree.shape_eq_folder.mp (hfollows.folder _ (Tree.shape_of_get? hm))
  -- the first link that a file has replaced decides; up to it both walks take the same steps
  fun_induction walk t links l steps with
  | case1 =>
    cases h
    exact .inl (by rw [walk])
  | case2 _ _ _ _ _ hl hstay ih =>
    obtain ⟨mode, hmode⟩ := kept hl
    rw [walk, hmode]
    simp only [hstay, if_true]
    exact ih h
  | case3 _ _ _ _ _ hl hstay hup ih =>
    obtain ⟨mode, hmode⟩ := kept hl
    rw [walk, hmode]
    simp only [if_neg hstay, if_pos hup]
    exact ih h
  | case7 l step rest _ hl hstay hup hlen target hlink links r ih =>
    obtain ⟨mode, hmode⟩ := kept hl
    rcases hfollows.link _ _ hlink with hsame | hfile
    · rw [walk, hmode]
      simp only [if_neg hstay, if_neg hup, if_neg hlen, hsame]
      exact ih h
    · -- the walk ends at the file that has replaced the link
      exact .inr ⟨⟨_, _, hlink, hfile⟩, fun m k hwalk =>
        walk_of_replaced hmode hstay hup hlen hfile hwalk⟩
  | case8 _ l step rest _ hl hstay hup hlen e hnot he ih =>
    obtain ⟨mode, hmode⟩ := kept hl
    -- a walk does not go beyond a file, so what it enters is a folder
    have hstep : t.shape (l ++ [step]) = some .folder := by
      cases e with
      | link target => exact absurd rfl (hnot target)
      | folder => exact Tree.shape_of_get? he
      | file =>
        have hfile := Tree.shape_of_get? he
        rw [walk_of_file hfile h, hfile] at hfolder
        cases hfolder
    obtain ⟨mode', hmode'⟩ := Tree.shape_eq_folder.mp (hfollows.folder _ hstep)
    rw [walk, hmode]
    simp only [if_neg hstay, if_neg hup, if_neg hlen, hmode']
    exact ih h
  | case4 | case5 | case6 | case9 => cases h

end Walk

namespace Files

variable {fs fs' : Files} {p : Path} {folder : Location} {name : Name}

/-- A path asks for its name in the same folder as before; or some link was replaced, and it does
not find a folder any more. -/
theorem Slot.followed (h : fs.Slot p folder name) (hhere : fs'.here = fs.here)
    (hfollows : fs.tree.Follows fs'.tree) :
    fs'.Slot p folder name ∨
      (fs.tree.Replaced fs'.tree ∧ ∀ folder' name', ¬ fs'.Slot p folder' name') := by
  obtain ⟨left, hwalk⟩ := h.walked
  rcases walk_followed hfollows hwalk h.isFolder with hsame | ⟨hreplaced, hfile⟩
  · left
    have hroute : fs'.route? p = fs.route? p := by unfold route?; rw [hhere]
    constructor
    case route => rw [hroute, hhere]; exact h.route
    case last => rw [hhere]; exact h.last
    case walked => exact ⟨left, by rw [hhere]; exact hsame⟩
    case isFolder => exact hfollows.folder _ h.isFolder
    case short => exact h.short
  -- a slot of the later tree would end at a folder, but the walk ends at the file
  · right
    refine ⟨hreplaced, fun folder' name' h' => ?_⟩
    obtain ⟨left', hwalk'⟩ := h'.walked
    rw [hhere] at hwalk'
    have hshape := hfile _ _ hwalk'
    rw [h'.isFolder] at hshape
    cases hshape

end Files

end Courier
