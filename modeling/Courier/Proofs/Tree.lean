import Courier.Proofs.Location

/-!
# What a tree shows

A walk does not read files and does not mind modes: of an entry it sees whether it is a file, a
folder or a link, and where a link leads. This is the shape of the entry. A tree is well-formed
if its shape is that of a file system: there is a folder at the top, whatever exists lies in a
folder, and its names are proper.

Main results:

* `Tree.WellFormed.folder_of_append` — above everything that exists there are folders.
* `Tree.FilesOnly` — a tree shows what another one shows, and beyond that only files.
* `Change.get?_apply_of_notMem` — a change leaves every location alone that it does not touch.
* `Tree.get?_after_of_notMem` — and so does a run of changes.
-/

namespace Courier

/-! ## Shapes -/

/-- What a walk sees of an entry. -/
inductive Shape where
  | file
  | folder
  | link (target : Path)
deriving DecidableEq, Repr

/-- The shape of an entry: neither its mode nor its content shows in it. -/
def Entry.shape : Entry → Shape
  | .file .. => .file
  | .folder _ => .folder
  | .link target => .link target

namespace Tree

/-- What a tree shows at a location. -/
def shape (t : Tree) (l : Location) : Option Shape :=
  (t.get? l).map Entry.shape

/-- What is at a location shows there by its shape. -/
theorem shape_of_get? {t : Tree} {l : Location} {e : Entry} (h : t.get? l = some e) :
    t.shape l = some e.shape := by
  rw [shape, h]
  rfl

/-- Nothing shows where nothing is. -/
theorem shape_eq_none {t : Tree} {l : Location} : t.shape l = none ↔ t.get? l = none :=
  Option.map_eq_none_iff

/-- A folder shows where one is, whatever its mode. -/
theorem shape_eq_folder {t : Tree} {l : Location} :
    t.shape l = some .folder ↔ ∃ mode, t.get? l = some (.folder mode) := by
  unfold shape
  cases t.get? l with
  | none => simp
  | some e => cases e <;> simp [Entry.shape]

/-- A file shows where one is, whatever it holds. -/
theorem shape_eq_file {t : Tree} {l : Location} :
    t.shape l = some .file ↔
      ∃ mode serial content, t.get? l = some (.file mode serial content) := by
  unfold shape
  cases t.get? l with
  | none => simp
  | some e => cases e <;> simp [Entry.shape]

/-- Of a link all is shown. -/
theorem shape_eq_link {t : Tree} {l : Location} {target : Path} :
    t.shape l = some (.link target) ↔ t.get? l = some (.link target) := by
  unfold shape
  cases t.get? l with
  | none => simp
  | some e => cases e <;> simp [Entry.shape]

/-- Every entry that is found is one of those that the tree is made of. -/
theorem mem_of_get? {t : Tree} {l : Location} {e : Entry} (h : t.get? l = some e) :
    (l, e) ∈ t.entries := by
  obtain ⟨p, hfind, rfl⟩ := Option.map_eq_some_iff.mp h
  obtain rfl : p.1 = l := by simpa using List.find?_some hfind
  exact List.mem_of_find?_eq_some hfind

/-! ## Well-formed trees -/

/-- The tree has the shape of a file system. -/
structure WellFormed (t : Tree) : Prop where
  top : t.shape [] = some .folder
  above : ∀ l n s, t.shape (l ++ [n]) = some s → t.shape l = some .folder
  proper : ∀ l s, t.shape l = some s → ProperLocation l

namespace WellFormed

variable {t t' : Tree}

/-- It is enough to look at the entries that the tree is made of. -/
theorem of_entries (htop : t.shape [] = some .folder)
    (hentries : ∀ p ∈ t.entries,
      ProperLocation p.1 ∧ (p.1 = [] ∨ t.shape p.1.dropLast = some .folder)) :
    t.WellFormed := by
  -- whatever is shown comes from an entry
  have hmem {l : Location} {s : Shape} (h : t.shape l = some s) : ∃ p ∈ t.entries, p.1 = l := by
    obtain ⟨e, he, -⟩ := Option.map_eq_some_iff.mp h
    exact ⟨(l, e), mem_of_get? he, rfl⟩
  -- the folder above is that of the entry, and so are the names
  refine ⟨htop, fun l n s h => ?_, fun l s h => ?_⟩
  · obtain ⟨p, hp, hpl⟩ := hmem h
    have := (hentries p hp).2
    rw [hpl, List.dropLast_concat] at this
    exact this.resolve_left (by simp)
  · obtain ⟨p, hp, hpl⟩ := hmem h
    exact hpl ▸ (hentries p hp).1

/-- To be well-formed is a matter of shapes. -/
theorem of_shape_eq (h : t.WellFormed) (hshape : ∀ l, t'.shape l = t.shape l) : t'.WellFormed :=
  ⟨hshape [] ▸ h.top, fun l n s hs => hshape l ▸ h.above l n s (hshape _ ▸ hs),
    fun l s hs => h.proper l s (hshape l ▸ hs)⟩

/-- Above everything that exists there are folders. -/
theorem folder_of_append (h : t.WellFormed) {l k : Location} {s : Shape}
    (hs : t.shape (l ++ k) = some s) (hk : k ≠ []) : t.shape l = some .folder := by
  -- one name after the other is taken from the end of `k`
  rcases List.eq_nil_or_concat k with rfl | ⟨m, n, rfl⟩
  · exact absurd rfl hk
  · rw [List.concat_eq_append, ← List.append_assoc] at hs
    have hm := h.above _ _ _ hs
    cases m with
    | nil => rwa [List.append_nil] at hm
    | cons x m => exact h.folder_of_append hm (by simp)
termination_by k.length
decreasing_by simp [*]

/-- On the way to what exists there are folders. -/
theorem shape_of_prefix (h : t.WellFormed) {l m : Location} {s : Shape} (hlm : l <+: m)
    (hs : t.shape m = some s) : t.shape l = some .folder ∨ l = m := by
  -- either nothing is missing, or there are names below
  obtain ⟨k, rfl⟩ := hlm
  cases k with
  | nil => exact .inr (List.append_nil l).symm
  | cons x k => exact .inl (h.folder_of_append hs (by simp))

/-- Below a location that is missing nothing exists. -/
theorem shape_append_eq_none (h : t.WellFormed) {l k : Location} (hl : t.shape l = none) :
    t.shape (l ++ k) = none := by
  cases k with
  | nil => rwa [List.append_nil]
  | cons x k =>
    cases hs : t.shape (l ++ x :: k) with
    | none => rfl
    | some s =>
      -- something below would need a folder at `l`
      have := h.folder_of_append hs (by simp)
      rw [hl] at this
      cases this

/-- The folder above a folder is one; above the top there is the top. -/
theorem folder_dropLast (h : t.WellFormed) {l : Location} (hl : t.shape l = some .folder) :
    t.shape l.dropLast = some .folder := by
  rcases List.eq_nil_or_concat l with rfl | ⟨k, n, rfl⟩
  · exact hl
  · rw [List.concat_eq_append] at hl ⊢
    rw [List.dropLast_concat]
    exact h.above _ _ _ hl

end WellFormed

/-! ## Trees that show at least as much -/

/-- Whatever `t` shows, `t'` shows as well. -/
def ShownBy (t t' : Tree) : Prop :=
  ∀ l s, t.shape l = some s → t'.shape l = some s

/-- A tree shows what it shows. -/
theorem ShownBy.refl (t : Tree) : t.ShownBy t :=
  fun _ _ h => h

/-- What is shown by one tree after the other is shown by the last. -/
theorem ShownBy.trans {t t' t'' : Tree} (h : t.ShownBy t') (h' : t'.ShownBy t'') :
    t.ShownBy t'' :=
  fun l s hs => h' l s (h l s hs)

/-- `t'` shows what `t` shows, and beyond that only files. -/
structure FilesOnly (t t' : Tree) : Prop where
  shown : t.ShownBy t'
  only : ∀ l s, t'.shape l = some s → t.shape l = some s ∨ s = .file

/-- A folder or a link is not what is new. -/
theorem FilesOnly.old {t t' : Tree} (h : t.FilesOnly t') {l : Location} {s : Shape}
    (hs : t'.shape l = some s) (hne : s ≠ .file) : t.shape l = some s :=
  (h.only l s hs).resolve_right hne

/-- Where nothing has changed its shape there is nothing new. -/
theorem filesOnly_of_shape_eq {t t' : Tree} (h : ∀ l, t'.shape l = t.shape l) :
    t.FilesOnly t' :=
  ⟨fun l _ hs => h l ▸ hs, fun l _ hs => .inl (h l ▸ hs)⟩

/-- Files that come one after the other are still only files. -/
theorem FilesOnly.trans {t t' t'' : Tree} (h : t.FilesOnly t') (h' : t'.FilesOnly t'') :
    t.FilesOnly t'' where
  shown := h.shown.trans h'.shown
  only := fun l s hs => (h'.only l s hs).elim (h.only l s) .inr

/-- Something in a place where nothing was does not hide anything. -/
theorem shownBy_of_others {t t' : Tree} {l : Location} (hnone : t.get? l = none)
    (hothers : ∀ m, m ≠ l → t'.get? m = t.get? m) : t.ShownBy t' := by
  intro m s hs
  have hm : m ≠ l := by
    rintro rfl
    rw [shape_eq_none.mpr hnone] at hs
    cases hs
  rwa [shape, hothers m hm]

/-- Without one of its entries, a tree still shows what another one shows without it. -/
theorem ShownBy.remove {t t' : Tree} (h : t.ShownBy t') (l : Location) :
    (t.remove l).ShownBy (t'.remove l) := by
  intro m s hs
  by_cases hm : m = l
  · rw [hm, shape, get?_remove_self] at hs
    cases hs
  · rw [shape, get?_remove_of_ne _ hm] at hs ⊢
    exact h m s hs

/-- Something that a tree does not have may be removed from one that shows it. -/
theorem FilesOnly.remove {t t' : Tree} {l : Location} (h : t.FilesOnly t')
    (hnone : t.get? l = none) : t.FilesOnly (t'.remove l) where
  shown := by
    intro m s hs
    have hm : m ≠ l := by
      rintro rfl
      rw [shape_eq_none.mpr hnone] at hs
      cases hs
    rw [shape, get?_remove_of_ne _ hm]
    exact h.shown m s hs
  only := by
    intro m s hs
    -- at the place itself there is nothing any more
    by_cases hm : m = l
    · rw [hm, shape, get?_remove_self] at hs
      cases hs
    · rw [shape, get?_remove_of_ne _ hm] at hs
      exact h.only m s hs

/-- A file in a place where nothing was is all that is new. -/
theorem filesOnly_of_file {t t' : Tree} {l : Location} {mode serial : Nat} {content : Bytes}
    (hnone : t.get? l = none) (hfile : t'.get? l = some (.file mode serial content))
    (hothers : ∀ m, m ≠ l → t'.get? m = t.get? m) : t.FilesOnly t' where
  shown := shownBy_of_others hnone hothers
  only := by
    intro m s hs
    by_cases hm : m = l
    · rw [hm, shape_of_get? hfile] at hs
      exact .inr (Option.some.inj hs).symm
    · rw [shape, hothers m hm] at hs
      exact .inl hs

end Tree

/-! ## Changes -/

namespace Change

/-- An update leaves all other locations alone. -/
theorem get?_update_of_ne (t : Tree) (f : Entry → Entry) {l m : Location} (h : l ≠ m) :
    (update t m f).get? l = t.get? l := by
  unfold update
  split
  · exact Tree.get?_put_of_ne _ _ h
  · rfl

/-- And it changes the entry that is there, if one is. -/
theorem get?_update_self (t : Tree) (f : Entry → Entry) (l : Location) :
    (update t l f).get? l = (t.get? l).map f := by
  unfold update
  split
  · rename_i e he
    rw [Tree.get?_put_self, he]
    rfl
  · rename_i he
    rw [he]
    rfl

/-- A change leaves every location alone that it does not touch. -/
theorem get?_apply_of_notMem (t : Tree) {c : Change} {l : Location} (h : l ∉ c.touched) :
    (c.apply t).get? l = t.get? l := by
  -- a move touches two locations, any other change one
  cases c with
  | create m e => exact Tree.get?_put_of_ne _ _ (by simpa [touched] using h)
  | append m octets => exact get?_update_of_ne _ _ (by simpa [touched] using h)
  | overwrite m content => exact get?_update_of_ne _ _ (by simpa [touched] using h)
  | setMode m mode => exact get?_update_of_ne _ _ (by simpa [touched] using h)
  | move source target =>
    obtain ⟨hs, ht⟩ : l ≠ source ∧ l ≠ target := by simpa [touched] using h
    rw [apply]
    split
    · rw [Tree.get?_put_of_ne _ _ ht, Tree.get?_remove_of_ne _ hs]
    · rfl
  | remove m => exact Tree.get?_remove_of_ne _ (by simpa [touched] using h)

/-- What was moved is at its new place. -/
theorem get?_move_target {t : Tree} {source target : Location} {e : Entry}
    (h : t.get? source = some e) : ((move source target).apply t).get? target = some e := by
  rw [apply, h]
  exact Tree.get?_put_self ..

/-- And it is gone from the old one. -/
theorem get?_move_source {t : Tree} {source target : Location} {e : Entry}
    (h : t.get? source = some e) (hne : source ≠ target) :
    ((move source target).apply t).get? source = none := by
  rw [apply, h]
  dsimp only
  rw [Tree.get?_put_of_ne _ _ hne]
  exact Tree.get?_remove_self ..

/-- Adding to a file does not change what the tree shows. -/
theorem shape_append (t : Tree) (m : Location) (octets : Bytes) (l : Location) :
    ((append m octets).apply t).shape l = t.shape l := by
  unfold Tree.shape apply
  -- a file that gets longer is a file as before
  by_cases hl : l = m
  · subst hl
    rw [get?_update_self]
    cases t.get? l with
    | none => rfl
    | some e => cases e <;> rfl
  · rw [get?_update_of_ne _ _ hl]

/-- Something new does not hide what was shown before. -/
theorem shownBy_create {t : Tree} {l : Location} (h : t.get? l = none) (e : Entry) :
    t.ShownBy ((create l e).apply t) :=
  Tree.shownBy_of_others h fun _ hm => Tree.get?_put_of_ne _ _ hm

/-- Beyond what there was, a new file shows a file. -/
theorem filesOnly_create {t : Tree} {l : Location} (h : t.get? l = none) (mode serial : Nat)
    (content : Bytes) : t.FilesOnly ((create l (.file mode serial content)).apply t) :=
  Tree.filesOnly_of_file h (Tree.get?_put_self ..) fun _ hm => Tree.get?_put_of_ne _ _ hm

/-- What is shown without an entry is shown with it. -/
theorem shownBy_remove (t : Tree) (l : Location) : ((remove l).apply t).ShownBy t :=
  Tree.shownBy_of_others (Tree.get?_remove_self ..) fun _ hm =>
    (Tree.get?_remove_of_ne _ hm).symm

/-- Without one of its files a tree shows all else. -/
theorem filesOnly_remove {t : Tree} {l : Location} (h : ∀ s, t.shape l = some s → s = .file) :
    ((remove l).apply t).FilesOnly t where
  shown := shownBy_remove t l
  only := by
    intro m s hs
    by_cases hm : m = l
    · exact .inr (h s (hm ▸ hs))
    · refine .inl ?_
      rwa [Tree.shape, apply, Tree.get?_remove_of_ne _ hm]

end Change

/-! ## Runs of changes -/

namespace Tree

/-- The tree after some changes, the latest in front. -/
def after (t : Tree) : List Change → Tree
  | [] => t
  | c :: cs => c.apply (t.after cs)

/-- Changes one after the other are made to the tree that the first of them have left. -/
theorem after_append (t : Tree) (cs ds : List Change) :
    t.after (cs ++ ds) = (t.after ds).after cs := by
  induction cs with
  | nil => rfl
  | cons c cs ih => exact congrArg c.apply ih

/-- A run of changes leaves every location alone that none of them touches. -/
theorem get?_after_of_notMem (t : Tree) {cs : List Change} {l : Location}
    (h : ∀ c ∈ cs, l ∉ c.touched) : (t.after cs).get? l = t.get? l := by
  -- by induction on the changes, the latest first
  induction cs with
  | nil => rfl
  | cons c cs ih =>
    rw [after, Change.get?_apply_of_notMem _ (h c (List.mem_cons_self ..)),
      ih fun d hd => h d (List.mem_cons_of_mem _ hd)]

end Tree

end Courier
