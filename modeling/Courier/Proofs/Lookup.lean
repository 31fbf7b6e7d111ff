import Courier.Proofs.Walk

/-!
# Looking a path up

The operations on files find their place by a route. This module says what they have found when
they succeed: `Files.Slot` for those that look for a name in a folder, and a walk for those that
follow a path to its end. The path of a location with no links above it always stands for that
location.

Main results:

* `Files.Slot.slotOf`, `Files.slot_of_slotOf` — when a slot is found, and where.
* `Files.Slot.mono`, `Files.Slot.anti` — a slot stays where it is when something is added to the
  tree, and no new one is found when files are added.
* `Files.slot_pathOf`, `Files.stat_pathOf` — the path of a clear location cannot be led astray.
* `Files.lstat_pathOf` — what is learned about a location from its path.
-/

namespace Courier

namespace Files

variable {fs : Files} {p : Path}

/-- A path has a route if it is not empty, not too long and has no zero in it. -/
theorem route?_eq_ok_iff {r : Route} :
    fs.route? p = .ok r ↔
      0 ∉ p.text ∧ p.text ≠ [] ∧ p.text.length ≤ Route.maxPath ∧ r = Route.ofPath fs.here p := by
  unfold route? Route.ofPath?
  split
  case isTrue hnul => simp [hnul]
  split
  case isTrue hempty => simp [List.isEmpty_iff.mp hempty]
  split
  case isTrue hlong => simp [Nat.not_le.mpr hlong]
  rename_i hnul hempty hlong
  constructor
  · intro h
    cases h
    exact ⟨hnul, fun hnil => hempty (List.isEmpty_iff.mpr hnil), Nat.not_lt.mp hlong, rfl⟩
  · rintro ⟨-, -, -, rfl⟩
    rfl

/-- And the route is that of its steps. -/
theorem route?_eq_ok {r : Route} (h : fs.route? p = .ok r) :
    r = Route.ofPath fs.here p ∧ p.text ≠ [] := by
  obtain ⟨-, hne, -, rfl⟩ := route?_eq_ok_iff.mp h
  exact ⟨rfl, hne⟩

/-- A path that is written down at all is never refused for being missing. -/
theorem kind_of_route? {f : Fault} (hne : p.text ≠ []) (h : fs.route? p = .error f) :
    f.kind ≠ .notFound := by
  unfold route? Route.ofPath? at h
  split at h
  · cases h
    decide
  split at h
  · rename_i hempty
    exact absurd (by simpa [Path.isEmpty] using hempty) hne
  split at h
  · cases h
    decide
  · cases h

/-! ## Slots -/

/-- A path asks for `name` in `folder`, and may do so. -/
structure Slot (fs : Files) (p : Path) (folder : Location) (name : Name) : Prop where
  route : fs.route? p = .ok (Route.ofPath fs.here p)
  last : (Route.ofPath fs.here p).lastName? = some name
  walked : ∃ left, walk fs.tree maxLinks (Route.ofPath fs.here p).start p.steps.dropLast =
    .ok (folder, left)
  isFolder : fs.tree.shape folder = some .folder
  short : name.length ≤ Route.maxName

/-- The last name of a route stands where the steps before it lead, and a folder is there. -/
theorem approach_eq_ok {t : Tree} {links left : Nat} {r : Route} {l : Location} :
    approach t links r = .ok (l, left) ↔
      walk t links r.start r.steps.dropLast = .ok (l, left) ∧ t.shape l = some .folder := by
  unfold approach
  cases hw : walk t links r.start r.steps.dropLast with
  | error f => simp [bind, Except.bind]
  | ok found =>
    obtain ⟨m, k⟩ := found
    simp only [bind, Except.bind]
    split
    · rename_i mode hmode
      constructor
      · intro h
        cases h
        exact ⟨rfl, Tree.shape_eq_folder.mpr ⟨mode, hmode⟩⟩
      · rintro ⟨h, _⟩
        exact h
    · rename_i hnot
      constructor
      · intro h
        cases h
      rintro ⟨h, hfolder⟩
      cases h
      obtain ⟨mode, hmode⟩ := Tree.shape_eq_folder.mp hfolder
      exact absurd hmode (hnot mode)

/-- A slot is what a path leads to. -/
theorem Slot.slotOf {folder : Location} {name : Name} (h : fs.Slot p folder name) (f : Fault) :
    fs.slotOf p f = .ok (folder ++ [name]) := by
  obtain ⟨left, hwalk⟩ := h.walked
  have happ := approach_eq_ok.mpr ⟨hwalk, h.isFolder⟩
  have hshort := Nat.not_lt.mpr h.short
  simp [Files.slotOf, h.route, h.last, slot, happ, hshort, bind, Except.bind]

/-- And what a path leads to is a slot. -/
theorem slot_of_slotOf {f : Fault} {l : Location} (h : fs.slotOf p f = .ok l) :
    ∃ folder name, fs.Slot p folder name ∧ l = folder ++ [name] := by
  unfold Files.slotOf at h
  cases hroute : fs.route? p with
  | error f => simp [hroute, bind, Except.bind] at h
  | ok r =>
    obtain ⟨rfl, _⟩ := route?_eq_ok hroute
    simp only [hroute, bind, Except.bind] at h
    cases hlast : (Route.ofPath fs.here p).lastName? with
    | none =>
      rw [hlast] at h
      dsimp only at h
      split at h <;> cases h
    -- a path with a last name is approached through the folder above it
    | some name =>
      rw [hlast] at h
      dsimp only [slot] at h
      cases happ : approach fs.tree maxLinks (Route.ofPath fs.here p) with
      | error f => simp [happ] at h
      | ok found =>
        obtain ⟨folder, left⟩ := found
        obtain ⟨hwalk, hfolder⟩ := approach_eq_ok.mp happ
        rw [happ] at h
        dsimp only at h
        split at h
        · cases h
        · rename_i hshort
          cases h
          exact ⟨folder, name, ⟨hroute, hlast, ⟨left, hwalk⟩, hfolder, Nat.not_lt.mp hshort⟩, rfl⟩

/-- The name of a slot is proper. -/
theorem Slot.proper {folder : Location} {name : Name} (h : fs.Slot p folder name) :
    ProperName name :=
  (Path.proper_of_lastName? h.last).2

/-- A slot stays where it is when something is added to the tree. -/
theorem Slot.mono {fs' : Files} {folder : Location} {name : Name} (h : fs.Slot p folder name)
    (hhere : fs'.here = fs.here) (hshown : fs.tree.ShownBy fs'.tree) :
    fs'.Slot p folder name := by
  obtain ⟨left, hwalk⟩ := h.walked
  have hroute : fs'.route? p = fs.route? p := by unfold route?; rw [hhere]
  constructor
  case route => rw [hroute, hhere]; exact h.route
  case last => rw [hhere]; exact h.last
  case walked => exact ⟨left, by rw [hhere]; exact walk_mono hshown hwalk⟩
  case isFolder => exact hshown _ _ h.isFolder
  case short => exact h.short

/-- New files do not make a slot where there was none. -/
theorem Slot.anti {fs' : Files} {folder : Location} {name : Name}
    (h : fs'.Slot p folder name) (hhere : fs'.here = fs.here)
    (honly : fs.tree.FilesOnly fs'.tree) : fs.Slot p folder name := by
  obtain ⟨left, hwalk⟩ := h.walked
  -- the walk ends at a folder, so no new file was on its way
  obtain ⟨hwalk, hfolder⟩ := walk_anti honly hwalk h.isFolder
  have hroute : fs.route? p = fs'.route? p := by unfold route?; rw [hhere]
  constructor
  case route => rw [hroute, ← hhere]; exact h.route
  case last => rw [← hhere]; exact h.last
  case walked => exact ⟨left, by rw [← hhere]; exact hwalk⟩
  case isFolder => exact hfolder
  case short => exact h.short

/-- A path asks for one name in one folder. -/
theorem Slot.unique {folder folder' : Location} {name name' : Name} (h : fs.Slot p folder name)
    (h' : fs.Slot p folder' name') : folder = folder' ∧ name = name' := by
  obtain ⟨left, hwalk⟩ := h.walked
  obtain ⟨left', hwalk'⟩ := h'.walked
  exact ⟨(Prod.mk.inj (Except.ok.inj (hwalk.symm.trans hwalk'))).1,
    Option.some.inj (h.last.symm.trans h'.last)⟩

/-! ## Ends -/

/-- What a path leads to is where its walk ends. -/
theorem stat_eq_ok {l : Location} {e : Entry} (h : fs.stat p = .ok (l, e)) :
    fs.route? p = .ok (Route.ofPath fs.here p) ∧
      (∃ left, walk fs.tree maxLinks (Route.ofPath fs.here p).start
        (Route.ofPath fs.here p).allSteps = .ok (l, left)) ∧
      fs.tree.get? l = some e := by
  unfold stat at h
  cases hroute : fs.route? p with
  | error f => simp [hroute, bind, Except.bind] at h
  | ok r =>
    obtain ⟨rfl, _⟩ := route?_eq_ok hroute
    rw [hroute] at h
    simp only [bind, Except.bind, endOf] at h
    split at h
    · rename_i m left hwalk
      unfold entryAt at h
      split at h
      · rename_i e' he
        cases h
        exact ⟨rfl, ⟨left, hwalk⟩, he⟩
      · cases h
    · cases h

/-- And where its walk ends is what it leads to, if something is there. -/
theorem stat_of_walk {l : Location} {e : Entry} {left : Nat}
    (hroute : fs.route? p = .ok (Route.ofPath fs.here p))
    (hwalk : walk fs.tree maxLinks (Route.ofPath fs.here p).start
      (Route.ofPath fs.here p).allSteps = .ok (l, left))
    (he : fs.tree.get? l = some e) : fs.stat p = .ok (l, e) := by
  simp [stat, hroute, endOf, hwalk, entryAt, he, bind, Except.bind]

/-- A path leads where it led when something is added. -/
theorem stat_mono {fs' : Files} {l : Location} {e : Entry}
    (hshown : fs.tree.ShownBy fs'.tree) (hhere : fs'.here = fs.here)
    (h : fs.stat p = .ok (l, e)) : ∃ e', fs'.stat p = .ok (l, e') := by
  obtain ⟨hroute, ⟨left, hwalk⟩, he⟩ := stat_eq_ok h
  have hroute' : fs'.route? p = fs.route? p := by unfold route?; rw [hhere]
  -- what the walk ends at is still there, whatever its content is now
  have hthere : fs'.tree.get? l ≠ none := by
    intro hnone
    have := hshown _ _ (Tree.shape_of_get? he)
    rw [Tree.shape_eq_none.mpr hnone] at this
    cases this
  obtain ⟨e', he'⟩ := Option.ne_none_iff_exists'.mp hthere
  have hwalk' := walk_mono hshown hwalk
  rw [← hhere] at hroute hwalk'
  exact ⟨e', stat_of_walk (hroute'.trans hroute) hwalk' he'⟩

/-- A path leads to the folder that is at its slot. -/
theorem Slot.stat_folder {folder : Location} {name : Name} {mode : Nat}
    (h : fs.Slot p folder name) (hget : fs.tree.get? (folder ++ [name]) = some (.folder mode)) :
    fs.stat p = .ok (folder ++ [name], .folder mode) := by
  obtain ⟨left, hwalk⟩ := h.walked
  obtain ⟨mode', hmode'⟩ := Tree.shape_eq_folder.mp h.isFolder
  obtain ⟨hlast, hproper⟩ := Path.proper_of_lastName? h.last
  obtain ⟨front, hfront⟩ := List.getLast?_eq_some_iff.mp hlast
  rw [hfront, List.dropLast_concat] at hwalk
  have hsteps : (Route.ofPath fs.here p).steps = front ++ [name] := hfront
  -- one step more enters the folder, and a slash behind its name stays there
  have hstep (rest : List Bytes) (hrest : rest = [] ∨ rest = [[Path.dot]]) :
      walk fs.tree maxLinks (Route.ofPath fs.here p).start (front ++ name :: rest) =
        .ok (folder ++ [name], left) := by
    rw [walk_append hwalk, walk, hmode']
    simp only [hproper.notStay, hproper.notUp, Bool.false_eq_true, if_false,
      if_neg (Nat.not_lt.mpr h.short), hget]
    rcases hrest with rfl | rfl
    · rw [walk]
    · rw [walk, hget]
      simp only [isStay, decide_true, if_true]
      rw [walk]
  refine @stat_of_walk _ _ _ _ left h.route ?_ hget
  rw [Route.allSteps, hsteps, List.append_assoc]
  split
  · exact hstep _ (.inr rfl)
  · exact hstep _ (.inl rfl)

/-- What is located is what the path leads to, and may be asked for by its own path. -/
theorem located_eq_ok {l : Location} {e : Entry} :
    fs.located p = .ok (l, e) ↔ fs.stat p = .ok (l, e) ∧ ∃ r, fs.route? (pathOf l) = .ok r := by
  unfold located
  cases fs.stat p with
  | error f => simp [bind, Except.bind]
  | ok found =>
    obtain ⟨m, d⟩ := found
    simp only [bind, Except.bind]
    cases hroute : fs.route? (pathOf m) with
    | error f =>
      refine ⟨(fun h => nomatch h), ?_⟩
      rintro ⟨heq, r, hr⟩
      cases heq
      rw [hroute] at hr
      cases hr
    | ok r =>
      refine ⟨fun h => ?_, fun h => h.1⟩
      cases h
      exact ⟨rfl, r, hroute⟩

/-- A path that is not absolute takes a step. -/
theorem allSteps_ne_nil (here : Location) (hne : p.text ≠ []) (habs : p.isAbsolute = false) :
    (Route.ofPath here p).allSteps ≠ [] := by
  -- the text begins with something other than a slash, so its first segment is not empty
  obtain ⟨c, rest, htext⟩ := List.exists_cons_of_ne_nil hne
  have hc : c ≠ Path.slash := by simpa [Path.isAbsolute, htext] using habs
  obtain ⟨s, ss, hs⟩ := List.exists_cons_of_ne_nil (Path.segments_ne_nil rest)
  have hsteps : (Route.ofPath here p).steps ≠ [] := by
    simp [Route.ofPath, htext, Path.segments_cons_of_ne hc hs]
  unfold Route.allSteps
  split
  · simp
  · exact hsteps

/-- What a path leads to is a file or a folder. -/
theorem firm_of_stat (ht : fs.tree.WellFormed) {l : Location} {e : Entry}
    (h : fs.stat p = .ok (l, e)) : fs.tree.Firm l := by
  obtain ⟨hroute, ⟨left, hwalk⟩, he⟩ := stat_eq_ok h
  have hleads := leads_of_walk hwalk
  refine hleads.firm ht (Tree.firm_of_folder ?_)
  -- a walk starts at the top, or takes a step from a folder
  cases habs : p.isAbsolute with
  | true =>
    have : (Route.ofPath fs.here p).start = [] := by simp [Route.ofPath, habs]
    rw [this]
    exact ht.top
  | false =>
    obtain ⟨x, xs, hsteps⟩ :=
      List.exists_cons_of_ne_nil (allSteps_ne_nil fs.here (route?_eq_ok hroute).2 habs)
    rw [hsteps] at hleads
    exact hleads.folder_of_cons

/-! ## The path of a location -/

variable {r : Location}

/-- The names of a clear location lead from the top to it and nowhere else. -/
theorem eq_of_leads_top {t : Tree} {l : Location} (hr : ProperLocation r) (hclear : t.Clear r)
    (h : Leads t [] r l) : l = r := by
  have := h.eq_append_of_clear hr fun j hj target => by simpa using hclear j hj target
  simpa using this

/-- The path of a location has that location for its slot, if no link is in the way. -/
theorem slot_pathOf_concat {k folder : Location} {n name : Name} (hr : ProperLocation (k ++ [n]))
    (hclear : fs.tree.Clear k) (h : fs.Slot (pathOf (k ++ [n])) folder name) :
    folder = k ∧ name = n := by
  obtain ⟨left, hwalk⟩ := h.walked
  have hlast := h.last
  rw [ofPath_pathOf_concat hr] at hlast hwalk
  -- the last name is that of the location, and the names before it lead to `k`
  have hn : n = name := by
    simpa [Route.lastName?, hr.last.notStay, hr.last.notUp] using hlast
  rw [steps_pathOf hr, List.dropLast_concat] at hwalk
  exact ⟨eq_of_leads_top hr.of_append_left hclear (leads_of_walk hwalk), hn.symm⟩

/-- So it is for a location that is not split. -/
theorem slot_pathOf {folder : Location} {name : Name} (hr : ProperLocation r)
    (hclear : fs.tree.Clear r) (h : fs.Slot (pathOf r) folder name) : r = folder ++ [name] := by
  rcases List.eq_nil_or_concat r with rfl | ⟨k, n, rfl⟩
  · have hlast := h.last
    rw [ofPath_pathOf_nil] at hlast
    cases hlast
  · rw [List.concat_eq_append] at *
    obtain ⟨rfl, rfl⟩ := slot_pathOf_concat hr (hclear.of_prefix (List.prefix_append ..)) h
    rfl

/-- And it leads to what is there. -/
theorem stat_pathOf {l : Location} {e : Entry} (hr : ProperLocation r)
    (hclear : fs.tree.Clear r) (h : fs.stat (pathOf r) = .ok (l, e)) :
    l = r ∧ fs.tree.get? r = some e := by
  obtain ⟨_, ⟨left, hwalk⟩, he⟩ := stat_eq_ok h
  have hl : l = r := by
    rcases List.eq_nil_or_concat r with rfl | ⟨k, n, rfl⟩
    · rw [ofPath_pathOf_nil] at hwalk
      -- the path of the top has one step, and it stays
      cases leads_of_walk hwalk with
      | stay _ _ h => cases h; rfl
      | up _ hstay _ _ => cases hstay
      | enter _ hstay _ _ _ _ => cases hstay
      | follow _ hstay _ _ _ => cases hstay
    · rw [List.concat_eq_append] at *
      rw [ofPath_pathOf_concat hr] at hwalk
      exact eq_of_leads_top hr hclear (leads_of_walk hwalk)
  exact ⟨hl, hl ▸ he⟩

/-- On the way to something below a file or folder nothing is missing. -/
theorem approach_of_firm {t : Tree} (ht : t.WellFormed) {l : Location} (hl : t.Firm l)
    (n : Name) :
    (t.shape l = some .folder ∧
      approach t maxLinks ⟨[], l ++ [n], false⟩ = .ok (l, maxLinks)) ∨
    ∃ f, f.kind ≠ .notFound ∧ approach t maxLinks ⟨[], l ++ [n], false⟩ = .error f := by
  -- all that can go wrong is a name too long, or a file where a folder is needed
  rcases walk_of_firm ht maxLinks (l := []) hl with hwalk | ⟨hwalk, -⟩
  · rw [List.nil_append] at hwalk
    by_cases hfolder : t.shape l = some .folder
    · exact .inl ⟨hfolder, approach_eq_ok.mpr ⟨by rwa [List.dropLast_concat], hfolder⟩⟩
    · refine .inr ⟨.notADirectory, by decide, ?_⟩
      unfold approach
      dsimp only
      rw [List.dropLast_concat, hwalk]
      simp only [bind, Except.bind]
      split
      · rename_i mode hmode
        exact absurd (Tree.shape_of_get? hmode) hfolder
      · rfl
  · refine .inr ⟨.nameTooLong, by decide, ?_⟩
    unfold approach
    dsimp only
    rw [List.dropLast_concat, hwalk]
    rfl

/-- What is learned from the path of a location below a file or folder, links not followed. -/
theorem lstat_pathOf {l : Location} {n : Name} (ht : fs.tree.WellFormed) (hl : fs.tree.Firm l)
    (hn : ProperName n) :
    (∃ e, fs.lstat (pathOf (l ++ [n])) = .ok (l ++ [n], e) ∧ fs.tree.get? (l ++ [n]) = some e) ∨
      ∃ f, fs.lstat (pathOf (l ++ [n])) = .error f ∧ (f.kind = .notFound →
        fs.tree.shape l = some .folder ∧ fs.tree.get? (l ++ [n]) = none) := by
  have hproper : ProperLocation (l ++ [n]) := (hl.proper ht).concat hn
  unfold lstat
  cases hroute : fs.route? (pathOf (l ++ [n])) with
  | error f =>
    -- a path that cannot be used at all is not reported as missing
    have hkind := kind_of_route? (text_pathOf_ne_nil _) hroute
    exact .inr ⟨f, rfl, fun hf => absurd hf hkind⟩
  | ok r =>
    obtain ⟨rfl, _⟩ := route?_eq_ok hroute
    rw [ofPath_pathOf_concat hproper]
    simp only [bind, Except.bind, Route.lastName?_concat hn]
    rcases approach_of_firm ht hl n with ⟨hfolder, happ⟩ | ⟨f, hkind, happ⟩
    · rw [happ]
      dsimp only
      split
      · exact .inr ⟨_, rfl, fun hf => by cases hf⟩
      · unfold entryAt
        cases he : fs.tree.get? (l ++ [n]) with
        | some e => exact .inl ⟨e, rfl, rfl⟩
        | none => exact .inr ⟨_, rfl, fun _ => ⟨hfolder, rfl⟩⟩
    · rw [happ]
      exact .inr ⟨f, rfl, fun hf => absurd hf hkind⟩

end Files

end Courier
