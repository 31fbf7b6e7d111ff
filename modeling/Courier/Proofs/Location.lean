import Courier.Proofs.Path

/-!
# The path of a location

`Files.pathOf` writes a location down as an absolute path. Here that text is read again: as the
route it stands for, as the parts it has, and as the folder it lies in. All of it needs names
that a folder can hold, so that is fixed first.

Main results:

* `Files.ofPath_pathOf_concat` — the path of a location leads along its names.
* `Files.folder_pathOf_concat`, `Files.fileName?_pathOf_concat` — it splits into the path of the
  location above and the last name.
* `Files.child_pathOf` — a name put below the path of a location gives the path of the location
  with that name.
* `Path.fileName?_of_lastName?` — where a walk ends at a name, that name is the name of the file.
-/

namespace Courier

/-- A name that a folder may hold: one that reads as a name where it stands in a path. -/
structure ProperName (n : Name) : Prop where
  ne_nil : n ≠ []
  noSlash : Path.slash ∉ n
  notStay : isStay n = false
  notUp : isUp n = false

instance (n : Name) : Decidable (ProperName n) :=
  decidable_of_iff (n ≠ [] ∧ Path.slash ∉ n ∧ isStay n = false ∧ isUp n = false)
    ⟨fun ⟨h₁, h₂, h₃, h₄⟩ => ⟨h₁, h₂, h₃, h₄⟩, fun ⟨h₁, h₂, h₃, h₄⟩ => ⟨h₁, h₂, h₃, h₄⟩⟩

/-- A location all of whose names are proper. -/
def ProperLocation (l : Location) : Prop :=
  ∀ n ∈ l, ProperName n

instance (l : Location) : Decidable (ProperLocation l) :=
  inferInstanceAs (Decidable (∀ n ∈ l, ProperName n))

/-- A location above a proper one is proper. -/
theorem ProperLocation.of_append_left {l k : Location} (h : ProperLocation (l ++ k)) :
    ProperLocation l :=
  fun n hn => h n (List.mem_append_left k hn)

/-- And so is its last name. -/
theorem ProperLocation.last {l : Location} {n : Name} (h : ProperLocation (l ++ [n])) :
    ProperName n :=
  h n (List.mem_append_right l (List.mem_singleton_self n))

/-- A proper name can be put below a proper location. -/
theorem ProperLocation.concat {l : Location} {n : Name} (hl : ProperLocation l)
    (hn : ProperName n) : ProperLocation (l ++ [n]) := by
  intro m hm
  rcases List.mem_append.mp hm with hm | hm
  · exact hl m hm
  · exact List.mem_singleton.mp hm ▸ hn

/-- A route whose last step is a proper name ends at that name. -/
theorem Route.lastName?_concat {start l : Location} {n : Name} {slashAtEnd : Bool}
    (hn : ProperName n) : (⟨start, l ++ [n], slashAtEnd⟩ : Route).lastName? = some n := by
  simp [lastName?, hn.notStay, hn.notUp]

namespace Path

/-! ## Segments of proper names -/

/-- Names without a slash are separated by the slashes put in front of them. -/
theorem segments_append_flatMap {n : Bytes} {l : List Bytes} (hn : slash ∉ n)
    (hl : ∀ m ∈ l, slash ∉ m) : segments (n ++ l.flatMap (slash :: ·)) = n :: l := by
  -- by induction on the names behind the first one
  induction l generalizing n with
  | nil => simp [segments_of_notMem hn]
  | cons m l ih =>
    rw [List.flatMap_cons, List.cons_append, segments_append_slash, segments_of_notMem hn,
      ih (hl m (List.mem_cons_self ..)) fun x hx => hl x (List.mem_cons_of_mem _ hx)]
    rfl

/-- With a slash in front of each name, the first segment is empty and the names follow. -/
theorem segments_flatMap {l : List Bytes} (hl : ∀ m ∈ l, slash ∉ m) :
    segments (l.flatMap (slash :: ·)) = [] :: l :=
  segments_append_flatMap (n := []) (by simp) hl

/-- A proper name is one part, and ends where its octets do. -/
theorem partsFrom_proper {n : Bytes} (hn : ProperName n) (place : Nat) :
    partsFrom false place [n] = [(.name n, place + n.length)] := by
  have hempty : n.isEmpty = false := by simpa using hn.ne_nil
  have hstay : n ≠ [dot] := by simpa [isStay] using hn.notStay
  have hup : n ≠ [dot, dot] := by simpa [isUp] using hn.notUp
  simp [partsFrom, hempty, hstay, hup]

/-- The last part of some segments is made of the last one that is not empty. -/
theorem getLast?_partsFrom {here : Bool} {place : Nat} {ss : List Bytes} {n : Bytes}
    (h : (ss.filter (!·.isEmpty)).getLast? = some n) (hstay : isStay n = false)
    (hup : isUp n = false) :
    ∃ stop, (partsFrom here place ss).getLast? = some (.name n, stop) := by
  -- the place of a segment depends on those before it, so it changes along the induction
  induction ss generalizing here place with
  | nil => simp at h
  | cons s ss ih =>
    by_cases hrest : ss.filter (!·.isEmpty) = []
    · -- `s` is the last segment that counts
      have hs : s.isEmpty = false := by
        cases hs : s.isEmpty with
        | false => rfl
        | true => simp [hs, hrest] at h
      have hsn : s = n := by simpa [hs, hrest] using h
      subst hsn
      -- only empty segments follow, and they are no parts
      have hnil : partsFrom false (place + s.length + 1) ss = [] := by
        refine Classical.byContradiction fun hne => ?_
        obtain ⟨u, hu, hune⟩ := exists_ne_nil_of_partsFrom hne
        have : u ∈ ss.filter (!·.isEmpty) := List.mem_filter.mpr ⟨hu, by simpa using hune⟩
        rw [hrest] at this
        cases this
      have hstay' : s ≠ [dot] := by simpa [isStay] using hstay
      have hup' : s ≠ [dot, dot] := by simpa [isUp] using hup
      exact ⟨place + s.length, by simp [partsFrom, hs, hstay', hup', hnil]⟩
    · -- the last segment that counts is a later one
      have h' : (ss.filter (!·.isEmpty)).getLast? = some n := by
        rw [List.filter_cons] at h
        split at h
        · rwa [List.getLast?_cons_of_ne_nil hrest] at h
        · exact h
      obtain ⟨stop, hstop⟩ :
          ∃ stop, (partsFrom false (place + s.length + 1) ss).getLast? = some (.name n, stop) :=
        ih h'
      refine ⟨stop, ?_⟩
      rcases partsFrom_cons here place s ss with hs | ⟨_, q, hq⟩
      · rw [hs, hstop]
      · rw [hq, List.getLast?_cons, hstop]
        rfl

/-- A walk along a path ends at a proper name, or at none. -/
theorem proper_of_lastName? {here : Location} {p : Path} {n : Name}
    (h : (Route.ofPath here p).lastName? = some n) :
    p.steps.getLast? = some n ∧ ProperName n := by
  unfold Route.lastName? at h
  cases hlast : (Route.ofPath here p).steps.getLast? with
  | none => simp [hlast] at h
  | some s =>
    rw [hlast] at h
    dsimp only at h
    split at h
    · cases h
    · rename_i hns
      cases h
      rw [Bool.or_eq_true, not_or, Bool.not_eq_true, Bool.not_eq_true] at hns
      -- a step is a segment that is not empty, so only `.` and `..` are to be ruled out
      have hmem : n ∈ p.steps := List.mem_of_getLast? hlast
      exact ⟨hlast, ne_nil_of_mem_steps hmem, slash_notMem_of_mem_steps hmem, hns.1, hns.2⟩

/-- Where a walk along a path ends at a name, that name is the name of its file. -/
theorem fileName?_of_lastName? {here : Location} {p : Path} {n : Name}
    (h : (Route.ofPath here p).lastName? = some n) : p.fileName? = some n := by
  obtain ⟨hlast, hn⟩ := proper_of_lastName? h
  have hparts (here : Bool) : ∃ stop,
      (partsFrom here 0 (segments p.text)).getLast? = some (.name n, stop) :=
    getLast?_partsFrom hlast hn.notStay hn.notUp
  -- a slash in front adds a part, but not the last one
  have hplaced : ∃ stop, p.placedParts.getLast? = some (.name n, stop) := by
    unfold placedParts
    split
    · obtain ⟨stop, hstop⟩ := hparts false
      exact ⟨stop, by rw [List.getLast?_cons, hstop]; rfl⟩
    · exact hparts true
  obtain ⟨stop, hstop⟩ := hplaced
  simp [fileName?, parts, List.getLast?_map, hstop, Part.name?]

/-- The name of the file is among the names in the path. -/
theorem mem_names_of_fileName? {p : Path} {n : Name} (h : p.fileName? = some n) : n ∈ p.names := by
  -- the name of the file is that of the last part, if that is a name
  unfold fileName? at h
  obtain ⟨part, hpart, hname⟩ := Option.bind_eq_some_iff.mp h
  exact List.mem_filterMap.mpr ⟨part, List.mem_of_getLast? hpart, hname⟩

/-- The names in a path are proper. -/
theorem proper_of_mem_partsFrom {here : Bool} {place stop : Nat} {ss : List Bytes} {n : Name}
    (hss : ∀ s ∈ ss, slash ∉ s) (h : (.name n, stop) ∈ partsFrom here place ss) :
    ProperName n := by
  induction ss generalizing here place with
  | nil => simp [partsFrom] at h
  | cons s ss ih =>
    -- empty segments, `.` and `..` give no names
    have later (h : (.name n, stop) ∈ partsFrom false (place + s.length + 1) ss) : ProperName n :=
      ih (fun u hu => hss u (List.mem_cons_of_mem _ hu)) h
    simp only [partsFrom] at h
    split at h
    · exact later h
    split at h
    · split at h
      · exact later ((List.mem_cons.mp h).resolve_left (by simp))
      · exact later h
    split at h
    · exact later ((List.mem_cons.mp h).resolve_left (by simp))
    rcases List.mem_cons.mp h with h | h
    · cases h
      have hs := hss n (List.mem_cons_self ..)
      constructor <;> simp_all [isStay, isUp]
    · exact later h

/-- A path has no name that a folder could not hold. -/
theorem proper_names (p : Path) : ProperLocation p.names := by
  intro n hn
  obtain ⟨part, hpart, hname⟩ := List.mem_filterMap.mp hn
  obtain ⟨⟨q, stop⟩, hq, rfl⟩ := List.mem_map.mp hpart
  cases q with
  | name m =>
    cases hname
    unfold placedParts at hq
    have hss : ∀ s ∈ segments p.text, slash ∉ s := fun s hs => slash_notMem_of_mem_segments hs
    split at hq
    · exact proper_of_mem_partsFrom hss ((List.mem_cons.mp hq).resolve_left (by simp))
    · exact proper_of_mem_partsFrom hss hq
  -- the other parts have no name
  | _ => cases hname

/-! ## A name below a path -/

/-- The text of a name below a path: one slash stands between, whether or not the path ended in
one. -/
theorem child_text {base : Path} {n : Name} (hbase : base.text ≠ []) (hn : slash ∉ n) :
    (∃ front, base.text = front ++ [slash] ∧ (base.child n).text = front ++ slash :: n) ∨
      (base.text.getLast? ≠ some slash ∧ (base.child n).text = base.text ++ slash :: n) := by
  -- without a slash the name is put behind the base
  have habs : (⟨n⟩ : Path).isAbsolute = false := by
    cases n with
    | nil => rfl
    | cons c rest =>
      have : c ≠ slash := fun hc => hn (hc ▸ List.mem_cons_self ..)
      simp [isAbsolute, this]
  have hne : base.isEmpty = false := by simpa [isEmpty] using hbase
  unfold child join
  rw [habs, hne]
  by_cases hlast : base.text.getLast? = some slash
  · obtain ⟨front, hfront⟩ := List.getLast?_eq_some_iff.mp hlast
    exact .inl ⟨front, hfront, by simp [hfront]⟩
  · exact .inr ⟨hlast, by simp [hlast]⟩

/-- A name below a path is one step more. -/
theorem steps_child {base : Path} {n : Name} (hbase : base.text ≠ []) (hn : ProperName n) :
    (base.child n).steps = base.steps ++ [n] := by
  have hne : n.isEmpty = false := by simpa using hn.ne_nil
  -- a slash that was there already only parts off an empty segment, which is no step
  rcases child_text hbase hn.noSlash with ⟨front, hfront, htext⟩ | ⟨_, htext⟩
  · rw [steps, steps, htext, hfront, segments_append_slash, segments_append_slash,
      segments_of_notMem hn.noSlash]
    simp [hne, segments]
  · rw [steps, steps, htext, segments_append_slash, segments_of_notMem hn.noSlash]
    simp [hne]

/-- A path starts where it started when a name is put below it. -/
theorem isAbsolute_child {base : Path} {n : Name} (hbase : base.text ≠ []) (hn : ProperName n) :
    (base.child n).isAbsolute = base.isAbsolute := by
  obtain ⟨c, rest, hc⟩ := List.exists_cons_of_ne_nil hbase
  unfold isAbsolute
  -- either way the text begins with the first octet of the base
  rcases child_text hbase hn.noSlash with ⟨front, hfront, htext⟩ | ⟨-, htext⟩
  · rw [htext, hfront]
    cases front <;> rfl
  · rw [htext, hc]
    rfl

/-- So a walk along the longer path ends at that name. -/
theorem lastName?_ofPath_child {here : Location} {base : Path} {n : Name}
    (hbase : base.text ≠ []) (hn : ProperName n) :
    (Route.ofPath here (base.child n)).lastName? = some n := by
  unfold Route.lastName?
  rw [steps_ofPath, steps_child hbase hn, List.getLast?_concat]
  simp [hn.notStay, hn.notUp]

end Path

namespace Files

/-! ## The path of a location -/

/-- The last name is written behind a slash, also where it is the only one. -/
theorem pathOf_concat (l : Location) (n : Name) :
    pathOf (l ++ [n]) = ⟨l.flatMap (Path.slash :: ·) ++ Path.slash :: n⟩ := by
  simp [pathOf]

/-- The path of a location starts at the top. -/
theorem isAbsolute_pathOf (l : Location) : (pathOf l).isAbsolute = true := by
  cases l with
  | nil => rfl
  | cons n l => simp [pathOf, Path.isAbsolute]

/-- It is not empty, not even for the top itself. -/
theorem text_pathOf_ne_nil (l : Location) : (pathOf l).text ≠ [] := by
  cases l with
  | nil => simp [pathOf]
  | cons n l => simp [pathOf]

/-- **The steps along the path of a location are its names.** -/
theorem steps_pathOf {l : Location} (hl : ProperLocation l) : (pathOf l).steps = l := by
  cases l with
  | nil => rfl
  | cons n l =>
    have hsegs := Path.segments_flatMap fun m hm => (hl m hm).noSlash
    have hne : ∀ m ∈ n :: l, (!m.isEmpty) = true := fun m hm => by simpa using (hl m hm).ne_nil
    show ((Path.segments ((n :: l).flatMap (Path.slash :: ·))).filter (!·.isEmpty)) = n :: l
    -- the slash in front leaves an empty segment, and no name is empty
    rw [hsegs, List.filter_cons_of_neg (by simp), List.filter_eq_self.mpr hne]

/-- The path of a location below the top does not end in a slash. -/
theorem getLast?_pathOf_concat {l : Location} {n : Name} (hn : ProperName n) :
    (pathOf (l ++ [n])).text.getLast? ≠ some Path.slash := by
  rw [pathOf_concat, List.getLast?_append, List.getLast?_cons]
  -- the text ends as the last name does, and there is no slash in that
  cases hlast : n.getLast? with
  | none => exact absurd (List.getLast?_eq_none_iff.mp hlast) hn.ne_nil
  | some c =>
    intro h
    have hc : c = Path.slash := by simpa using h
    exact hn.noSlash (hc ▸ List.mem_of_getLast? hlast)

/-- The path of a location leads from the top along its names. -/
theorem ofPath_pathOf_concat {l : Location} {n : Name} (hl : ProperLocation (l ++ [n]))
    (here : Location) :
    Route.ofPath here (pathOf (l ++ [n])) = ⟨[], l ++ [n], false⟩ := by
  have hsteps := steps_pathOf hl
  unfold Route.ofPath
  rw [isAbsolute_pathOf, if_pos rfl, decide_eq_false (getLast?_pathOf_concat hl.last)]
  exact congrArg (Route.mk [] · false) hsteps

/-- The top is written as a slash; its route asks for a folder and takes no step. -/
theorem ofPath_pathOf_nil (here : Location) : Route.ofPath here (pathOf []) = ⟨[], [], true⟩ :=
  rfl

/-- The parts of the path of a location: the top, and then its names. -/
theorem placedParts_pathOf {l : Location} (hl : ProperLocation l) :
    (pathOf l).placedParts = (.top, 1) :: Path.partsFrom false 1 l := by
  unfold Path.placedParts
  rw [isAbsolute_pathOf, if_pos rfl]
  cases l with
  | nil => rfl
  | cons n l =>
    have hsegs := Path.segments_flatMap fun m hm => (hl m hm).noSlash
    show (_ :: Path.partsFrom false 0 (Path.segments ((n :: l).flatMap (Path.slash :: ·)))) = _
    rw [hsegs]
    rfl

/-- A name more is a part more, which ends where the longer text does. -/
theorem placedParts_pathOf_concat {l : Location} {n : Name} (hl : ProperLocation (l ++ [n])) :
    (pathOf (l ++ [n])).placedParts =
      (pathOf l).placedParts ++ [(.name n, 1 + Path.span l + n.length)] := by
  rw [placedParts_pathOf hl, placedParts_pathOf hl.of_append_left, Path.partsFrom_append,
    Bool.false_and, Path.partsFrom_proper hl.last]
  rfl

/-- How many octets the names take up with a slash in front of each. -/
theorem length_flatMap_slash (l : Location) :
    (l.flatMap (Path.slash :: ·)).length = Path.span l := by
  induction l with
  | nil => rfl
  | cons n l ih =>
    rw [List.flatMap_cons, List.length_append, ih, List.length_cons]
    rfl

/-- The last part of the path of a location ends where its text does. -/
theorem getLast?_placedParts_pathOf {l : Location} (hl : ProperLocation l) :
    ∃ front x, (pathOf l).placedParts = front ++ [(x, (pathOf l).text.length)] := by
  rcases List.eq_nil_or_concat l with rfl | ⟨k, n, rfl⟩
  · exact ⟨[], .top, rfl⟩
  · rw [List.concat_eq_append] at hl ⊢
    refine ⟨(pathOf k).placedParts, .name n, ?_⟩
    rw [placedParts_pathOf_concat hl, pathOf_concat, List.length_append, length_flatMap_slash,
      List.length_cons, show 1 + Path.span k + n.length = Path.span k + (n.length + 1) by omega]

/-- **The folder of a location's path** is the path of the location above. -/
theorem folder_pathOf_concat {l : Location} {n : Name} (hl : ProperLocation (l ++ [n])) :
    (pathOf (l ++ [n])).folder = pathOf l := by
  obtain ⟨front, x, hfront⟩ := getLast?_placedParts_pathOf hl.of_append_left
  -- cut off after the last part above, the text is that of the location above
  have htake : (pathOf (l ++ [n])).text.take (pathOf l).text.length = (pathOf l).text := by
    cases l with
    | nil => rfl
    | cons m l =>
      rw [pathOf_concat]
      exact List.take_left
  have hparent : (pathOf (l ++ [n])).parent? = some (pathOf l) := by
    unfold Path.parent?
    rw [placedParts_pathOf_concat hl, hfront]
    simp [htake]
  have hne : (pathOf l).isEmpty = false := by simpa [Path.isEmpty] using text_pathOf_ne_nil l
  simp [Path.folder, hparent, hne]

/-- And the name of its file is its last name. -/
theorem fileName?_pathOf_concat {l : Location} {n : Name} (hl : ProperLocation (l ++ [n])) :
    (pathOf (l ++ [n])).fileName? = some n := by
  simp [Path.fileName?, Path.parts, placedParts_pathOf_concat hl, Path.Part.name?]

/-- A name put below the path of a location gives the path of the location with that name. -/
theorem child_pathOf {l : Location} {n : Name} (hl : ProperLocation l) (hn : Path.slash ∉ n) :
    (pathOf l).child n = pathOf (l ++ [n]) := by
  have hpath : ∀ p q : Path, p.text = q.text → p = q := fun ⟨_⟩ ⟨_⟩ h => congrArg Path.mk h
  refine hpath _ _ ?_
  -- only the path of the top ends in a slash, so only there none is added
  rcases List.eq_nil_or_concat l with rfl | ⟨k, m, rfl⟩
  · rcases Path.child_text (text_pathOf_ne_nil []) hn with ⟨front, hfront, htext⟩ | ⟨hlast, _⟩
    · have : front = [] := by simpa [pathOf] using hfront
      rw [htext, this]
      simp [pathOf]
    · exact absurd rfl hlast
  · rw [List.concat_eq_append] at hl ⊢
    rcases Path.child_text (text_pathOf_ne_nil (k ++ [m])) hn with ⟨front, hfront, _⟩ | ⟨_, htext⟩
    · exact absurd (by simp [hfront]) (getLast?_pathOf_concat (l := k) hl.last)
    · rw [htext, pathOf_concat (k ++ [m])]
      simp [pathOf]

end Files

end Courier
