import Courier.Proofs.Location

/-!
# The path above

The text of a path up to the end of one of its parts is a path with the parts up to there. So the
path above another one has its parts without the last; and a name put below a path can be taken off
again, which leaves the path, perhaps in another spelling.

Main results:

* `Path.placedParts_take` — the parts of a text that is cut behind a part.
* `Path.parent?_child`, `Path.fileName?_child` — a path with a name put below it.
* `Path.counting_of_mem_folder_lineage` — what a walk to a path takes behind a folder above it.
-/

namespace Courier.Path

/-! ## Cutting behind a part -/

/-- The length of segments that are joined by slashes. -/
theorem length_joined {ss : List Bytes} (h : ss ≠ []) : (joined ss).length + 1 = span ss := by
  -- all segments but the last have a slash after them
  induction ss with
  | nil => exact absurd rfl h
  | cons s ss ih =>
    cases ss with
    | nil => simp [joined, span]
    | cons u us =>
      rw [joined_cons (by simp), List.length_append, List.length_cons, ih (by simp)]
      simp only [span]
      omega

/-- A segment has one part, which ends where it does, or none. -/
theorem partsFrom_singleton (here : Bool) (place : Nat) (s : Bytes) :
    partsFrom here place [s] = [] ∨ ∃ q, partsFrom here place [s] = [(q, place + s.length)] := by
  rcases partsFrom_cons here place s [] with h | ⟨-, q, h⟩
  · exact .inl h
  · exact .inr ⟨q, h⟩

/-- The parts of some segments, cut behind one of them, are the parts of two runs of segments. -/
theorem partsFrom_split {here : Bool} {place stop : Nat} {ss : List Bytes} {x : Part}
    {front back : List (Part × Nat)} (h : partsFrom here place ss = front ++ (x, stop) :: back) :
    ∃ us vs, ss = us ++ vs ∧ us ≠ [] ∧ stop + 1 = place + span us ∧
      partsFrom here place us = front ++ [(x, stop)] ∧
      partsFrom false (place + span us) vs = back := by
  induction ss generalizing here place front with
  | nil => simp [partsFrom] at h
  | cons s ss ih =>
    have hcons (us : List Bytes) : partsFrom here place (s :: us) =
        partsFrom here place [s] ++ partsFrom false (place + (s.length + 1)) us := by
      rw [← List.singleton_append, partsFrom_append]
      simp [span]
    have hspan (us : List Bytes) :
        place + span (s :: us) = place + (s.length + 1) + span us := by
      simp only [span]
      omega
    -- the part belongs to a later segment: `s` is put in front
    have later {front' : List (Part × Nat)} (hfront : front = partsFrom here place [s] ++ front')
        (h' : partsFrom false (place + (s.length + 1)) ss = front' ++ (x, stop) :: back) :
        ∃ us vs, s :: ss = us ++ vs ∧ us ≠ [] ∧ stop + 1 = place + span us ∧
          partsFrom here place us = front ++ [(x, stop)] ∧
          partsFrom false (place + span us) vs = back := by
      obtain ⟨us, vs, rfl, -, hstop, hus, hvs⟩ := ih h'
      refine ⟨s :: us, vs, rfl, by simp, by rw [hspan, hstop], ?_, by rw [hspan, hvs]⟩
      rw [hcons, hus, hfront, List.append_assoc]
    rw [hcons] at h
    rcases partsFrom_singleton here place s with hs | ⟨q, hs⟩
    · exact later (by rw [hs]; rfl) (by rwa [hs] at h)
    · rw [hs] at h
      cases front with
      | nil =>
        -- it is the part of `s` itself
        obtain ⟨hx, hback⟩ := List.cons.inj h
        cases hx
        refine ⟨[s], ss, rfl, by simp, by simp only [span]; omega, hs, ?_⟩
        rw [← hback, hspan]
        rfl
      | cons y front =>
        obtain ⟨rfl, hrest⟩ := List.cons.inj h
        exact later (by rw [hs]; rfl) hrest

/-- The text up to the end of some segments. -/
theorem take_of_segments {text : Bytes} {us vs : List Bytes} (h : segments text = us ++ vs)
    (hus : us ≠ []) {stop : Nat} (hstop : stop + 1 = span us) : text.take stop = joined us := by
  have htext : text = joined (us ++ vs) := by rw [← h, joined_segments]
  by_cases hvs : vs = []
  · have hlength := length_joined hus
    rw [htext, hvs, List.append_nil, List.take_of_length_le (by omega)]
  · rw [htext]
    exact take_joined_append hus hvs hstop

/-- A text that is cut off after some segments has these. -/
theorem segments_take {text : Bytes} {us vs : List Bytes} (h : segments text = us ++ vs)
    (hus : us ≠ []) {stop : Nat} (hstop : stop + 1 = span us) : segments (text.take stop) = us := by
  rw [take_of_segments h hus hstop]
  exact segments_joined hus fun s hs =>
    slash_notMem_of_mem_segments (h ▸ List.mem_append_left vs hs)

/-- **The text up to a part has the parts up to it.** -/
theorem placedParts_take {p : Path} {x : Part} {stop : Nat} {front back : List (Part × Nat)}
    (h : p.placedParts = front ++ (x, stop) :: back) :
    (⟨p.text.take stop⟩ : Path).placedParts = front ++ [(x, stop)] := by
  -- a part found among the segments, which have at least one octet or slash
  have inner {here : Bool} {front : List (Part × Nat)}
      (h : partsFrom here 0 (segments p.text) = front ++ (x, stop) :: back) :
      partsFrom here 0 (segments (p.text.take stop)) = front ++ [(x, stop)] := by
    obtain ⟨us, vs, hsegs, hus, hstop, hparts, -⟩ := partsFrom_split h
    rw [segments_take hsegs hus (by omega), hparts]
  have hpos {here : Bool} {front : List (Part × Nat)}
      (h : partsFrom here 0 (segments p.text) = front ++ (x, stop) :: back) : stop ≠ 0 := by
    rintro rfl
    have hnil := inner h
    rw [List.take_zero, segments] at hnil
    simp [partsFrom] at hnil
  have habs (hne : stop ≠ 0) : (⟨p.text.take stop⟩ : Path).isAbsolute = p.isAbsolute := by
    unfold isAbsolute
    rw [List.head?_take, if_neg hne]
  unfold placedParts at h
  split at h
  · rename_i hp
    cases front with
    | nil =>
      -- the slash in front
      obtain ⟨hx, -⟩ := List.cons.inj h
      cases hx
      obtain ⟨c, rest, htext⟩ : ∃ c rest, p.text = c :: rest := by
        cases htext : p.text with
        | nil => simp [isAbsolute, htext] at hp
        | cons c rest => exact ⟨c, rest, rfl⟩
      have hc : c = slash := by simpa [isAbsolute, htext] using hp
      rw [htext, hc]
      rfl
    | cons y front =>
      obtain ⟨rfl, hrest⟩ := List.cons.inj h
      rw [placedParts, habs (hpos hrest), if_pos hp, inner hrest]
      rfl
  · rename_i hp
    rw [placedParts, habs (hpos h), if_neg hp, inner h]

/-! ## A name put below a path -/

/-- A path that is not empty has a part. -/
theorem placedParts_ne_nil {p : Path} (h : p.text ≠ []) : p.placedParts ≠ [] := by
  unfold placedParts
  split
  · simp
  · rename_i habs
    obtain ⟨c, rest, htext⟩ := List.exists_cons_of_ne_nil h
    have hc : c ≠ slash := by simpa [isAbsolute, htext] using habs
    obtain ⟨s, ss, hs⟩ := List.exists_cons_of_ne_nil (segments_ne_nil rest)
    -- the first segment is not empty, so it is a part of some kind
    rw [htext, segments_cons_of_ne hc hs]
    simp only [partsFrom, List.isEmpty_cons, Bool.false_eq_true, if_false, if_true]
    split
    · simp
    · split <;> simp

/-- A name put below a path is one more part. -/
theorem placedParts_child {base : Path} {n : Name} (hbase : base.text ≠ []) (hn : ProperName n) :
    ∃ stop, (base.child n).placedParts = base.placedParts ++ [(.name n, stop)] := by
  have hsegs : ∃ us, segments (base.child n).text = us ++ [n] ∧ us ≠ [] ∧
      ∀ here, partsFrom here 0 us = partsFrom here 0 (segments base.text) := by
    rcases child_text hbase hn.noSlash with ⟨front, hfront, htext⟩ | ⟨-, htext⟩
    · refine ⟨segments front, ?_, segments_ne_nil front, fun here => ?_⟩
      · rw [htext, segments_append_slash, segments_of_notMem hn.noSlash]
      · -- the slash at the end of the base stands in front of an empty segment
        rw [hfront, segments_append_slash, partsFrom_append]
        simp [segments, partsFrom]
    · refine ⟨segments base.text, ?_, segments_ne_nil _, fun _ => rfl⟩
      rw [htext, segments_append_slash, segments_of_notMem hn.noSlash]
  obtain ⟨us, hus, hne, hsame⟩ := hsegs
  have hparts (here : Bool) : partsFrom here 0 (segments (base.child n).text) =
      partsFrom here 0 (segments base.text) ++ [(.name n, span us + n.length)] := by
    have hlast : (here && us.isEmpty) = false := by simp [hne]
    rw [hus, partsFrom_append, hsame, hlast, partsFrom_proper hn, Nat.zero_add]
  refine ⟨span us + n.length, ?_⟩
  unfold placedParts
  rw [isAbsolute_child hbase hn]
  split
  · rw [hparts, List.cons_append]
  · rw [hparts]

/-- The file name of a path below another one is the name that was added. -/
theorem fileName?_child {base : Path} {n : Name} (hbase : base.text ≠ []) (hn : ProperName n) :
    (base.child n).fileName? = some n := by
  obtain ⟨stop, h⟩ := placedParts_child hbase hn
  simp [fileName?, parts, h, Part.name?]

/-- The path above a name that was put below a path is that path. -/
theorem parent?_child {base : Path} {n : Name} (hbase : base.text ≠ []) (hn : ProperName n) :
    ∃ parent, (base.child n).parent? = some parent ∧ parent.Same base := by
  obtain ⟨stop, h⟩ := placedParts_child hbase hn
  obtain ⟨front, ⟨x, last⟩, hfront⟩ : ∃ front y, base.placedParts = front ++ [y] :=
    ⟨_, _, (List.dropLast_concat_getLast (placedParts_ne_nil hbase)).symm⟩
  rw [hfront, List.append_assoc, List.singleton_append] at h
  refine ⟨⟨(base.child n).text.take last⟩, ?_, ?_⟩
  · simp [parent?, h]
  · rw [Same, parts, placedParts_take h, parts, hfront]

/-! ## Steps behind a part -/

/-- Where there are parts among segments, a step counts. -/
theorem exists_step_of_partsFrom {place : Nat} {ss : List Bytes}
    (h : partsFrom false place ss ≠ []) :
    ∃ s ∈ ss, s ≠ [] ∧ isStay s = false := by
  -- only a segment that is neither empty nor `.` makes a part
  induction ss generalizing place with
  | nil => exact absurd rfl h
  | cons s ss ih =>
    have later (h : partsFrom false (place + s.length + 1) ss ≠ []) :
        ∃ u ∈ s :: ss, u ≠ [] ∧ isStay u = false := by
      obtain ⟨u, hu, hstep⟩ := ih h
      exact ⟨u, List.mem_cons_of_mem s hu, hstep⟩
    simp only [partsFrom, Bool.false_eq_true, if_false] at h
    split at h
    · exact later h
    split at h
    · exact later h
    · rename_i hne hstay
      exact ⟨s, List.mem_cons_self .., by simpa using hne, by simpa [isStay] using hstay⟩

/-- Behind a part that is not the last one there is a step that is taken. -/
theorem steps_of_part {p : Path} {x : Part} {stop : Nat}
    (h : (x, stop) ∈ p.placedParts.dropLast) :
    ∃ more, p.steps = (⟨p.text.take stop⟩ : Path).steps ++ more ∧
      ∃ s ∈ more, isStay s = false := by
  obtain ⟨front, rest, hfront⟩ := List.append_of_mem h
  have hne : p.placedParts ≠ [] := fun hnil => by simp [hnil] at h
  -- at least the last part follows
  obtain ⟨back, hback, hparts⟩ : ∃ back, back ≠ [] ∧
      p.placedParts = front ++ (x, stop) :: back := by
    refine ⟨rest ++ [p.placedParts.getLast hne], by simp, ?_⟩
    rw [← List.cons_append, ← List.append_assoc, ← hfront, List.dropLast_concat_getLast hne]
  -- parts found among the segments
  have inner {here : Bool} {front : List (Part × Nat)}
      (h : partsFrom here 0 (segments p.text) = front ++ (x, stop) :: back) :
      ∃ more, p.steps = (⟨p.text.take stop⟩ : Path).steps ++ more ∧
        ∃ s ∈ more, isStay s = false := by
    obtain ⟨us, vs, hsegs, hus, hstop, -, hvs⟩ := partsFrom_split h
    obtain ⟨s, hs, hsne, hstay⟩ := exists_step_of_partsFrom (hvs ▸ hback)
    refine ⟨vs.filter (!·.isEmpty), ?_, s, List.mem_filter.mpr ⟨hs, by simpa using hsne⟩, hstay⟩
    rw [steps, steps, segments_take hsegs hus (by omega), hsegs, List.filter_append]
  unfold placedParts at hparts
  split at hparts
  · cases front with
    | nil =>
      obtain ⟨hx, hrest⟩ := List.cons.inj hparts
      cases hx
      rename_i habs
      -- behind the slash in front all steps are taken
      obtain ⟨c, rest, htext⟩ : ∃ c rest, p.text = c :: rest := by
        cases htext : p.text with
        | nil => simp [isAbsolute, htext] at habs
        | cons c rest => exact ⟨c, rest, rfl⟩
      have hc : c = slash := by simpa [isAbsolute, htext] using habs
      obtain ⟨s, hs, hsne, hstay⟩ := exists_step_of_partsFrom (hrest ▸ hback)
      refine ⟨p.steps, ?_, s, List.mem_filter.mpr ⟨hs, by simpa using hsne⟩, hstay⟩
      simp [steps, htext, hc, segments]
    | cons y front =>
      exact inner (List.cons.inj hparts).2
  · exact inner hparts

/-- Behind a path above the folder of another one, that one takes a step, unless `.` is the last
step of the path. -/
theorem counting_of_mem_folder_lineage {p q : Path} {n : Name} (hq : q ∈ p.folder.lineage)
    (hlast : q.steps.getLast? = some n) (hn : isStay n = false) :
    ∃ more, p.steps = q.steps ++ more ∧ ∃ s ∈ more, isStay s = false := by
  rcases steps_of_mem_lineage hq with hnil | ⟨-, k, hk⟩
  · rw [steps, hnil] at hlast
    cases hlast
  rcases folder_eq p with hdot | ⟨x, stop, hmem, htake⟩
  · -- all steps of the path `.` stay
    have hmem : n ∈ p.folder.steps := hk ▸ List.mem_append_left k (List.mem_of_getLast? hlast)
    have hsteps : p.folder.steps = [[dot]] := by rw [hdot]; decide
    rw [hsteps, List.mem_singleton] at hmem
    rw [hmem] at hn
    cases hn
  · obtain ⟨more, hsteps, s, hs, hstay⟩ := steps_of_part hmem
    rw [htake] at hk
    exact ⟨k ++ more, by rw [hsteps, ← hk, List.append_assoc], s,
      List.mem_append_right _ hs, hstay⟩

end Courier.Path
