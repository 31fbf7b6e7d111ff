import Courier.Files.Basic

/-!
# The text of a path and its steps

A path is kept as it was written. This module ties its text to what the text means: to the
steps that a walk takes along it, and to the paths above it.

Main results:

* `Path.segments_append_slash`, `Path.joined_segments` — a slash is where a text is cut, and
  nothing is lost by cutting.
* `Path.steps_of_mem_lineage` — a path above another one has a beginning of its steps.
* `Path.steps_of_mem_folder_lineage` — a path above the folder of another one, but not all of them.
* `Path.up_mem_parts` — a step upwards is seen in the parts of a path.
-/

namespace Courier

namespace Path

/-! ## Cutting at slashes -/

/-- There is always a segment, if only an empty one. -/
theorem segments_ne_nil (text : Bytes) : segments text ≠ [] := by
  cases text with
  | nil => simp [segments]
  | cons c rest =>
    rw [segments]
    split
    · simp
    · split <;> simp

/-- An octet that is no slash belongs to the first segment. -/
theorem segments_cons_of_ne {c : UInt8} (h : c ≠ slash) {rest s : Bytes} {ss : List Bytes}
    (hrest : segments rest = s :: ss) : segments (c :: rest) = (c :: s) :: ss := by
  rw [segments, if_neg h, hrest]

/-- **A slash is where a text is cut**, wherever it stands. -/
theorem segments_append_slash (a b : Bytes) :
    segments (a ++ slash :: b) = segments a ++ segments b := by
  -- by induction on the text in front of the slash
  induction a with
  | nil => simp [segments]
  | cons c rest ih =>
    by_cases hc : c = slash
    · simp [segments, hc, ih]
    · obtain ⟨s, ss, hs⟩ := List.exists_cons_of_ne_nil (segments_ne_nil rest)
      -- the first segment of `rest` takes `c` in front, and with it that of the whole
      rw [hs] at ih
      rw [List.cons_append, segments_cons_of_ne hc ih, segments_cons_of_ne hc hs]
      rfl

/-- A text without a slash is one segment. -/
theorem segments_of_notMem {n : Bytes} (h : slash ∉ n) : segments n = [n] := by
  induction n with
  | nil => rfl
  | cons c rest ih =>
    rw [List.mem_cons, not_or] at h
    exact segments_cons_of_ne (Ne.symm h.1) (ih h.2)

/-- No segment has a slash in it. -/
theorem slash_notMem_of_mem_segments {text s : Bytes} (h : s ∈ segments text) : slash ∉ s := by
  induction text generalizing s with
  | nil =>
    rw [segments, List.mem_singleton] at h
    simp [h]
  | cons c rest ih =>
    by_cases hc : c = slash
    · rw [segments, if_pos hc, List.mem_cons] at h
      rcases h with rfl | h
      · simp
      · exact ih h
    · obtain ⟨u, us, hu⟩ := List.exists_cons_of_ne_nil (segments_ne_nil rest)
      rw [segments_cons_of_ne hc hu, List.mem_cons] at h
      rcases h with rfl | h
      · -- `c` in front of the first segment of `rest`
        have := ih (hu ▸ List.mem_cons_self ..)
        simp [Ne.symm hc, this]
      · exact ih (hu ▸ List.mem_cons_of_mem _ h)

/-- Segments put together again, with a slash between two of them. -/
def joined : List Bytes → Bytes
  | [] => []
  | [s] => s
  | s :: ss => s ++ slash :: joined ss

/-- A segment is put in front of others with a slash between. -/
theorem joined_cons {s : Bytes} {ss : List Bytes} (h : ss ≠ []) :
    joined (s :: ss) = s ++ slash :: joined ss := by
  cases ss with
  | nil => exact absurd rfl h
  | cons => rfl

/-- **Nothing is lost by cutting.** -/
theorem joined_segments (text : Bytes) : joined (segments text) = text := by
  induction text with
  | nil => rfl
  | cons c rest ih =>
    -- a slash begins a new segment, any other octet is put in front of the first one
    by_cases hc : c = slash
    · rw [segments, if_pos hc, joined_cons (segments_ne_nil rest), ih, hc]
      rfl
    · obtain ⟨s, ss, hs⟩ := List.exists_cons_of_ne_nil (segments_ne_nil rest)
      rw [segments_cons_of_ne hc hs]
      rw [hs] at ih
      cases ss with
      | nil => exact congrArg (c :: ·) ih
      | cons u us =>
        rw [joined_cons (by simp)] at ih ⊢
        exact congrArg (c :: ·) ih

/-- Segments without slashes are found again in the text they were put together to. -/
theorem segments_joined {ss : List Bytes} (hne : ss ≠ []) (h : ∀ s ∈ ss, slash ∉ s) :
    segments (joined ss) = ss := by
  -- by induction on the segments; the last one has no slash behind it
  induction ss with
  | nil => exact absurd rfl hne
  | cons s ss ih =>
    have hs : segments s = [s] := segments_of_notMem (h s (List.mem_cons_self ..))
    cases ss with
    | nil => exact hs
    | cons u us =>
      rw [joined_cons (by simp), segments_append_slash, hs,
        ih (by simp) fun x hx => h x (List.mem_cons_of_mem _ hx)]
      rfl

/-! ## The room that segments take -/

/-- How far some segments reach in a text, each with the slash that follows it. -/
def span : List Bytes → Nat
  | [] => 0
  | s :: ss => s.length + 1 + span ss

/-- The text up to the end of some segments. -/
theorem take_joined_append {ss us : List Bytes} (hss : ss ≠ []) (hus : us ≠ []) {stop : Nat}
    (hstop : stop + 1 = span ss) : (joined (ss ++ us)).take stop = joined ss := by
  -- by induction on the segments in front, for any end that fits them
  induction ss generalizing stop with
  | nil => exact absurd rfl hss
  | cons s ss ih =>
    rw [List.cons_append, joined_cons (by simp [hus])]
    cases ss with
    | nil =>
      have : stop = s.length := by
        simp only [span] at hstop
        omega
      simp [this, joined]
    | cons v vs =>
      rw [joined_cons (by simp)]
      simp only [span] at hstop ih
      -- beyond `s` and its slash there is room for the other segments
      obtain ⟨k, rfl⟩ : ∃ k, stop = s.length + (k + 1) := ⟨stop - s.length - 1, by omega⟩
      have hrest := ih (by simp) (by omega : k + 1 = _)
      rw [List.take_length_add_append, List.take_succ_cons, hrest]

/-- The parts of the later segments come behind those of the first ones, at places that are as far
on as these reach. -/
theorem partsFrom_append (here : Bool) (place : Nat) (ss us : List Bytes) :
    partsFrom here place (ss ++ us) =
      partsFrom here place ss ++ partsFrom (here && ss.isEmpty) (place + span ss) us := by
  induction ss generalizing here place with
  | nil => simp [partsFrom, span]
  | cons s ss ih =>
    have hplace : place + s.length + 1 + span ss = place + (s.length + 1 + span ss) := by omega
    simp only [List.cons_append, partsFrom, ih, span, hplace, List.isEmpty_cons,
      Bool.false_and, Bool.and_false]
    -- the segment is empty, a dot, two dots or a name, and gives the same part either way
    split
    · rfl
    split
    · split <;> rfl
    split <;> rfl

/-- A segment adds one part in front of those of the later segments, or none. -/
theorem partsFrom_cons (here : Bool) (place : Nat) (s : Bytes) (ss : List Bytes) :
    partsFrom here place (s :: ss) = partsFrom false (place + s.length + 1) ss ∨
      (s ≠ [] ∧ ∃ q, partsFrom here place (s :: ss) =
        (q, place + s.length) :: partsFrom false (place + s.length + 1) ss) := by
  simp only [partsFrom]
  split
  · exact .inl rfl
  · have hs : s ≠ [] := by simpa using ‹¬s.isEmpty = true›
    split
    · split
      · exact .inr ⟨hs, _, rfl⟩
      · exact .inl rfl
    · split
      · exact .inr ⟨hs, _, rfl⟩
      · exact .inr ⟨hs, _, rfl⟩

/-- Where there is a part there is a segment that is not empty. -/
theorem exists_ne_nil_of_partsFrom {here : Bool} {place : Nat} {ss : List Bytes}
    (h : partsFrom here place ss ≠ []) : ∃ s ∈ ss, s ≠ [] := by
  induction ss generalizing here place with
  | nil => exact absurd rfl h
  | cons s ss ih =>
    rcases partsFrom_cons here place s ss with hs | ⟨hs, _⟩
    · obtain ⟨u, hu, hne⟩ := ih (hs ▸ h)
      exact ⟨u, List.mem_cons_of_mem _ hu, hne⟩
    · exact ⟨s, List.mem_cons_self .., hs⟩

/-- A part that is not the last one ends where some segments end, and there is more after
them. -/
theorem segments_of_mem_dropLast_partsFrom {here : Bool} {place stop : Nat} {ss : List Bytes}
    {x : Part} (h : (x, stop) ∈ (partsFrom here place ss).dropLast) :
    ∃ front back, ss = front ++ back ∧ front ≠ [] ∧ stop + 1 = place + span front ∧
      place < stop ∧ ∃ s ∈ back, s ≠ [] := by
  -- by induction on the segments, which begin further and further on
  induction ss generalizing here place with
  | nil => simp [partsFrom] at h
  | cons s ss ih =>
    -- a part of a later segment: `s` is put in front
    have later (h' : (x, stop) ∈ (partsFrom false (place + s.length + 1) ss).dropLast) :
        ∃ front back, s :: ss = front ++ back ∧ front ≠ [] ∧ stop + 1 = place + span front ∧
          place < stop ∧ ∃ u ∈ back, u ≠ [] := by
      obtain ⟨front, back, rfl, _, hstop, hlt, hback⟩ := ih h'
      exact ⟨s :: front, back, rfl, by simp, by simp only [span]; omega, by omega, hback⟩
    rcases partsFrom_cons here place s ss with hs | ⟨hs, q, hq⟩
    · exact later (hs ▸ h)
    · cases hrest : partsFrom false (place + s.length + 1) ss with
      | nil => simp [hq, hrest] at h
      | cons r rs =>
        rw [hq, hrest, List.dropLast_cons_of_ne_nil (by simp), ← hrest, List.mem_cons] at h
        rcases h with h | h
        · -- the part of `s` itself: the later segments have parts, so one of them is not empty
          obtain ⟨rfl, rfl⟩ := Prod.mk.inj h
          have hlen := List.length_pos_iff.mpr hs
          have hmore := exists_ne_nil_of_partsFrom (hrest ▸ List.cons_ne_nil r rs)
          exact ⟨[s], ss, rfl, by simp, by simp only [span]; omega, by omega, hmore⟩
        · exact later h

/-! ## Steps -/

/-- The steps of a walk along a path, whatever it starts from. -/
def steps (p : Path) : List Bytes :=
  (segments p.text).filter (!·.isEmpty)

/-- The steps of a route along a path do not depend on where it starts. -/
theorem steps_ofPath (here : Location) (p : Path) : (Route.ofPath here p).steps = p.steps :=
  rfl

/-- No step is empty. -/
theorem ne_nil_of_mem_steps {p : Path} {s : Bytes} (h : s ∈ p.steps) : s ≠ [] := by
  have := (List.mem_filter.mp h).2
  simpa using this

/-- And none has a slash in it. -/
theorem slash_notMem_of_mem_steps {p : Path} {s : Bytes} (h : s ∈ p.steps) : slash ∉ s :=
  slash_notMem_of_mem_segments (List.mem_filter.mp h).1

/-- The text before a part that is not the last one is a path of its own. It starts where the
whole path does, and has some of its first steps but not all of them. -/
theorem steps_of_mem_dropLast {p : Path} {x : Part} {stop : Nat}
    (h : (x, stop) ∈ p.placedParts.dropLast) :
    (⟨p.text.take stop⟩ : Path).isAbsolute = p.isAbsolute ∧
      ∃ more, more ≠ [] ∧ p.steps = (⟨p.text.take stop⟩ : Path).steps ++ more := by
  -- a part found among the segments
  have inner (here : Bool) (h : (x, stop) ∈ (partsFrom here 0 (segments p.text)).dropLast) :
      (⟨p.text.take stop⟩ : Path).isAbsolute = p.isAbsolute ∧
        ∃ more, more ≠ [] ∧ p.steps = (⟨p.text.take stop⟩ : Path).steps ++ more := by
    obtain ⟨front, back, hsegs, hfront, hstop, hpos, s, hs, hne⟩ :=
      segments_of_mem_dropLast_partsFrom h
    -- the text before the part is the text of the segments in front
    have htext : p.text = joined (front ++ back) := by rw [← hsegs, joined_segments]
    have htake : p.text.take stop = joined front := by
      rw [htext]
      exact take_joined_append hfront (List.ne_nil_of_mem hs) (by omega)
    have hslash : ∀ u ∈ front, slash ∉ u := fun u hu =>
      slash_notMem_of_mem_segments (hsegs ▸ List.mem_append_left _ hu)
    refine ⟨?_, back.filter (!·.isEmpty), ?_, ?_⟩
    · unfold isAbsolute
      rw [List.head?_take, if_neg (by omega)]
    · exact List.ne_nil_of_mem (List.mem_filter.mpr ⟨hs, by simpa using hne⟩)
    · rw [steps, steps, htake, segments_joined hfront hslash, hsegs, List.filter_append]
  unfold placedParts at h
  split at h
  · rename_i habs
    cases hrest : partsFrom false 0 (segments p.text) with
    | nil => simp [hrest] at h
    | cons r rs =>
      rw [List.dropLast_cons_of_ne_nil (by simp [hrest]), List.mem_cons] at h
      rcases h with h | h
      · -- the slash in front
        obtain ⟨rfl, rfl⟩ := Prod.mk.inj h
        obtain ⟨c, rest, htext⟩ : ∃ c rest, p.text = c :: rest := by
          cases hp : p.text with
          | nil => simp [isAbsolute, hp] at habs
          | cons c rest => exact ⟨c, rest, rfl⟩
        have hc : c = slash := by simpa [isAbsolute, htext] using habs
        obtain ⟨s, hs, hne⟩ := exists_ne_nil_of_partsFrom (hrest ▸ List.cons_ne_nil r rs)
        refine ⟨by simp [isAbsolute, htext], p.steps, ?_, ?_⟩
        · exact List.ne_nil_of_mem (List.mem_filter.mpr ⟨hs, by simpa using hne⟩)
        · simp [steps, htext, hc, segments]
      · exact inner false h
  · exact inner true h

/-- A path above another one has no steps at all, or starts where the other one does and has
some of its first steps. -/
theorem steps_of_mem_lineage {p q : Path} (h : p ∈ q.lineage) :
    p.text = [] ∨ (p.isAbsolute = q.isAbsolute ∧ p.steps <+: q.steps) := by
  simp only [lineage, List.mem_append, List.mem_cons, List.mem_map, List.mem_reverse] at h
  -- the path itself, a text before one of its parts, or the empty text
  rcases h with (rfl | ⟨⟨x, stop⟩, hx, rfl⟩) | h
  · exact .inr ⟨rfl, List.prefix_rfl⟩
  -- a text before one of the parts
  · obtain ⟨habs, more, _, hsteps⟩ := steps_of_mem_dropLast hx
    exact .inr ⟨habs, more, hsteps.symm⟩
  · split at h
    · simp at h
    · rw [List.mem_singleton] at h
      exact .inl (by rw [h])

/-- The folder of a path is written `.`, or it is the path up to a part before its last. -/
theorem folder_eq (p : Path) :
    p.folder = ⟨[dot]⟩ ∨
      ∃ x stop, (x, stop) ∈ p.placedParts.dropLast ∧ p.folder = ⟨p.text.take stop⟩ := by
  unfold folder
  cases hp : p.parent? with
  | none => exact .inl rfl
  | some parent =>
    dsimp only
    split
    · exact .inl rfl
    · rename_i hne
      refine .inr ?_
      unfold parent? at hp
      split at hp
      · cases hp
      · cases hp
      · cases hp
        exact absurd rfl hne
      · -- read from the end, the parts are `last`, the one before it, and others
        rename_i last x stop before _ hrev
        cases hp
        refine ⟨x, stop, ?_, rfl⟩
        have hparts : p.placedParts = before.reverse ++ [(x, stop)] ++ [last] := by
          rw [← List.reverse_reverse p.placedParts, hrev]
          simp
        rw [hparts, List.dropLast_concat]
        simp

/-! ## Steps upwards -/

/-- Two dots are a part wherever they stand, while one dot may be none. -/
theorem up_mem_partsFrom (here : Bool) (place : Nat) {ss : List Bytes} (h : [dot, dot] ∈ ss) :
    ∃ stop, (.up, stop) ∈ partsFrom here place ss := by
  -- by induction on the segments up to the one that is two dots
  induction ss generalizing here place with
  | nil => cases h
  | cons s ss ih =>
    rcases List.mem_cons.mp h with rfl | h
    · exact ⟨place + 2, by simp [partsFrom, dot]⟩
    · obtain ⟨stop, hstop⟩ := ih false (place + s.length + 1) h
      -- the part found later is still there behind that of `s`
      rcases partsFrom_cons here place s ss with hs | ⟨_, q, hq⟩
      · exact ⟨stop, hs ▸ hstop⟩
      · exact ⟨stop, hq ▸ List.mem_cons_of_mem _ hstop⟩

/-- A step upwards is a part of the path. -/
theorem up_mem_parts {p : Path} {step : Bytes} (hstep : step ∈ p.steps) (hup : isUp step = true) :
    .up ∈ p.parts := by
  have hdots : step = [dot, dot] := by simpa [isUp] using hup
  have hmem : [dot, dot] ∈ segments p.text := hdots ▸ (List.mem_filter.mp hstep).1
  unfold parts placedParts
  split
  · obtain ⟨stop, hstop⟩ := up_mem_partsFrom false 0 hmem
    exact List.mem_map.mpr ⟨_, List.mem_cons_of_mem _ hstop, rfl⟩
  · obtain ⟨stop, hstop⟩ := up_mem_partsFrom true 0 hmem
    exact List.mem_map.mpr ⟨_, hstop, rfl⟩

/-- A path above the folder of `p` that ends in a name starts where `p` does, and `p` goes on
after it. -/
theorem steps_of_mem_folder_lineage {p q : Path} {n : Name} (hq : q ∈ p.folder.lineage)
    (hlast : q.steps.getLast? = some n) (hn : isStay n = false) :
    q.isAbsolute = p.isAbsolute ∧ ∃ more, more ≠ [] ∧ p.steps = q.steps ++ more := by
  have hne : q.steps ≠ [] := fun h => by rw [h] at hlast; cases hlast
  rcases steps_of_mem_lineage hq with hnil | ⟨habs, k, hk⟩
  · exact absurd (by simp [steps, hnil, segments]) hne
  · rcases folder_eq p with hdot | ⟨x, stop, hmem, htake⟩
    · -- the path `.` has no name in it
      have hsteps : p.folder.steps = [[dot]] := by rw [hdot]; decide
      rw [hsteps] at hk
      have hlast' : n = [dot] := by
        have hmem : n ∈ q.steps := List.mem_of_getLast? hlast
        exact List.mem_singleton.mp (hk ▸ List.mem_append_left k hmem)
      rw [hlast'] at hn
      cases hn
    · obtain ⟨habs', more, hmore, hsteps⟩ := steps_of_mem_dropLast hmem
      -- the folder has a beginning of the steps of `p`, and `q` has one of those
      rw [htake] at habs hk
      refine ⟨habs.trans habs', k ++ more, by simp [hmore], ?_⟩
      rw [hsteps, ← hk, List.append_assoc]

/-! ## Seen from another path -/

/-- Seen from a path that is not empty, no path is. -/
theorem join_text_ne_nil {base p : Path} (hbase : base.text ≠ []) : (base.join p).text ≠ [] := by
  unfold join
  split
  · rename_i habs
    intro hnil
    rw [isAbsolute, hnil] at habs
    cases habs
  · split
    · simp [hbase]
    · simp

/-- A path that starts at the top is the same from everywhere. -/
theorem join_of_isAbsolute {base p : Path} (h : p.isAbsolute = true) : base.join p = p := by
  unfold join
  rw [if_pos h]

end Path

end Courier
