import Courier.Proofs.Turns

/-!
# The receive that renames

A staged file takes the place of the destination. The other receives still find theirs, as a link
that is replaced was not on their way. So what holds of receives into one destination is kept by
all of their steps.

Main results:

* `Transfer.Kept.slot_promoted` — the paths of the others lead where they led.
* `Transfer.Kept.promote` — the step that renames keeps what holds.
* `Transfer.kept_of_reachable` — it holds of all that a crowd comes to.
-/

namespace Courier.Transfer

open Files Receiver

variable {dest : Path} {receives : List (Settings × Inbound)} {first fs' : Files} {c : Crowd}
  {content : Bytes} {phase : Phase} {staged : Staged}

namespace Kept

variable {i : Nat} {r r' : Receiver}

/-! ## The paths of the others -/

/-- A link at the destination is not on the way of any receive. -/
theorem slot_of_link {place : Location} {target p : Path} {k : Location} {m : Name}
    (haside : Aside dest first) (h : Kept dest receives first c)
    (hr : c.receivers[i]? = some r) (hstaged : r.phase.staged? = some staged)
    (hplace : c.files.slotOf dest .busy = .ok place)
    (hentry : c.files.tree.get? place = some (.link target))
    (hway : Way dest first.here p) (hslot : c.files.Slot p k m) :
    (c.files.without place).Slot p k m := by
  -- no receive leaves a link, so it was there at first, and nothing has replaced it
  have hnone : c.promoted = [] := by
    cases hpromoted : c.promoted with
    | nil => rfl
    | cons i rest =>
      obtain ⟨place', serial, hplace', hfile⟩ := h.newest i rest hpromoted
      obtain rfl := Except.ok.inj (hplace'.symm.trans hplace)
      rw [hfile] at hentry
      cases hentry
  have hfirst : first.tree.get? place = some (.link target) := by
    cases h.origin place with
    | old hsame => rw [← hsame, hentry]
    | made _ hfolder => rw [hfolder] at hentry; cases hentry
    | staged hq hstaged heq =>
      obtain ⟨content, hheld, -⟩ := (h.sound _ _ hq).held hstaged
      exact absurd heq (hheld.slotOf_ne hplace)
    | promoted hsome => exact absurd hnone hsome
  cases h.ground hnone with
  | bare hall =>
    exact absurd (hall r (List.mem_of_getElem? hr)) (Turn.not_isBare_of_staged hstaged)
  | @ready ready hready honly =>
    -- the slots are those that were there when the folder got ready
    have hhere : c.files.here = ready.here := by
      obtain ⟨_, hmade⟩ := hready.furnished
      exact h.here.trans hmade.evolves.here.symm
    obtain ⟨folder, name, hdest, rfl⟩ := slot_of_slotOf hplace
    have hspared := haside ready hready folder name target (hdest.anti hhere honly) hfirst p k m
      hway (hslot.anti hhere honly)
    exact hspared.mono hhere (honly.shown.remove _)

/-- **When a staged file takes its place**, the other receives still find theirs. -/
theorem slot_promoted {place : Location} {data : Bytes} {p : Path} {k : Location} {m : Name}
    (haside : Aside dest first) (h : Kept dest receives first c)
    (hr : c.receivers[i]? = some r) (hstaged : r.phase.staged? = some staged)
    (hheld : Held dest first c.files staged data)
    (hplace : c.files.slotOf dest .busy = .ok place)
    (hfree : ∀ mode, c.files.tree.get? place ≠ some (.folder mode))
    (hway : Way dest first.here p) (hslot : c.files.Slot p k m) :
    (c.files.commit (.move staged.handle.location place)).Slot p k m := by
  refine slot_of_moved (hheld.slotOf_ne hplace) hheld.get? ?_
  cases hentry : c.files.tree.get? place with
  | none =>
    refine hslot.without_file fun s hs => ?_
    rw [Tree.shape_eq_none.mpr hentry] at hs
    cases hs
  | some e =>
    cases e with
    | folder mode => exact absurd hentry (hfree mode)
    | file mode serial content =>
      refine hslot.without_file fun s hs => ?_
      rw [Tree.shape_of_get? hentry] at hs
      exact (Option.some.inj hs).symm
    | link target => exact h.slot_of_link haside hr hstaged hplace hentry hway hslot

end Kept

/-- One receive is about to give its staged file the name of the destination. -/
structure Taking (dest : Path) (receives : List (Settings × Inbound)) (first : Files) (c : Crowd)
    (i : Nat) (r : Receiver) (staged : Staged) (place : Location) : Prop where
  kept : Kept dest receives first c
  here : c.receivers[i]? = some r
  own : r.phase.staged? = some staged
  held : Held dest first c.files staged (dataOf receives i)
  reached : c.files.slotOf dest .busy = .ok place
  free : ∀ mode, c.files.tree.get? place ≠ some (.folder mode)

/-- The files when a staged file has the name of the destination. -/
def Crowd.renamed (c : Crowd) (staged : Staged) (place : Location) : Files :=
  c.files.commit (.move staged.handle.location place)

namespace Taking

variable {i : Nat} {r : Receiver} {place : Location} {report : Report}

section

variable (ht : Taking dest receives first c i r staged place)

include ht

/-- The data is at the destination. -/
theorem there : (c.renamed staged place).tree.get? place =
    some (.file 0o644 staged.handle.serial (dataOf receives i)) :=
  Change.get?_move_target ht.held.get?

/-- Nothing is left where it was staged. -/
theorem gone : (c.renamed staged place).tree.get? staged.handle.location = none :=
  Change.get?_move_source ht.held.get? (ht.held.slotOf_ne ht.reached).symm

omit ht in
/-- All else is as it was. -/
theorem others {l : Location} (hl : l ≠ staged.handle.location) (hl' : l ≠ place) :
    (c.renamed staged place).tree.get? l = c.files.tree.get? l :=
  Change.get?_apply_of_notMem _ (by simp [Change.touched, hl, hl'])

/-- The paths of all the receives lead where they led. -/
theorem slots (haside : Aside dest first) {p : Path} {k : Location} {m : Name}
    (hway : Way dest first.here p) (hslot : c.files.Slot p k m) :
    (c.renamed staged place).Slot p k m :=
  ht.kept.slot_promoted haside ht.here ht.own ht.held ht.reached ht.free hway hslot

/-- The destination is where it was. -/
theorem slotOf (haside : Aside dest first) :
    (c.renamed staged place).slotOf dest .busy = .ok place := by
  obtain ⟨folder, name, hslot, heq⟩ := slot_of_slotOf ht.reached
  exact heq ▸ (ht.slots haside .dest hslot).slotOf .busy

/-- The other receives keep what they have staged. -/
theorem sound_all (haside : Aside dest first) (hsize : report.size = (dataOf receives i).length)
    {j : Nat} {q : Receiver}
    (hq : (c.receivers.set i { r with phase := .ending (.ok report) })[j]? = some q) :
    Sound dest first (c.renamed staged place) (dataOf receives j) q.inbound q.phase := by
  rcases Kept.of_set hq with ⟨rfl, rfl⟩ | ⟨hj, hq⟩
  · refine .ending fun report' hreport => ?_
    cases hreport
    exact hsize
  · refine (ht.kept.sound j q hq).frame fun staged' content hstaged' hheld' => ?_
    obtain ⟨n, hpath⟩ := hheld'.path
    obtain ⟨folder, name, hslot, hlocation⟩ := hheld'.slot
    refine ⟨⟨n, hpath⟩, ⟨folder, name, ht.slots haside (hpath ▸ .staging n) hslot, hlocation⟩,
      hheld'.missing, ?_⟩
    have hne := ht.kept.apart j i q r staged' staged hj hq ht.here hstaged' ht.own
    exact (others hne (hheld'.slotOf_ne ht.reached).symm).trans hheld'.get?

/-- The receive that renames has nothing staged any more, and the others had theirs apart. -/
theorem apart_all {j k : Nat} {q q' : Receiver} {staged₁ staged₂ : Staged} (hjk : j ≠ k)
    (hq : (c.receivers.set i { r with phase := .ending (.ok report) })[j]? = some q)
    (hq' : (c.receivers.set i { r with phase := .ending (.ok report) })[k]? = some q')
    (hstaged : q.phase.staged? = some staged₁) (hstaged' : q'.phase.staged? = some staged₂) :
    staged₁.handle.location ≠ staged₂.handle.location := by
  rcases Kept.of_set hq with ⟨rfl, rfl⟩ | ⟨hj, hq⟩
  · cases hstaged
  · rcases Kept.of_set hq' with ⟨rfl, rfl⟩ | ⟨hk, hq'⟩
    · cases hstaged'
    · exact ht.kept.apart j k q q' staged₁ staged₂ hjk hq hq' hstaged hstaged'

/-- Every entry is still accounted for. -/
theorem origin_all (haside : Aside dest first) (ambient : Ambient) (l : Location) :
    Origin dest first
      { receivers := c.receivers.set i { r with phase := .ending (.ok report) }, ambient
        files := c.renamed staged place, promoted := i :: c.promoted } l := by
  by_cases hl' : l = place
  · exact .promoted (List.cons_ne_nil _ _) (hl' ▸ ht.slotOf haside)
  by_cases hl : l = staged.handle.location
  · exact .old (by rw [hl, ht.held.missing]; exact ht.gone)
  cases ht.kept.origin l with
  | old hsame => exact .old ((others hl hl').trans hsame)
  | made hmissing hfolder =>
    exact .made hmissing ((others hl hl').trans hfolder) fun hnil =>
      absurd hnil (List.cons_ne_nil _ _)
  -- the staged files of two receives are two files
  | @staged j q staged' hq hstaged' heq =>
    have hj : j ≠ i := by
      rintro rfl
      obtain rfl := Option.some.inj (ht.here.symm.trans hq)
      obtain rfl := Option.some.inj (ht.own.symm.trans hstaged')
      exact hl heq
    exact .staged (Kept.set_other hj hq _) hstaged' heq
  | promoted _ hdest => exact absurd (Except.ok.inj (hdest.symm.trans ht.reached)) hl'

/-- The destination is where it was said to be. -/
theorem place_all (haside : Aside dest first) {l : Location}
    (hl : destination dest first = .ok l) :
    (c.renamed staged place).slotOf dest .busy = .ok l := by
  rcases ht.kept.place l hl with ⟨-, hall⟩ | hdest
  · have hearly := hall r (List.mem_of_getElem? ht.here)
    exact absurd (.inl hearly) (Turn.not_isBare_of_staged ht.own)
  · obtain rfl := Except.ok.inj (hdest.symm.trans ht.reached)
    exact ht.slotOf haside

/-- Those that have renamed are those that succeed, one more now. -/
theorem promoted_all (j : Nat) : j ∈ i :: c.promoted ↔
    ∃ q report', (c.receivers.set i { r with phase := .ending (.ok report) })[j]? = some q ∧
      q.phase.result? = some (.ok report') := by
  by_cases hj : j = i
  · subst hj
    exact ⟨fun _ => ⟨_, report, Kept.set_self ht.here _, rfl⟩, fun _ => List.mem_cons_self ..⟩
  · constructor
    · intro hmem
      obtain ⟨q, report', hq, hreport⟩ :=
        (ht.kept.promoted j).mp (List.mem_of_ne_of_mem hj hmem)
      exact ⟨q, report', Kept.set_other hj hq _, hreport⟩
    · rintro ⟨q, report', hq, hreport⟩
      rcases Kept.of_set hq with ⟨rfl, -⟩ | ⟨-, hq⟩
      · exact absurd rfl hj
      · exact List.mem_cons_of_mem _ ((ht.kept.promoted j).mpr ⟨q, report', hq, hreport⟩)

/-- **The step that renames keeps all this.** -/
theorem kept_renamed (haside : Aside dest first) (ambient : Ambient)
    (hsize : report.size = (dataOf receives i).length) :
    Kept dest receives first
      { receivers := c.receivers.set i { r with phase := .ending (.ok report) }, ambient
        files := c.renamed staged place, promoted := i :: c.promoted } where
  here := ht.kept.here
  sound := fun _ _ => ht.sound_all haside hsize
  apart := fun _ _ _ _ _ _ => ht.apart_all
  origin := ht.origin_all haside ambient
  shown := fun hnil => absurd hnil (List.cons_ne_nil _ _)
  newest := by
    intro j rest hpromoted
    cases hpromoted
    exact ⟨place, staged.handle.serial, ht.slotOf haside, ht.there⟩
  place := fun _ hl => .inr (ht.place_all haside hl)
  promoted := ht.promoted_all
  ground := fun hnil => absurd hnil (List.cons_ne_nil _ _)

end

end Taking

namespace Kept

variable {i : Nat} {r r' : Receiver} {pace : Pace} {report : Report}

/-- A staged file takes the place of the destination. -/
theorem promote (haside : Aside dest first) (h : Kept dest receives first c)
    (hr : c.receivers[i]? = some r) (ambient : Ambient) (hphase : r.phase = .synced staged pace)
    (hrename : c.files.rename staged.path dest = (.ok (), fs')) (hsize : report.size = pace.moved) :
    Kept dest receives first
      { receivers := c.receivers.set i { r with phase := .ending (.ok report) }, ambient
        files := fs', promoted := i :: c.promoted } := by
  have hsound := h.sound i r hr
  rw [hphase] at hsound
  obtain ⟨hheld, hmoved⟩ : Held dest first c.files staged (dataOf receives i) ∧
      pace.moved = (dataOf receives i).length := by
    cases hsound with
    | synced hheld hmoved => exact ⟨hheld, hmoved⟩
  obtain ⟨old, place, hold, hplace, hfree, rfl⟩ : ∃ old place,
      c.files.slotOf staged.path .busy = .ok old ∧ c.files.slotOf dest .busy = .ok place ∧
        (∀ mode, c.files.tree.get? place ≠ some (.folder mode)) ∧
        fs' = c.files.commit (.move old place) := by
    rcases rename_cases hrename with ⟨old, place, -, h⟩ | ⟨f, hf, -⟩
    · exact ⟨old, place, h⟩
    · cases hf
  -- what is renamed is the staged file
  obtain rfl : old = staged.handle.location := by
    obtain ⟨folder, name, hslot, hlocation⟩ := hheld.slot
    rw [hslot.slotOf] at hold
    rw [hlocation, Except.ok.inj hold]
  have ht : Taking dest receives first c i r staged place :=
    ⟨h, hr, by rw [hphase]; rfl, hheld, hplace, hfree⟩
  exact ht.kept_renamed haside ambient (hsize.trans hmoved)

/-! ## All the steps -/

/-- **Any step keeps all this.** -/
theorem step {d : Crowd} (haside : Aside dest first) (h : Kept dest receives first c)
    (hstep : c.step dest i = some d) : Kept dest receives first d := by
  unfold Crowd.step at hstep
  cases hr : c.receivers[i]? with
  | none =>
    rw [hr] at hstep
    cases hstep
  | some r =>
    have hm := moves_of_step dest r c.ambient c.files
    rw [hr] at hstep
    dsimp only at hstep
    cases hnext : r.step dest c.ambient c.files with
    | mk r' rest =>
      obtain ⟨ambient, fs'⟩ := rest
      rw [hnext] at hstep hm
      obtain rfl := Option.some.inj hstep
      dsimp only at hm ⊢
      -- only the step that promotes touches the destination; it has its own lemma
      by_cases hpromotes : Crowd.promotes r.phase r'.phase = true
      · obtain ⟨staged, pace, report, hphase, hrename, hsize, rfl⟩ := hm.of_promotes hpromotes
        rw [if_pos hpromotes]
        exact h.promote haside hr ambient hphase hrename hsize
      · rw [if_neg hpromotes]
        exact h.moves_apart hr ambient hm (Bool.eq_false_of_not_eq_true hpromotes)

/-- A destination that was made as a folder is written with `..`. -/
theorem up_of_made {place : Location} (ht : first.tree.WellFormed)
    (h : Kept dest receives first c) (hnone : c.promoted = [])
    (hdest : c.files.slotOf dest .busy = .ok place) (hmissing : first.tree.get? place = none)
    (hfolder : c.files.tree.get? place = some (.folder 0o755))
    (habove : ∃ p ∈ dest.folder.lineage, c.files.slotOf p .alreadyThere = .ok place) :
    .up ∈ dest.parts := by
  obtain ⟨p, hp, hplace⟩ := habove
  obtain ⟨folder, name, hslot, rfl⟩ := slot_of_slotOf hdest
  obtain ⟨folder', name', hslot', heq⟩ := slot_of_slotOf hplace
  obtain ⟨rfl, hname⟩ := List.append_inj' heq rfl
  obtain rfl : name = name' := by simpa using hname
  refine up_of_slot_above hp hslot' hslot (Tree.shape_of_get? hfolder) fun k target hlink => ?_
  -- a link below was there at first, when there was nothing above it
  cases h.origin (folder ++ [name] ++ k) with
  | old hsame =>
    have hbelow := ht.shape_append_eq_none (k := k) (Tree.shape_eq_none.mpr hmissing)
    rw [hsame] at hlink
    rw [Tree.shape_of_get? hlink] at hbelow
    cases hbelow
  | made _ hfolder' =>
    rw [hfolder'] at hlink
    cases hlink
  | staged hr hstaged hl =>
    obtain ⟨content, hheld, -⟩ := (h.sound _ _ hr).held hstaged
    rw [hl, hheld.get?] at hlink
    cases hlink
  | promoted hsome => exact absurd hnone hsome

end Kept

/-- **What holds between any two steps holds of all that a crowd comes to.** -/
theorem kept_of_reachable (haside : Aside dest first)
    (h : Crowd.Reachable dest receives first c) : Kept dest receives first c := by
  -- each step of a receiver keeps the invariant, and so does anything that happens elsewhere
  induction h with
  | begin ambient => exact kept_begin ambient first
  | step _ hstep ih => exact ih.step haside hstep
  | elsewhere _ ambient ih => exact ih.elsewhere ambient

/-- What a run comes to can be reached. -/
theorem reachable_of_run {turns : List Nat} {d : Crowd} (h : Crowd.Reachable dest receives first c)
    (hrun : c.run dest turns = some d) : Crowd.Reachable dest receives first d := by
  induction turns generalizing c with
  | nil => exact Option.some.inj hrun ▸ h
  | cons i turns ih =>
    obtain ⟨next, hstep, hrest⟩ := Option.bind_eq_some_iff.mp hrun
    exact ih (h.step hstep) hrest

end Courier.Transfer
