import Courier.Proofs.Crowd

/-!
# Receives that leave each other alone

All steps of a receive but one leave the destination, and what the other receives have staged, as
they are: to get the folder ready, to stage a file, to read and to write, to wait for the disk, to
remove what was staged. Each of them keeps what holds of receives into one destination.

Main results:

* `Transfer.Kept.furnish`, `stage`, `append`, `discard` — the steps that change files.
* `Transfer.Kept.moves_apart` — every step but the one that renames.
-/

namespace Courier.Transfer

open Files Receiver

variable {dest : Path} {receives : List (Settings × Inbound)} {first fs' : Files} {c : Crowd}
  {content : Bytes} {phase : Phase} {staged : Staged}

namespace Kept

variable {i : Nat} {r r' : Receiver}

/-! ## The steps, one by one -/

variable {made : List Location} {pace : Pace} {chunk : Bytes} {report : Report}

/-- A receive of which nothing is on the disk begins, or is refused. -/
theorem unstaged (h : Kept dest receives first c) (hr : c.receivers[i]? = some r)
    (ambient : Ambient) (hspares : c.files.Spares [] fs') (hphase : r.phase.staged? = none)
    (hsound : Sound dest first fs' (dataOf receives i) r'.inbound r'.phase)
    (hphase' : r'.phase.staged? = none)
    (hearly : r.phase.isEarly → ∀ l, destination dest c.files = .ok l →
      fs' = c.files ∧ r'.phase.isEarly)
    (hbare : r.phase.isBare → r'.phase.isBare ∧ fs' = c.files)
    (hresult : ∀ report, r'.phase.result? = some (.ok report) ↔
      r.phase.result? = some (.ok report)) :
    Kept dest receives first
      { receivers := c.receivers.set i r', ambient, files := fs', promoted := c.promoted } :=
  (Turn.of_quiet hr hspares hsound (hphase'.trans hphase.symm) hearly hbare hresult).kept h hr
    ambient

/-- A receive that has a staged file goes on without touching any files. -/
theorem still (h : Kept dest receives first c) (hr : c.receivers[i]? = some r)
    (ambient : Ambient) (hphase : r.phase.staged? = some staged)
    (hsound : Sound dest first c.files (dataOf receives i) r'.inbound r'.phase)
    (hphase' : r'.phase.staged? = some staged) :
    Kept dest receives first
      { receivers := c.receivers.set i r', ambient, files := c.files, promoted := c.promoted } :=
  (Turn.of_still hr (by rw [hphase]; simp) hsound (hphase'.trans hphase.symm)).kept h hr ambient

/-- Folders that are made ready are above the destination, and it is then where it was said to
be. -/
theorem furnish (h : Kept dest receives first c) (hr : c.receivers[i]? = some r)
    (ambient : Ambient) (hphase : r.phase = .registered)
    (hmade : Furnished dest.folder.lineage c.files made (prepareFolder dest c.files).2)
    (hnext : (prepareFolder dest c.files).1 = .ok () ∧ phase = .ready ∨
      ∃ e, (prepareFolder dest c.files).1 = .error e ∧ phase = .ending (.error e)) :
    Kept dest receives first
      { receivers := c.receivers.set i { r with phase }, ambient
        files := (prepareFolder dest c.files).2, promoted := c.promoted } := by
  have hdata := (h.sound i r hr).pending (.inr (.inl hphase))
  have hunstaged : phase.staged? = none := by
    rcases hnext with ⟨-, rfl⟩ | ⟨e, -, rfl⟩ <;> rfl
  have hprepare : prepareFolder dest c.files =
      ((prepareFolder dest c.files).1, (prepareFolder dest c.files).2) := rfl
  suffices ht : Turn dest receives first c i r { r with phase } made (prepareFolder dest c.files).2
    from ht.kept h hr ambient
  constructor
  case spares => exact hmade.spares
  case own => exact fun l hl => .inl (hmade.fresh l hl)
  case sound =>
    rcases hnext with ⟨-, rfl⟩ | ⟨e, -, rfl⟩
    · exact .ready hdata
    · exact .ending nofun
  case new =>
    intro staged hstaged
    rw [hunstaged] at hstaged
    cases hstaged
  case left =>
    intro staged hstaged
    rw [hphase] at hstaged
    cases hstaged
  case origin =>
    intro l hl
    obtain ⟨p, hp, folder, name, hslot, rfl⟩ := hmade.named l hl
    exact .inr (.inl ⟨by rw [hmade.get?, if_pos hl], p, hp, hslot.slotOf .alreadyThere⟩)
  case early => exact fun _ l hl => .inr hl
  case result =>
    intro report
    rcases hnext with ⟨-, rfl⟩ | ⟨e, -, rfl⟩ <;> simp [hphase, Phase.result?]
  case ground =>
    intro hground
    cases hground with
    | bare hall hready =>
      rcases hnext with ⟨hok, -⟩ | ⟨e, herror, rfl⟩
      · -- this is the receive that gets the folder ready
        rw [hok] at hprepare
        exact .ready (hready _ (.now hprepare)) (Tree.filesOnly_of_shape_eq fun _ => rfl)
      · rw [herror] at hprepare
        refine .bare (fun q hq => ?_) fun g hg => hready g (.later hprepare hg)
        rcases List.mem_or_eq_of_mem_set hq with hq | rfl
        · exact hall q hq
        · exact .inr ⟨e, rfl⟩
    | ready hready honly =>
      -- the folder is ready already, and there is nothing left to do
      obtain ⟨_, hfurnished⟩ := hready.furnished
      rw [hready.again (h.here.trans hfurnished.evolves.here.symm) honly.shown]
      exact .ready hready honly

/-- A staged file is made where nothing was. -/
theorem stage {n : Nat} (h : Kept dest receives first c) (hr : c.receivers[i]? = some r)
    (ambient : Ambient) (hphase : r.phase = .ready)
    (hpath : staged.path = stagingPath dest c.files.here n)
    (hcreated : c.files.Created staged.path 0o644 staged.handle fs') (hmoved : pace.moved = 0) :
    Kept dest receives first
      { receivers := c.receivers.set i { r with phase := .reading staged pace }, ambient
        files := fs', promoted := c.promoted } := by
  have hdata := (h.sound i r hr).pending (.inr (.inr hphase))
  have hheld : Held dest first fs' staged [] := by
    obtain ⟨folder, name, hslot, hlocation⟩ := hcreated.slot
    exact ⟨⟨n, h.here ▸ hpath⟩, ⟨folder, name, hcreated.spares.slots _ _ _ hslot, hlocation⟩,
      h.missing hcreated.fresh, hcreated.holds⟩
  -- with its folder ready the receive is no longer one that has done nothing
  have hlate : ¬ r.phase.isBare := by simp [Phase.isBare, Phase.isEarly, Phase.result?, hphase]
  suffices ht : Turn dest receives first c i r { r with phase := .reading staged pace }
      [staged.handle.location] fs' from ht.kept h hr ambient
  constructor
  case spares => exact hcreated.spares
  case own => exact fun l hl => .inl (List.mem_singleton.mp hl ▸ hcreated.fresh)
  case sound => exact .reading hheld hdata hmoved
  case new =>
    rintro _ ⟨⟩
    exact .inr hcreated.fresh
  case left =>
    intro staged hstaged
    rw [hphase] at hstaged
    cases hstaged
  case origin => exact fun l hl => .inr (.inr ⟨staged, rfl, List.mem_singleton.mp hl⟩)
  case early => exact fun hearly => absurd (.inl hearly) hlate
  case result => simp [hphase, Phase.result?]
  case ground =>
    refine Turn.ground_of_filesOnly hr (fun hbare => absurd hbare hlate) ?_
    exact Tree.filesOnly_of_file hcreated.fresh hcreated.holds fun l hl =>
      hcreated.spares.others l (by simpa using hl)

/-- What is added to a staged file concerns its own receive only. -/
theorem append {written : Bytes} (h : Kept dest receives first c)
    (hr : c.receivers[i]? = some r) (ambient : Ambient)
    (hphase : r.phase = .writing staged pace chunk)
    (hsound : Sound dest first (c.files.commit (.append staged.handle.location written))
      (dataOf receives i) r'.inbound r'.phase)
    (hstaged : r'.phase.staged? = some staged) (hresult : r'.phase.result? = none) :
    Kept dest receives first
      { receivers := c.receivers.set i r', ambient
        files := c.files.commit (.append staged.handle.location written)
        promoted := c.promoted } := by
  have hown : r.phase.staged? = some staged := by rw [hphase]; rfl
  have hlate := Turn.not_isBare_of_staged hown
  suffices ht : Turn dest receives first c i r r' [staged.handle.location]
      (c.files.commit (.append staged.handle.location written)) from ht.kept h hr ambient
  constructor
  case spares => exact spares_append staged.handle written
  case own => exact fun l hl => .inr ⟨staged, hown, List.mem_singleton.mp hl⟩
  case sound => exact hsound
  case new => exact fun _ hnew => .inl (by rw [hown, ← hstaged, hnew])
  case left => exact fun _ hold => .inl (by rw [hstaged, ← hown, hold])
  case origin => exact fun l hl => .inr (.inr ⟨staged, hstaged, List.mem_singleton.mp hl⟩)
  case early => exact fun hearly => absurd (.inl hearly) hlate
  case result =>
    intro report
    rw [hresult, hphase]
    exact ⟨nofun, nofun⟩
  -- the shape of the tree stays the same
  case ground =>
    refine Turn.ground_of_filesOnly hr (fun hbare => absurd hbare hlate) ?_
    exact Tree.filesOnly_of_shape_eq fun l => Change.shape_append ..

/-- When a staged file is removed, its place is as empty as at first. -/
theorem discard {e : TransferError} (h : Kept dest receives first c)
    (hr : c.receivers[i]? = some r) (ambient : Ambient) (hphase : r.phase = .discarding staged e) :
    Kept dest receives first
      { receivers := c.receivers.set i { r with phase := .ending (.error e) }, ambient
        files := (c.files.remove staged.path).2, promoted := c.promoted } := by
  have hown : r.phase.staged? = some staged := by rw [hphase]; rfl
  obtain ⟨content, hheld, -⟩ := (h.sound i r hr).held hown
  have hlate := Turn.not_isBare_of_staged hown
  -- the file is where it was made, so its path still leads to it
  have hremove : (c.files.remove staged.path).2 =
      c.files.commit (.remove staged.handle.location) := by
    obtain ⟨folder, name, hslot, hlocation⟩ := hheld.slot
    rw [remove_of_slot hslot (hlocation ▸ hheld.get?), hlocation]
  have hgone : (c.files.commit (.remove staged.handle.location)).tree.get?
      staged.handle.location = none := Tree.get?_remove_self ..
  rw [hremove]
  suffices ht : Turn dest receives first c i r { r with phase := .ending (.error e) }
      [staged.handle.location] (c.files.commit (.remove staged.handle.location))
    from ht.kept h hr ambient
  constructor
  case spares => exact spares_remove hheld.get?
  case own => exact fun l hl => .inr ⟨staged, hown, List.mem_singleton.mp hl⟩
  case sound => exact .ending nofun
  case new => exact nofun
  case left =>
    intro staged' hstaged'
    rw [hown] at hstaged'
    cases hstaged'
    exact .inr hgone
  case origin =>
    intro l hl
    rw [List.mem_singleton.mp hl, hgone, hheld.missing]
    exact .inl rfl
  case early => exact fun hearly => absurd (.inl hearly) hlate
  case result => simp [hphase, Phase.result?]
  case ground =>
    intro hground
    cases hground with
    | bare hall => exact absurd (hall r (List.mem_of_getElem? hr)) hlate
    -- the staged file is one of the files that were added since, so they are fewer now
    | ready hready honly => exact .ready hready (honly.remove (hheld.missing_ready hready honly))

/-! ## By the phase of the receive -/

/-- Before a folder is ready there is little that a receive can do. -/
theorem moves_bare (h : Kept dest receives first c) (hr : c.receivers[i]? = some r)
    (ambient : Ambient) (hm : Moves dest r c.files r' fs')
    (hphase : r.phase = .fresh ∨ r.phase = .registered ∨ r.phase = .ready) :
    Kept dest receives first
      { receivers := c.receivers.set i r', ambient, files := fs', promoted := c.promoted } := by
  -- four of the moves start in these phases; the others are ruled out at the end
  cases hm with
  | register hphase =>
    have hdata := (h.sound i r hr).pending (.inl hphase)
    refine h.unstaged hr ambient (.refl _) (by rw [hphase]; rfl) (.registered hdata) rfl
      (fun _ _ _ => ⟨rfl, .inr rfl⟩) (fun _ => ⟨.inl (.inr rfl), rfl⟩) fun report => ?_
    simp [hphase, Phase.result?]
  | @refuse e hphase hempty =>
    refine h.unstaged hr ambient (.refl _) (by rw [hphase]; rfl) (.ending nofun) rfl ?_
      (fun _ => ⟨.inr ⟨e, rfl⟩, rfl⟩) fun report => ?_
    · -- an empty path does not name a destination
      intro _ l hl
      obtain ⟨folder, name, hslot, -⟩ := slot_of_slotOf hl
      exact absurd (List.isEmpty_iff.mp hempty) (route?_eq_ok hslot.route).2
    · simp [hphase, Phase.result?]
  | furnish hphase hmade hnext => exact h.furnish hr ambient hphase hmade hnext
  | unstaged hphase hevolves =>
    have hlate : ¬ r.phase.isBare := by simp [Phase.isBare, Phase.isEarly, Phase.result?, hphase]
    refine h.unstaged hr ambient hevolves.spares (by rw [hphase]; rfl) (.ending nofun) rfl
      (fun hearly => absurd (.inl hearly) hlate) (fun hbare => absurd hbare hlate) ?_
    simp [hphase, Phase.result?]
  | stage hphase hpath hcreated hmoved => exact h.stage hr ambient hphase hpath hcreated hmoved
  | unread hlater | finish hlater | read hlater | unwritten hlater | write hlater
  | unsynced hlater | sync hlater | unpromoted hlater | promote hlater | discard hlater
  | deregister hlater | rest hlater =>
    rw [hlater] at hphase
    simp at hphase

/-- A receive reads a chunk, or its stream fails or ends. -/
theorem moves_reading (h : Kept dest receives first c) (hr : c.receivers[i]? = some r)
    (ambient : Ambient) (hm : Moves dest r c.files r' fs')
    (hphase : r.phase = .reading staged pace) :
    Kept dest receives first
      { receivers := c.receivers.set i r', ambient, files := fs', promoted := c.promoted } := by
  have hsound := h.sound i r hr
  have hown : r.phase.staged? = some staged := by rw [hphase]; rfl
  rw [hphase] at hsound
  obtain ⟨content, hheld, hdata, hmoved⟩ : ∃ content, Held dest first c.files staged content ∧
      content ++ r.inbound.pending = dataOf receives i ∧ pace.moved = content.length := by
    cases hsound with
    | reading hheld hdata hmoved => exact ⟨_, hheld, hdata, hmoved⟩
  -- what has been written and what is pending make up the data, before and after the step
  cases hm with
  | unread hphase' =>
    cases hphase.symm.trans hphase'
    exact h.still hr ambient hown (.discarding hheld ⟨_, hdata⟩) rfl
  | finish hphase' hend =>
    cases hphase.symm.trans hphase'
    rw [hend, List.append_nil] at hdata
    subst hdata
    exact h.still hr ambient hown (.received hheld hmoved) rfl
  | read hphase' hread =>
    cases hphase.symm.trans hphase'
    rw [hread] at hdata
    exact h.still hr ambient hown (.writing hheld hdata hmoved) rfl
  | register hother | refuse hother | furnish hother | unstaged hother | stage hother
  | unwritten hother | write hother | unsynced hother | sync hother | unpromoted hother
  | promote hother | discard hother | deregister hother | rest hother =>
    cases hphase.symm.trans hother

/-- A chunk is written, or a part of it only. -/
theorem moves_writing {chunk : Bytes} (h : Kept dest receives first c)
    (hr : c.receivers[i]? = some r) (ambient : Ambient) (hm : Moves dest r c.files r' fs')
    (hphase : r.phase = .writing staged pace chunk) :
    Kept dest receives first
      { receivers := c.receivers.set i r', ambient, files := fs', promoted := c.promoted } := by
  have hsound := h.sound i r hr
  rw [hphase] at hsound
  obtain ⟨content, hheld, hdata, hmoved⟩ : ∃ content, Held dest first c.files staged content ∧
      content ++ (chunk ++ r.inbound.pending) = dataOf receives i ∧
        pace.moved = content.length := by
    cases hsound with
    | writing hheld hdata hmoved => exact ⟨_, hheld, hdata, hmoved⟩
  cases hm with
  -- a write that fails has written a first part of the chunk
  | unwritten hphase' happend =>
    cases hphase.symm.trans hphase'
    obtain ⟨written, rfl, -, hpart, -⟩ := append_cases hheld.holds happend
    refine h.append hr ambient hphase (.discarding (hheld.append written) ?_) rfl rfl
    rw [← hdata, List.prefix_append_right_inj]
    exact hpart.trans (List.prefix_append ..)
  | write hphase' happend hpace =>
    cases hphase.symm.trans hphase'
    obtain ⟨written, rfl, -, -, hall⟩ := append_cases hheld.holds happend
    obtain rfl := hall rfl
    refine h.append hr ambient hphase (.reading (hheld.append written) ?_ ?_) rfl rfl
    · rw [← hdata, List.append_assoc]
    · rw [hpace, hmoved, List.length_append]
  | register hother | refuse hother | furnish hother | unstaged hother | stage hother
  | unread hother | finish hother | read hother | unsynced hother | sync hother
  | unpromoted hother | promote hother | discard hother | deregister hother | rest hother =>
    cases hphase.symm.trans hother

/-- A receive whose stream has ended waits for the disk. -/
theorem moves_received (h : Kept dest receives first c) (hr : c.receivers[i]? = some r)
    (ambient : Ambient) (hm : Moves dest r c.files r' fs')
    (hphase : r.phase = .received staged pace) :
    Kept dest receives first
      { receivers := c.receivers.set i r', ambient, files := fs', promoted := c.promoted } := by
  have hsound := h.sound i r hr
  have hown : r.phase.staged? = some staged := by rw [hphase]; rfl
  rw [hphase] at hsound
  obtain ⟨hheld, hmoved⟩ : Held dest first c.files staged (dataOf receives i) ∧
      pace.moved = (dataOf receives i).length := by
    cases hsound with
    | received hheld hmoved => exact ⟨hheld, hmoved⟩
  have hlate := Turn.not_isBare_of_staged hown
  -- to wait for the disk spares everything
  have hspares : c.files.Spares [] c.files.sync.2 := (Evolves.sync c.files).spares
  have hheld' : Held dest first c.files.sync.2 staged (dataOf receives i) :=
    hheld.frame hspares (by simp)
  cases hm with
  | unsynced hphase' hsync =>
    cases hphase.symm.trans hphase'
    subst hsync
    exact (Turn.of_quiet hr hspares (.discarding hheld' List.prefix_rfl) (by rw [hown]; rfl)
      (fun hearly => absurd (.inl hearly) hlate) (fun hbare => absurd hbare hlate)
      (by simp [hphase, Phase.result?])).kept h hr ambient
  | sync hphase' hsync =>
    cases hphase.symm.trans hphase'
    subst hsync
    exact (Turn.of_quiet hr hspares (.synced hheld' hmoved) (by rw [hown]; rfl)
      (fun hearly => absurd (.inl hearly) hlate) (fun hbare => absurd hbare hlate)
      (by simp [hphase, Phase.result?])).kept h hr ambient
  | register hother | refuse hother | furnish hother | unstaged hother | stage hother
  | unread hother | finish hother | read hother | unwritten hother | write hother
  | unpromoted hother | promote hother | discard hother | deregister hother | rest hother =>
    cases hphase.symm.trans hother

/-- A receive that cannot rename is to give up. -/
theorem moves_synced (h : Kept dest receives first c) (hr : c.receivers[i]? = some r)
    (ambient : Ambient) (hm : Moves dest r c.files r' fs')
    (hphase : r.phase = .synced staged pace) (hapart : Crowd.promotes r.phase r'.phase = false) :
    Kept dest receives first
      { receivers := c.receivers.set i r', ambient, files := fs', promoted := c.promoted } := by
  have hsound := h.sound i r hr
  have hown : r.phase.staged? = some staged := by rw [hphase]; rfl
  rw [hphase] at hsound
  have hheld : Held dest first c.files staged (dataOf receives i) := by
    cases hsound with
    | synced hheld _ => exact hheld
  cases hm with
  -- the file is whole, but it is not moved, and is given up
  | unpromoted hphase' =>
    cases hphase.symm.trans hphase'
    exact h.still hr ambient hown (.discarding hheld List.prefix_rfl) rfl
  | promote hphase' =>
    rw [hphase'] at hapart
    cases hapart
  | register hother | refuse hother | furnish hother | unstaged hother | stage hother
  | unread hother | finish hother | read hother | unwritten hother | write hother
  | unsynced hother | sync hother | discard hother | deregister hother | rest hother =>
    cases hphase.symm.trans hother

/-- A receive whose result is known is no longer counted, and that is all. -/
theorem moves_settled {result : Except TransferError Report} (h : Kept dest receives first c)
    (hr : c.receivers[i]? = some r) (ambient : Ambient) (hm : Moves dest r c.files r' fs')
    (hphase : r.phase = .ending result ∨ r.phase = .ended result) :
    Kept dest receives first
      { receivers := c.receivers.set i r', ambient, files := fs', promoted := c.promoted } := by
  have hsound := h.sound i r hr
  cases hm with
  | deregister hphase' =>
    have hown : r.phase.staged? = none := by rw [hphase']; rfl
    have hended {result : Except TransferError Report} : ¬ (Phase.ending result).isEarly := by
      simp [Phase.isEarly]
    rw [hphase'] at hsound
    cases hsound with
    | ending hsize =>
      refine h.unstaged hr ambient (.refl _) hown (.ended hsize) rfl
        (fun hearly => absurd (hphase' ▸ hearly) hended) (fun hbare => ⟨?_, rfl⟩)
        (by simp [hphase', Phase.result?])
      -- a receive that has failed has still failed
      rw [hphase'] at hbare
      exact .inr (hbare.resolve_left hended)
  | rest hphase' =>
    have hended : ¬ r.phase.isEarly := by simp [Phase.isEarly, hphase']
    exact h.unstaged hr ambient (.refl _) (by rw [hphase']; rfl) hsound (by rw [hphase']; rfl)
      (fun hearly => absurd hearly hended) (fun hbare => ⟨hbare, rfl⟩) fun _ => Iff.rfl
  | register hother | refuse hother | furnish hother | unstaged hother | stage hother
  | unread hother | finish hother | read hother | unwritten hother | write hother
  | unsynced hother | sync hother | unpromoted hother | promote hother | discard hother =>
    rw [hother] at hphase
    simp at hphase

/-- Every step but the one that promotes. -/
theorem moves_apart (h : Kept dest receives first c) (hr : c.receivers[i]? = some r)
    (ambient : Ambient) (hm : Moves dest r c.files r' fs')
    (hapart : Crowd.promotes r.phase r'.phase = false) :
    Kept dest receives first
      { receivers := c.receivers.set i r', ambient, files := fs', promoted := c.promoted } := by
  -- phase by phase, as each lemma knows what is held in its phase
  cases hphase : r.phase with
  | fresh => exact h.moves_bare hr ambient hm (.inl hphase)
  | registered => exact h.moves_bare hr ambient hm (.inr (.inl hphase))
  | ready => exact h.moves_bare hr ambient hm (.inr (.inr hphase))
  | reading => exact h.moves_reading hr ambient hm hphase
  | writing => exact h.moves_writing hr ambient hm hphase
  | received => exact h.moves_received hr ambient hm hphase
  | synced => exact h.moves_synced hr ambient hm hphase hapart
  | ending => exact h.moves_settled hr ambient hm (.inl hphase)
  | ended => exact h.moves_settled hr ambient hm (.inr hphase)
  | discarding staged e =>
    cases hm with
    | discard hphase' => exact h.discard hr ambient hphase'
    | register hother | refuse hother | furnish hother | unstaged hother | stage hother
    | unread hother | finish hother | read hother | unwritten hother | write hother
    | unsynced hother | sync hother | unpromoted hother | promote hother | deregister hother
    | rest hother => cases hphase.symm.trans hother

end Kept

end Courier.Transfer
