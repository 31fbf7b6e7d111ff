import Mathlib.Logic.Relation
import Courier.Proofs.Receive
import Courier.Transfer.Receiver

/-!
# The steps of a receive

What each step of a receive does, with all that it has found out; and that a receive that takes its
steps without interruption is the one that the transfers run.

Main results:

* `Receiver.moves_of_step` — the steps, one by one.
* `Receiver.runs_alone` — all the steps of a receive make up `Transfer.receiveFile`.
-/

namespace Courier

namespace Transfer

open Files Relation

/-- The path under which the draw `n` stages a file for a destination. -/
def stagingPath (dest : Path) (here : Location) (n : Nat) : Path :=
  (Staged.folder dest here).child (Staged.name dest n)

namespace Receiver

variable {dest : Path} {r : Receiver} {a : Ambient} {fs : Files}

/-! ## What a step does -/

/-- The steps that a receive can take, and what each leads to. -/
inductive Moves (dest : Path) (r : Receiver) (fs : Files) : Receiver → Files → Prop where
  | register (hphase : r.phase = .fresh) : Moves dest r fs { r with phase := .registered } fs
  | refuse {e : TransferError} (hphase : r.phase = .registered) (hempty : dest.isEmpty = true) :
      Moves dest r fs { r with phase := .ending (.error e) } fs
  | furnish {phase : Phase} {made : List Location} (hphase : r.phase = .registered)
      (hmade : Furnished dest.folder.lineage fs made (prepareFolder dest fs).2)
      (hnext : (prepareFolder dest fs).1 = .ok () ∧ phase = .ready ∨
        ∃ e, (prepareFolder dest fs).1 = .error e ∧ phase = .ending (.error e)) :
      Moves dest r fs { r with phase } (prepareFolder dest fs).2
  | unstaged {e : TransferError} {fs' : Files} (hphase : r.phase = .ready)
      (hevolves : fs.Evolves [] fs') : Moves dest r fs { r with phase := .ending (.error e) } fs'
  | stage {staged : Staged} {n : Nat} {pace : Pace} {fs' : Files} (hphase : r.phase = .ready)
      (hpath : staged.path = stagingPath dest fs.here n)
      (hcreated : fs.Created staged.path 0o644 staged.handle fs') (hmoved : pace.moved = 0) :
      Moves dest r fs { r with phase := .reading staged pace } fs'
  | unread {staged : Staged} {pace : Pace} {e : TransferError} {t : Inbound}
      (hphase : r.phase = .reading staged pace) :
      Moves dest r fs { r with inbound := t, phase := .discarding staged e } fs
  | finish {staged : Staged} {pace : Pace} {t : Inbound} (hphase : r.phase = .reading staged pace)
      (hend : r.inbound.pending = []) :
      Moves dest r fs { r with inbound := t, phase := .received staged pace } fs
  | read {staged : Staged} {pace : Pace} {chunk : Bytes} {t : Inbound}
      (hphase : r.phase = .reading staged pace) (hread : r.inbound.pending = chunk ++ t.pending) :
      Moves dest r fs { r with inbound := t, phase := .writing staged pace chunk } fs
  | unwritten {staged : Staged} {pace : Pace} {chunk : Bytes} {f : Fault} {e : TransferError}
      {fs' : Files} (hphase : r.phase = .writing staged pace chunk)
      (happend : fs.append staged.handle chunk = (.error f, fs')) :
      Moves dest r fs { r with phase := .discarding staged e } fs'
  | write {staged : Staged} {pace pace' : Pace} {chunk : Bytes} {fs' : Files}
      (hphase : r.phase = .writing staged pace chunk)
      (happend : fs.append staged.handle chunk = (.ok (), fs'))
      (hmoved : pace'.moved = pace.moved + chunk.length) :
      Moves dest r fs { r with phase := .reading staged pace' } fs'
  | unsynced {staged : Staged} {pace : Pace} {e : TransferError} {fs' : Files}
      (hphase : r.phase = .received staged pace) (hsync : fs' = fs.sync.2) :
      Moves dest r fs { r with phase := .discarding staged e } fs'
  | sync {staged : Staged} {pace : Pace} {fs' : Files} (hphase : r.phase = .received staged pace)
      (hsync : fs' = fs.sync.2) : Moves dest r fs { r with phase := .synced staged pace } fs'
  | unpromoted {staged : Staged} {pace : Pace} {e : TransferError}
      (hphase : r.phase = .synced staged pace) :
      Moves dest r fs { r with phase := .discarding staged e } fs
  | promote {staged : Staged} {pace : Pace} {report : Report} {fs' : Files}
      (hphase : r.phase = .synced staged pace)
      (hrename : fs.rename staged.path dest = (.ok (), fs')) (hsize : report.size = pace.moved) :
      Moves dest r fs { r with phase := .ending (.ok report) } fs'
  | discard {staged : Staged} {e : TransferError} (hphase : r.phase = .discarding staged e) :
      Moves dest r fs { r with phase := .ending (.error e) } (fs.remove staged.path).2
  | deregister {result : Except TransferError Report} (hphase : r.phase = .ending result) :
      Moves dest r fs { r with phase := .ended result } fs
  | rest {result : Except TransferError Report} (hphase : r.phase = .ended result) :
      Moves dest r fs r fs

/-- A step of a receiver is one of the moves. -/
theorem moves_of_step (dest : Path) (r : Receiver) (a : Ambient) (fs : Files) :
    Moves dest r fs (r.step dest a fs).1 (r.step dest a fs).2.2 := by
  unfold step
  cases hphase : r.phase with
  | fresh => exact .register hphase
  | registered =>
    dsimp only
    by_cases hempty : dest.isEmpty = true
    · rw [if_pos hempty]
      exact .refuse hphase hempty
    · rw [if_neg hempty]
      obtain ⟨made, hmade⟩ := prepareFolder_furnished (Prod.eta (prepareFolder dest fs)).symm
      cases hprepare : prepareFolder dest fs with
      | mk ready fs' =>
        have hfs : fs' = (prepareFolder dest fs).2 := by rw [hprepare]
        cases ready with
        | error e => exact hfs ▸ .furnish hphase hmade (.inr ⟨e, by rw [hprepare], rfl⟩)
        | ok => exact hfs ▸ .furnish hphase hmade (.inl ⟨by rw [hprepare], rfl⟩)
  | ready =>
    dsimp only
    cases hmake : Staged.make dest fs with
    | mk made fs' =>
      rcases Staged.make_cases hmake with ⟨staged, n, rfl, hpath, hcreated⟩ | ⟨e, rfl, hevolves⟩
      · exact .stage hphase hpath hcreated rfl
      · exact .unstaged hphase hevolves
  | reading staged pace =>
    dsimp only
    cases hread : nextChunk r.settings r.inbound a with
    | mk found rest =>
      obtain ⟨t, b⟩ := rest
      cases found with
      | error e => exact .unread hphase
      | ok octets =>
        rcases pending_of_nextChunk hread with ⟨rfl, hend⟩ | ⟨hne, hpending⟩
        · exact .finish hphase hend
        · cases octets with
          | nil => exact absurd rfl hne
          | cons o octets => exact .read hphase hpending
  | writing staged pace chunk =>
    dsimp only
    cases happend : fs.append staged.handle chunk with
    | mk written fs' =>
      cases written with
      | error f => exact .unwritten hphase happend
      | ok => exact .write hphase happend rfl
  | received staged pace =>
    dsimp only
    cases hsync : fs.sync with
    | mk synced fs' =>
      have hfs : fs' = fs.sync.2 := by rw [hsync]
      cases synced with
      | error f => exact .unsynced hphase hfs
      | ok => exact .sync hphase hfs
  | synced staged pace =>
    dsimp only
    cases hrename : fs.rename staged.path dest with
    | mk renamed fs' =>
      rcases rename_cases hrename with ⟨_, _, rfl, -⟩ | ⟨f, rfl, rfl⟩
      · exact .promote hphase hrename rfl
      · exact .unpromoted hphase
  | discarding staged e => exact .discard hphase
  | ending result => exact .deregister hphase
  | ended result =>
    obtain ⟨settings, inbound, phase⟩ := r
    exact .rest hphase

/-- Of all the steps only one gives a staged file the name of the destination. -/
theorem Moves.of_promotes {r' : Receiver} {fs' : Files} (h : Moves dest r fs r' fs')
    (hpromotes : Crowd.promotes r.phase r'.phase = true) :
    ∃ staged pace report, r.phase = .synced staged pace ∧
      fs.rename staged.path dest = (.ok (), fs') ∧ report.size = pace.moved ∧
      r' = { r with phase := .ending (.ok report) } := by
  cases h with
  | promote hphase hrename hsize => exact ⟨_, _, _, hphase, hrename, hsize, rfl⟩
  | register hphase | refuse hphase | furnish hphase | unstaged hphase | stage hphase
  | unread hphase | finish hphase | read hphase | unwritten hphase | write hphase
  | unsynced hphase | sync hphase | unpromoted hphase | discard hphase | deregister hphase
  | rest hphase =>
    rw [hphase] at hpromotes
    cases hpromotes

/-! ## A receive by itself -/

/-- A receive, its surroundings and its files, one step after the other. -/
inductive Next (dest : Path) : Receiver × Ambient × Files → Receiver × Ambient × Files → Prop where
  | step (r : Receiver) (a : Ambient) (fs : Files) : Next dest (r, a, fs) (r.step dest a fs)

/-- One step, where its outcome is known. -/
theorem next_of_step {q : Receiver × Ambient × Files} (h : r.step dest a fs = q) :
    ReflTransGen (Next dest) (r, a, fs) q :=
  h ▸ .single (.step r a fs)

/-- A receive that has staged a file reads until its stream ends, or it is to give up. -/
theorem runs_rest (dest : Path) (settings : Settings) (staged : Staged) (pace : Pace) (s : Inbound)
    (a : Ambient) (fs : Files) :
    ReflTransGen (Next dest) (⟨settings, s, .reading staged pace⟩, a, fs)
      (⟨settings, (receiveRest settings staged pace s a fs).2.1,
          match (receiveRest settings staged pace s a fs).1 with
          | .ok pace => .received staged pace
          | .error e => .discarding staged e⟩,
        (receiveRest settings staged pace s a fs).2.2.1,
        (receiveRest settings staged pace s a fs).2.2.2) := by
  -- a chunk takes two steps, one that reads it and one that writes it
  fun_induction receiveRest settings staged pace s a fs with
  | case1 pace s a fs e t b hread =>
    refine next_of_step ?_
    simp only [step, hread]
  | case2 pace s a fs t b hread =>
    refine next_of_step ?_
    simp only [step, hread]
  | case3 pace s a fs o octets t b hread f fs₁ happend =>
    -- the chunk is read, and cannot be written
    refine (next_of_step (q := (⟨settings, t, .writing staged pace (o :: octets)⟩, b, fs)) ?_).trans
      (next_of_step ?_)
    · simp only [step, hread]
    · simp only [step, happend]
  | case4 pace s a fs o octets t b hread fs₁ happend pace' clock hrecord ih =>
    refine ((next_of_step (q := (⟨settings, t, .writing staged pace (o :: octets)⟩, b, fs))
      ?_).trans (next_of_step ?_)).trans ih
    · simp only [step, hread]
    · simp only [step, happend, hrecord]

/-- A receive whose stream has ended waits for the disk and gives its file the name of the
destination, or it is to give up. -/
theorem runs_promoted (dest : Path) (settings : Settings) (staged : Staged) (pace : Pace)
    (s : Inbound) (a : Ambient) (fs : Files) :
    ReflTransGen (Next dest) (⟨settings, s, .received staged pace⟩, a, fs)
      (⟨settings, s, .ending ((promote staged dest fs).1.map fun _ =>
        ⟨.receive, dest, pace.moved, pace.elapsed a.clock⟩)⟩, a, (promote staged dest fs).2) := by
  -- where something fails, the staged file is removed in a step of its own
  have hdiscard {e : TransferError} {fs₁ : Files} : ReflTransGen (Next dest)
      (⟨settings, s, .discarding staged e⟩, a, fs₁)
      (⟨settings, s, .ending (.error e)⟩, a, (fs₁.remove staged.path).2) := next_of_step rfl
  unfold promote
  cases hsync : fs.sync with
  | mk synced fs₁ =>
    cases synced with
    | error f =>
      refine (next_of_step ?_).trans hdiscard
      simp only [step, hsync]
    | ok =>
      have hstep : ReflTransGen (Next dest) (⟨settings, s, .received staged pace⟩, a, fs)
          (⟨settings, s, .synced staged pace⟩, a, fs₁) := by
        refine next_of_step ?_
        simp only [step, hsync]
      refine hstep.trans ?_
      dsimp only
      cases hrename : fs₁.rename staged.path dest with
      | mk renamed fs₂ =>
        cases renamed with
        | ok =>
          refine next_of_step ?_
          simp only [step, hrename]
          rfl
        | error f =>
          refine (next_of_step ?_).trans hdiscard
          simp only [step, hrename]

/-- A receive whose folder is ready goes on to its result. -/
theorem runs_staged (dest : Path) (settings : Settings) (s : Inbound) (a : Ambient) (fs : Files) :
    ReflTransGen (Next dest) (⟨settings, s, .ready⟩, a, fs)
      (⟨settings, (receiveStaged settings dest s a fs).2.1,
          .ending (receiveStaged settings dest s a fs).1⟩,
        (receiveStaged settings dest s a fs).2.2.1,
        (receiveStaged settings dest s a fs).2.2.2) := by
  unfold receiveStaged
  cases hmake : Staged.make dest fs with
  | mk made fs₁ =>
    cases made with
    | error e =>
      refine next_of_step ?_
      simp only [step, hmake]
    -- staged, then read to the end, then promoted or removed
    | ok staged =>
      have hstage : ReflTransGen (Next dest) (⟨settings, s, .ready⟩, a, fs)
          (⟨settings, s, .reading staged (Pace.begin settings.baseRate.toNat a.clock)⟩,
            a, fs₁) := by
        refine next_of_step ?_
        simp only [step, hmake]
      refine hstage.trans ((runs_rest dest settings staged _ s a fs₁).trans ?_)
      dsimp only
      cases hrest : receiveRest settings staged (Pace.begin settings.baseRate.toNat a.clock) s a
          fs₁ with
      | mk found rest =>
        obtain ⟨t, b, fs₂⟩ := rest
        cases found with
        | error e => exact next_of_step rfl
        | ok pace =>
          have hpromoted := runs_promoted dest settings staged pace t b fs₂
          dsimp only
          cases hpromote : promote staged dest fs₂ with
          | mk promoted fs₃ =>
            rw [hpromote] at hpromoted
            cases promoted <;> exact hpromoted

/-- **A receive that takes its steps without interruption** is the one that the transfers run. -/
theorem runs_alone (dest : Path) (settings : Settings) (s : Inbound) (a : Ambient) (fs : Files) :
    ReflTransGen (Next dest) (⟨settings, s, .fresh⟩, a, fs)
      (⟨settings, (receiveFile settings dest s a fs).2.1,
          .ended (receiveFile settings dest s a fs).1⟩,
        (receiveFile settings dest s a fs).2.2.1,
        (receiveFile settings dest s a fs).2.2.2) := by
  -- between registering and deregistering, a receive runs as it does when it is called
  have hregistered : ReflTransGen (Next dest) (⟨settings, s, .registered⟩, a.register, fs)
      (⟨settings, (receiveRegistered settings dest s a.register fs).2.1,
          .ending (receiveRegistered settings dest s a.register fs).1⟩,
        (receiveRegistered settings dest s a.register fs).2.2.1,
        (receiveRegistered settings dest s a.register fs).2.2.2) := by
    unfold receiveRegistered
    by_cases hempty : dest.isEmpty = true
    · rw [if_pos hempty]
      refine next_of_step ?_
      simp only [step, if_pos hempty]
    · rw [if_neg hempty]
      cases hprepare : prepareFolder dest fs with
      | mk ready prepared =>
        cases ready with
        | error e =>
          refine next_of_step ?_
          simp only [step, if_neg hempty, hprepare]
        | ok =>
          refine (next_of_step (q := (⟨settings, s, .ready⟩, a.register, prepared)) ?_).trans
            (runs_staged dest settings s a.register prepared)
          simp only [step, if_neg hempty, hprepare]
  exact (next_of_step rfl).trans (hregistered.trans (next_of_step rfl))

end Receiver

end Transfer

end Courier
