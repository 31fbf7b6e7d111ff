import Courier.Proofs.Anchors
import Courier.Proofs.Course
import Courier.Proofs.Growth
import Courier.Traffic.Basic

/-!
# What parties do to the files

A step of a party lets the files grow, or stages a file, or gives a staged file the name of its
destination, or removes it. Which of these it is shows in what the party holds before and after.

Main results:

* `Deed` — what a step may do to the files.
* `Party.deed` — every step of a party is one of these.
-/

namespace Courier

open Transfer (Phase Receiver stagingPath)

/-! ## Numbers -/

namespace Files

/-- The number of a unique file was drawn for it. -/
theorem drawn_createUnique {folder : Path} {lead tail : Bytes} {mode tries : Nat} {fs fs' : Files}
    {r : Except (Fault × Path) (Path × FileHandle)}
    (h : createUnique folder lead tail mode tries fs = (r, fs')) :
    fs.drawn ≤ fs'.drawn ∧ ∀ path handle, r = .ok (path, handle) → handle.serial < fs'.drawn := by
  -- an attempt that finds the name taken has drawn a number too
  induction tries generalizing fs with
  | zero =>
    cases h
    refine ⟨Nat.le_refl _, fun path handle hr => ?_⟩
    cases hr
  | succ tries ih =>
    rw [createUnique] at h
    cases hnew : fs.createNew (folder.child (lead ++ randomName fs.drawn ++ tail)) mode with
    | mk found fs₁ =>
      rw [hnew] at h
      unfold createNew at hnew
      split at hnew
      · cases hnew
        dsimp only at h
        split at h
        · obtain ⟨hle, hlt⟩ := ih h
          exact ⟨Nat.le_of_succ_le hle, hlt⟩
        · cases h
          refine ⟨Nat.le_refl _, fun path handle hr => ?_⟩
          cases hr
      · split at hnew
        · cases hnew
          dsimp only at h
          split at h
          · obtain ⟨hle, hlt⟩ := ih h
            exact ⟨Nat.le_of_succ_le hle, hlt⟩
          · cases h
            refine ⟨Nat.le_refl _, fun path handle hr => ?_⟩
            cases hr
        · cases hnew
          cases h
          refine ⟨Nat.le_succ _, fun path handle hr => ?_⟩
          cases hr
          exact Nat.lt_succ_self _

end Files

/-- A staged file gets a number that was not drawn before. -/
theorem Staged.drawn_make {dest : Path} {fs fs' : Files} {r : Except TransferError Staged}
    (h : make dest fs = (r, fs')) :
    fs.drawn ≤ fs'.drawn ∧ ∀ staged, r = .ok staged → staged.handle.serial < fs'.drawn := by
  unfold make at h
  dsimp only at h
  split at h
  · rename_i path handle fs₁ hunique
    cases h
    obtain ⟨hle, hlt⟩ := Files.drawn_createUnique hunique
    refine ⟨hle, fun staged hr => ?_⟩
    cases hr
    exact hlt path handle rfl
  · rename_i hunique
    cases h
    refine ⟨(Files.drawn_createUnique hunique).1, fun staged hr => ?_⟩
    cases hr

/-! ## What a receive holds -/

/-- The staged file of a receive, with its destination. -/
def heldBy (q : Option (Path × Phase)) : Option (Path × Staged) :=
  q.bind fun (dest, phase) => phase.staged?.map (dest, ·)

/-- The staged file that a receive is about to remove. -/
def discardedBy (q : Option (Path × Phase)) : Option Staged :=
  q.bind fun
    | (_, .discarding staged _) => some staged
    | _ => none

/-- What a step may do to the files, when the receive of the party was `q` and is `q'`. -/
inductive Deed (q : Option (Path × Phase)) (fs : Files) : Option (Path × Phase) → Files → Prop where
  | grow {q' : Option (Path × Phase)} {fs' : Files} (hgrows : fs.Grows fs')
      (hheld : heldBy q' = heldBy q) (hdiscards : discardedBy q = none) : Deed q fs q' fs'
  | stage {q' : Option (Path × Phase)} {fs' : Files} {dest : Path} {staged : Staged} {n : Nat}
      (hnone : heldBy q = none) (hheld : heldBy q' = some (dest, staged))
      (hpath : staged.path = stagingPath dest fs.here n)
      (hcreated : fs.Created staged.path 0o644 staged.handle fs')
      (hle : fs.drawn ≤ staged.handle.serial) (hlt : staged.handle.serial < fs'.drawn) :
      Deed q fs q' fs'
  | promote {q' : Option (Path × Phase)} {fs' : Files} {dest : Path} {staged : Staged}
      (hheld : heldBy q = some (dest, staged)) (hdone : heldBy q' = none)
      (hdiscards : discardedBy q = none)
      (hrename : fs.rename staged.path dest = (.ok (), fs')) : Deed q fs q' fs'
  | discard {q' : Option (Path × Phase)} {dest : Path} {staged : Staged}
      (hheld : heldBy q = some (dest, staged)) (hdone : heldBy q' = none)
      (hdiscards : discardedBy q = some staged) : Deed q fs q' (fs.remove staged.path).2

/-- A step of a receiver is a deed. -/
theorem Transfer.Receiver.deed (dest : Path) (r : Receiver) (a : Ambient) (fs : Files) :
    Deed (some (dest, r.phase)) fs (some (dest, (r.step dest a fs).1.phase))
      (r.step dest a fs).2.2 := by
  unfold step
  cases hphase : r.phase with
  | fresh => exact .grow (.refl fs) rfl rfl
  | registered =>
    dsimp only
    by_cases hempty : dest.isEmpty = true
    · rw [if_pos hempty]
      exact .grow (.refl fs) rfl rfl
    · rw [if_neg hempty]
      obtain ⟨made, hmade⟩ := prepareFolder_furnished (Prod.eta (prepareFolder dest fs)).symm
      have hgrows := hmade.grows (congrArg Prod.fst (numbers_prepareFolder dest fs))
      cases hprepare : prepareFolder dest fs with
      | mk ready fs' =>
        rw [hprepare] at hgrows
        cases ready with
        | error e => exact .grow hgrows rfl rfl
        | ok => exact .grow hgrows rfl rfl
  | ready =>
    dsimp only
    cases hmake : Staged.make dest fs with
    | mk made fs' =>
      obtain ⟨hle, hlt⟩ := Staged.drawn_make hmake
      rcases Staged.make_cases hmake with ⟨staged, n, rfl, hpath, hcreated⟩ | ⟨e, rfl, hevolves⟩
      · exact .stage rfl rfl hpath hcreated (drawn_le_serial hmake) (hlt staged rfl)
      · exact .grow (hevolves.grows hle) rfl rfl
  | reading staged pace =>
    dsimp only
    split
    · exact .grow (.refl fs) rfl rfl
    · exact .grow (.refl fs) rfl rfl
    · exact .grow (.refl fs) rfl rfl
  | writing staged pace chunk =>
    have hgrows := Files.grows_append fs staged.handle chunk
    dsimp only
    cases happend : fs.append staged.handle chunk with
    | mk written fs' =>
      rw [happend] at hgrows
      cases written with
      | error f => exact .grow hgrows rfl rfl
      | ok =>
        dsimp only
        cases pace.record chunk.length a.clock
        exact .grow hgrows rfl rfl
  | received staged pace =>
    have hgrows := (Files.Evolves.sync fs).grows (Nat.le_of_eq (Files.drawn_sync fs).symm)
    dsimp only
    cases hsync : fs.sync with
    | mk synced fs' =>
      rw [hsync] at hgrows
      cases synced with
      | error f => exact .grow hgrows rfl rfl
      | ok => exact .grow hgrows rfl rfl
  | synced staged pace =>
    dsimp only
    cases hrename : fs.rename staged.path dest with
    | mk renamed fs' =>
      rcases Files.rename_cases hrename with ⟨_, _, rfl, -⟩ | ⟨f, rfl, rfl⟩
      · exact .promote rfl rfl rfl hrename
      · exact .grow (.refl _) rfl rfl
  | discarding staged e => exact .discard rfl rfl rfl
  | ending result => exact .grow (.refl fs) rfl rfl
  | ended result =>
    dsimp only
    rw [hphase]
    exact .grow (.refl fs) rfl rfl

/-- A step of a session is a deed of its receiver, or of none. -/
theorem Session.Moves.deed {c c' : Session.Course} {m m' : Machine} (h : Session.Moves m c c' m') :
    Deed c.stage.receive? m.files c'.stage.receive? m'.files := by
  cases h with
  | @receive ctx _ c _ _ file phase r a fs hstep =>
    have hdeed := Receiver.deed file ⟨ctx.settings, c.inbound, phase⟩ m.ambient m.files
    rw [hstep] at hdeed
    exact hdeed
  | @announce ctx => exact .grow (ctx.log.grows_note ..) rfl rfl
  | @report ctx => exact .grow (ctx.log.grows_note ..) rfl rfl
  | record => exact .grow (grows_journalize ..) rfl rfl
  | deaf | hear | refuse | locate | store | send | lack | deliver | rest
  | received | unreceived | delivered | undelivered =>
    exact .grow (.refl _) rfl rfl

/-- Every step of a party is one of the deeds. -/
theorem Party.deed (p : Party) (m : Machine) :
    Deed p.receive? m.files (p.step m).1.receive? (p.step m).2.files := by
  cases p with
  | sender s => exact .grow (.refl _) rfl rfl
  | receiver dest r => exact r.deed dest m.ambient m.files
  | session c => exact (Session.moves_of_step c m).deed

end Courier
