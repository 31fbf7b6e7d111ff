import Courier.Proofs.Send
import Courier.Session.Run

/-!
# Chunks that are too large to be held

The share of a transfer is never more than the rate of its settings. So at a rate up to the largest
buffer the room for each chunk can be made, and no transfer panics, however few of them run. Beyond
that rate a transfer panics as soon as its share is too large, before it reads anything of that
chunk.

Main results:

* `Transfer.chunkSize_le_maxBuffer` — at such a rate every chunk can be held.
* `Transfer.receiveFile_ne_panicked`, `Transfer.sendFile_ne_panicked` — so a transfer does not
  panic.
* `Session.transfer_ne_panicked` — and neither does that of a session.
-/

namespace Courier

namespace Transfer

variable {settings : Settings}

/-! ## Room for a chunk -/

/-- A share is at most the rate, but it is never nothing. -/
theorem chunkSize_le (settings : Settings) (a : Ambient) :
    chunkSize settings a ≤ max 1 settings.baseRate.toNat :=
  Nat.max_le.mpr
    ⟨Nat.le_max_left .., Nat.le_trans (Nat.div_le_self ..) (Nat.le_max_right ..)⟩

/-- An error is a panic, or is none, whatever else could have come of it. -/
theorem error_ne_panicked {α β : Type} {e : TransferError}
    (h : (.error e : Except TransferError α) ≠ .error .panicked) :
    (.error e : Except TransferError β) ≠ .error .panicked := by
  rintro ⟨⟩
  exact h rfl

/-- The rate that settings have unless they say otherwise can be held. -/
theorem baseRate_default : ({} : Settings).baseRate.toNat ≤ maxBuffer := by
  decide

/-- `p` holds of a transfer that came to `result`, unless it has panicked; and at a rate that can be
held it has not. -/
structure UnlessPanicked (settings : Settings) (result : Except TransferError Report) (p : Prop) :
    Prop where
  holds : result ≠ .error .panicked → p
  calm : settings.baseRate.toNat ≤ maxBuffer → result ≠ .error .panicked

/-- **At a rate that can be held, every chunk can be held.** -/
theorem chunkSize_le_maxBuffer (h : settings.baseRate.toNat ≤ maxBuffer) (a : Ambient) :
    chunkSize settings a ≤ maxBuffer :=
  Nat.le_trans (chunkSize_le settings a) (Nat.max_le.mpr ⟨by decide, h⟩)

/-- A chunk that cannot be held is due to the rate. -/
theorem lt_baseRate_of_lt {a : Ambient} (h : maxBuffer < chunkSize settings a) :
    maxBuffer < settings.baseRate.toNat :=
  Nat.lt_of_not_le fun hle => Nat.not_le.mpr h (chunkSize_le_maxBuffer hle a)

/-! ## Sending -/

/-- Sending does not panic if a chunk of the base rate can be held. -/
theorem sendRest_ne_panicked (h : settings.baseRate.toNat ≤ maxBuffer) (path : Path) (pace : Pace)
    (source : Inbound) (s : Outbound) (a : Ambient) :
    (sendRest settings path pace source s a).1 ≠ .error .panicked := by
  obtain ⟨q, -, hends⟩ := sendRest_run settings path pace source s a
  generalize (sendRest settings path pace source s a).2.2.1 = t at hends
  intro hpanicked
  rw [hpanicked] at hends
  -- of the ends of a send only two come with such an error
  cases hends with
  | overflowed hroom => exact Nat.not_le.mpr hroom (chunkSize_le_maxBuffer h _)
  | unwritten _ hwrite =>
    obtain ⟨n, f, he⟩ := error_of_writeChunk hwrite
    cases he

/-- **A send does not panic** at a rate that can be held. -/
theorem sendFile_ne_panicked (h : settings.baseRate.toNat ≤ maxBuffer) (fs : Files) (path : Path)
    (s : Outbound) (a : Ambient) : (sendFile settings fs path s a).1 ≠ .error .panicked := by
  unfold sendFile
  cases hstat : fs.stat path with
  | error f => exact nofun
  | ok found =>
    have hrest := sendRest_ne_panicked h path
      (Pace.begin settings.baseRate.toNat a.register.clock) (sourceOf found.2) s a.register
    dsimp only [sendChunks]
    generalize sendRest settings path (Pace.begin settings.baseRate.toNat a.register.clock)
      (sourceOf found.2) s a.register = sent at hrest ⊢
    obtain ⟨result, t, u, b⟩ := sent
    cases result with
    | ok pace => exact nofun
    | error e => exact error_ne_panicked hrest

/-! ## Receiving -/

/-- A chunk is given up with one kind of error only. -/
theorem error_of_readChunk {failures room : Nat} {s t : Inbound} {a b : Ambient}
    {e : TransferError} (h : readChunk settings failures room s a = (.error e, t, b)) :
    ∃ n f, e = .retriesExhausted .read n f := by
  -- only the last attempt ends with an error
  fun_induction readChunk settings failures room s a with
  | case1 => cases h
  | case2 _ _ _ _ _ _ _ _ _ ih => exact ih h
  | case3 =>
    cases h
    exact ⟨_, _, rfl⟩
  | case4 _ _ _ _ _ _ _ _ _ _ ih => exact ih h
  | case5 => cases h

/-- A chunk that is read in vain was tried too often, or could not be held. -/
theorem nextChunk_error {s t : Inbound} {a b : Ambient} {e : TransferError}
    (h : nextChunk settings s a = (.error e, t, b)) :
    (∃ n f, e = .retriesExhausted .read n f) ∨
      e = .panicked ∧ maxBuffer < chunkSize settings a := by
  rcases Nat.lt_or_ge maxBuffer (chunkSize settings a) with hlt | hle
  · rw [nextChunk_of_lt hlt] at h
    cases h
    exact .inr ⟨rfl, hlt⟩
  · rw [nextChunk_of_le hle] at h
    exact .inl (error_of_readChunk h)

/-- Nor does receiving. -/
theorem receiveRest_ne_panicked (h : settings.baseRate.toNat ≤ maxBuffer) (staged : Staged)
    (pace : Pace) (s : Inbound) (a : Ambient) (fs : Files) :
    (receiveRest settings staged pace s a fs).1 ≠ .error .panicked := by
  -- no chunk is longer than the base rate, so each of them can be held
  fun_induction receiveRest settings staged pace s a fs with
  | case1 pace s a fs e t b hread =>
    intro he
    cases he
    rcases nextChunk_error hread with ⟨n, f, he⟩ | ⟨-, hlt⟩
    · cases he
    · exact Nat.not_le.mpr hlt (chunkSize_le_maxBuffer h a)
  | case2 => exact nofun
  | case3 => exact nofun
  | case4 _ _ _ _ _ _ _ _ _ _ _ _ _ _ ih => exact ih

/-- Making a folder ready does not panic. -/
theorem prepareFolder_ne_panicked (dest : Path) (fs : Files) :
    (prepareFolder dest fs).1 ≠ .error .panicked := by
  unfold prepareFolder
  dsimp only
  split
  · split <;> exact nofun
  · exact nofun
  · split
    · split <;> exact nofun
    · exact nofun

/-- Making a staged file does not panic. -/
theorem make_ne_panicked (dest : Path) (fs : Files) :
    (Staged.make dest fs).1 ≠ .error .panicked := by
  unfold Staged.make
  dsimp only
  split <;> exact nofun

/-- Moving a staged file does not panic. -/
theorem promote_ne_panicked (staged : Staged) (dest : Path) (fs : Files) :
    (promote staged dest fs).1 ≠ .error .panicked := by
  unfold promote
  intro h
  split at h
  · cases h
  · split at h <;> cases h

/-- **A receive does not panic** at a rate that can be held. -/
theorem receiveFile_ne_panicked (h : settings.baseRate.toNat ≤ maxBuffer) (dest : Path)
    (s : Inbound) (a : Ambient) (fs : Files) :
    (receiveFile settings dest s a fs).1 ≠ .error .panicked := by
  unfold receiveFile receiveRegistered receiveStaged
  dsimp only
  split
  · exact nofun
  -- each part of the receive passes its own errors on
  have hprepare := prepareFolder_ne_panicked dest fs
  generalize prepareFolder dest fs = prepared at hprepare ⊢
  obtain ⟨ready, prepared⟩ := prepared
  cases ready with
  | error e => exact error_ne_panicked hprepare
  | ok =>
  have hmake := make_ne_panicked dest prepared
  dsimp only
  generalize Staged.make dest prepared = made at hmake ⊢
  obtain ⟨made, fs₁⟩ := made
  cases made with
  | error e => exact error_ne_panicked hmake
  | ok staged =>
  have hrest := receiveRest_ne_panicked h staged
    (Pace.begin settings.baseRate.toNat a.register.clock) s a.register fs₁
  dsimp only
  generalize receiveRest settings staged (Pace.begin settings.baseRate.toNat a.register.clock) s
    a.register fs₁ = received at hrest ⊢
  obtain ⟨received, t, b, fs₂⟩ := received
  cases received with
  | error e => exact error_ne_panicked hrest
  | ok pace =>
  have hpromote := promote_ne_panicked staged dest fs₂
  dsimp only
  generalize promote staged dest fs₂ = promoted at hpromote ⊢
  obtain ⟨promoted, fs₃⟩ := promoted
  cases promoted with
  | error e => exact error_ne_panicked hpromote
  | ok => exact nofun

/-- For a chunk that is too large nothing is read, nor written. -/
theorem receiveRest_of_lt {a : Ambient} (h : maxBuffer < chunkSize settings a) (staged : Staged)
    (pace : Pace) (s : Inbound) (fs : Files) :
    receiveRest settings staged pace s a fs = (.error .panicked, s, a, fs) := by
  have hnext := nextChunk_of_lt h s
  rw [receiveRest]
  split
  · rename_i h
    cases hnext.symm.trans h
    rfl
  · rename_i h
    cases hnext.symm.trans h
  · rename_i h
    cases hnext.symm.trans h

/-- **A receive whose first chunk is too large panics**, and removes what it has staged. -/
theorem receiveFile_of_lt {a : Ambient} (h : maxBuffer < chunkSize settings a.register)
    {dest : Path} {fs prepared fs₁ : Files} {staged : Staged} (hne : dest.isEmpty = false)
    (hprepare : prepareFolder dest fs = (.ok (), prepared))
    (hmake : Staged.make dest prepared = (.ok staged, fs₁)) (s : Inbound) :
    receiveFile settings dest s a fs =
      (.error .panicked, s, a.register.deregister, (fs₁.remove staged.path).2) := by
  unfold receiveFile receiveRegistered receiveStaged
  rw [if_neg (by simp [hne]), hprepare]
  dsimp only
  rw [hmake]
  dsimp only
  rw [receiveRest_of_lt h]

end Transfer

/-- Only one error is a panic. -/
theorem TransferError.eq_of_hasPanicked {α : Type} {result : Except TransferError α}
    (h : hasPanicked result = true) : result = .error .panicked := by
  unfold hasPanicked at h
  split at h
  · rfl
  · cases h

namespace Session

/-- **The transfer of a session does not panic** at a rate that can be held. -/
theorem transfer_ne_panicked {ctx : Context} (h : ctx.settings.baseRate.toNat ≤ Transfer.maxBuffer)
    (command : Command) (file : Path) (c : Connection) (m : Machine) :
    (transfer ctx command file c m).1 ≠ .error .panicked := by
  unfold transfer
  cases command with
  | store => exact Transfer.receiveFile_ne_panicked h file c.inbound m.ambient m.files
  | retrieve =>
    dsimp only
    split
    · exact Transfer.sendFile_ne_panicked h m.files file c.outbound m.ambient
    · exact nofun

/-- What has another result has not panicked. -/
theorem hasPanicked_eq_false {result : Except TransferError Report}
    (h : result ≠ .error .panicked) : TransferError.hasPanicked result = false := by
  unfold TransferError.hasPanicked
  split
  · exact absurd rfl h
  · rfl

end Session

end Courier
