import Courier.Proofs.Course
import Courier.Proofs.Overflow

/-!
# Sessions that are refused

A session may fail before its transfer begins: its header is bad, its path is refused, or there is
no file to be sent. No send and no receive fails in one of these ways, so the error of a session
tells whether its transfer has begun.

Main results:

* `Session.run_ne_panicked` — at a rate that can be held a session does not panic either.
* `Receiver.isRefused_step`, `Sender.isRefused_step` — no error of a transfer comes from before it.
* `Session.Sound.move` — a transfer begins only after a valid header, and it can be told from the
  result of a session whether one has begun.
-/

namespace Courier

/-- Whether an error comes from before a transfer: from a bad header, a refused path, or a file to
be sent that is none. -/
def TransferError.isRefusal : TransferError → Bool
  | .protocol _ => true
  | .transport (.readField _) _ => true
  | .filesystem .resolveRoot _ _ | .filesystem .resolvePath _ _ => true
  | .filesystem .requestFile _ _ => true
  | _ => false

/-- Whether a result is an error from before a transfer. -/
def Session.isRefused : Except TransferError Report → Bool
  | .ok _ => false
  | .error e => e.isRefusal

namespace Transfer

open Session (isRefused)

/-- Whether what has come of a receive, as far as that is known, is an error from before it. -/
def Phase.isRefused : Phase → Bool
  | .discarding _ e => e.isRefusal
  | .ending result | .ended result => Session.isRefused result
  | _ => false

def SendPhase.isRefused : SendPhase → Bool
  | .ending result | .ended result => Session.isRefused result
  | _ => false

/-- A chunk that cannot be read is no refusal. -/
theorem isRefusal_nextChunk {settings : Settings} {s t : Inbound} {a b : Ambient}
    {e : TransferError} (h : nextChunk settings s a = (.error e, t, b)) : e.isRefusal = false := by
  rcases nextChunk_error h with ⟨n, f, rfl⟩ | ⟨rfl, -⟩ <;> rfl

/-- Nor is one that cannot be filled. -/
theorem isRefusal_fillChunk {settings : Settings} {path : Path} {source t : Inbound}
    {a b : Ambient} {e : TransferError}
    (h : fillChunk settings path source a = (.error e, t, b)) : e.isRefusal = false := by
  rcases fillChunk_error h with ⟨-, rfl, -⟩ | ⟨-, f, rfl, -⟩ <;> rfl

/-- Nor is one that cannot be written. -/
theorem isRefusal_writeChunk {settings : Settings} {failures : Nat} {s t : Outbound} {chunk : Bytes}
    {a b : Ambient} {e : TransferError}
    (h : writeChunk settings failures s chunk a = (.error e, t, b)) : e.isRefusal = false := by
  obtain ⟨n, f, rfl⟩ := error_of_writeChunk h
  rfl

/-- Nor is a folder that does not get ready. -/
theorem isRefusal_prepareFolder {dest : Path} {fs fs' : Files} {e : TransferError}
    (h : prepareFolder dest fs = (.error e, fs')) : e.isRefusal = false := by
  unfold prepareFolder at h
  dsimp only at h
  split at h
  · split at h <;> cases h
    rfl
  · cases h
    rfl
  · split at h
    · split at h <;> cases h
      rfl
    · cases h
      rfl

/-- Nor is a file that cannot be staged. -/
theorem isRefusal_make {dest : Path} {fs fs' : Files} {e : TransferError}
    (h : Staged.make dest fs = (.error e, fs')) : e.isRefusal = false := by
  unfold Staged.make at h
  dsimp only at h
  split at h <;> cases h
  rfl

/-- A receive that has taken a step has begun. -/
theorem Receiver.begun_step (dest : Path) (r : Receiver) (a : Ambient) (fs : Files) :
    (r.step dest a fs).1.phase.begun = true := by
  unfold step
  cases hphase : r.phase <;> dsimp only <;> repeat' split
  all_goals first | rfl | rw [hphase]; rfl

/-- No error of a receive comes from before it. -/
theorem Receiver.isRefused_step (dest : Path) (r : Receiver) (a : Ambient) (fs : Files)
    (h : r.phase.isRefused = false) : (r.step dest a fs).1.phase.isRefused = false := by
  unfold step
  -- each error of a step names a file or the stream, none the path or the header
  cases hphase : r.phase with
  | fresh => rfl
  | registered =>
    dsimp only
    split
    · rfl
    · split
      · rename_i hprepare
        exact isRefusal_prepareFolder hprepare
      · rfl
  | ready =>
    dsimp only
    split
    · rename_i hmake
      exact isRefusal_make hmake
    · rfl
  | reading staged pace =>
    dsimp only
    split
    · rename_i hread
      exact isRefusal_nextChunk hread
    · rfl
    · rfl
  | writing staged pace chunk =>
    dsimp only
    split <;> rfl
  | received staged pace =>
    dsimp only
    split <;> rfl
  | synced staged pace =>
    dsimp only
    split <;> rfl
  | discarding staged e =>
    rw [hphase] at h
    exact h
  | ending result =>
    rw [hphase] at h
    exact h
  | ended result =>
    rw [hphase] at h
    dsimp only
    rw [hphase]
    exact h

/-- A send that has taken a step has begun. -/
theorem Sender.begun_step (s : Sender) (a : Ambient) (fs : Files) :
    (s.step a fs).1.phase.begun = true := by
  unfold step
  cases hphase : s.phase <;> dsimp only <;> repeat' split
  all_goals first | rfl | rw [hphase]; rfl

/-- No error of a send comes from before it. -/
theorem Sender.isRefused_step (s : Sender) (a : Ambient) (fs : Files)
    (h : s.phase.isRefused = false) : (s.step a fs).1.phase.isRefused = false := by
  unfold step
  cases hphase : s.phase with
  | fresh => rfl
  | registered =>
    dsimp only
    split
    · rfl
    · split <;> rfl
  | filling pace =>
    dsimp only
    split
    · rename_i hfill
      exact isRefusal_fillChunk hfill
    · rfl
    · rfl
  | writing pace chunk =>
    dsimp only
    split
    · rename_i hwrite
      exact isRefusal_writeChunk hwrite
    · rfl
  | flushing pace =>
    dsimp only
    split <;> rfl
  | ending result =>
    rw [hphase] at h
    exact h
  | ended result =>
    rw [hphase] at h
    dsimp only
    rw [hphase]
    exact h

end Transfer

namespace Header

/-- A field that does not come is a refusal. -/
theorem isRefusal_readField {field : HeaderField} {n : Nat} {s t : Inbound} {a b : Ambient}
    {e : TransferError} (h : readField field n s a = (.error e, t, b)) : e.isRefusal = true := by
  unfold readField at h
  split at h
  · split at h <;> cases h
    rfl
  · split at h <;> (cases h; rfl)

/-- A header that cannot be read is refused. -/
theorem isRefusal_read {s t : Inbound} {a b : Ambient} {e : TransferError}
    (h : read s a = (.error e, t, b)) : e.isRefusal = true := by
  -- an error is that of a field which is cut, or the violation that is found in it
  unfold read readCommand readPath at h
  split at h
  · rename_i hcommand
    cases h
    split at hcommand
    · rename_i hfield
      cases hcommand
      exact isRefusal_readField hfield
    · dsimp only at hcommand
      split at hcommand <;> cases hcommand
      rfl
  · split at h
    · rename_i hpath
      cases h
      split at hpath
      · rename_i hfield
        cases hpath
        exact isRefusal_readField hfield
      · dsimp only at hpath
        split at hpath
        · split at hpath
          · rename_i hfield
            cases hpath
            exact isRefusal_readField hfield
          · split at hpath <;> cases hpath
            rfl
        · cases hpath
          rfl
    · cases h

end Header

namespace Session

open Transfer (Phase SendPhase Receiver Sender)

/-- A name that leads out of the root, or nowhere, is refused. -/
theorem isRefusal_resolveFrom {fs : Files} {root : Location} {asked : Path} {reached : Location}
    {names : List Name} {e : TransferError}
    (h : resolveFrom fs root asked reached names = .error e) : e.isRefusal = true := by
  fun_induction resolveFrom fs root asked reached names with
  | case1 => cases h
  | case2 => cases h; rfl
  | case3 _ _ _ _ _ _ _ _ _ _ _ ih => exact ih h
  | case4 => cases h; rfl
  | case5 _ _ _ _ _ _ _ ih => exact ih h
  | case6 => cases h
  | case7 => cases h; rfl

/-- A path that cannot be resolved is refused. -/
theorem isRefusal_resolve {fs : Files} {root asked : Path} {e : TransferError}
    (h : resolve fs root asked = .error e) : e.isRefusal = true := by
  unfold resolve requestedNames at h
  split at h
  · rename_i hnames
    cases h
    split at hnames
    · cases hnames
      rfl
    · split at hnames <;> cases hnames
      rfl
  · split at h
    · cases h
      rfl
    · exact isRefusal_resolveFrom h

/-- **A session does not panic** at a rate that can be held. -/
theorem run_ne_panicked {ctx : Context} (h : ctx.settings.baseRate.toNat ≤ Transfer.maxBuffer)
    (peer : String) (c : Connection) (m : Machine) :
    (run ctx peer c m).1 ≠ .error .panicked := by
  -- a session that is refused has another error
  have hrefused {e : TransferError} (he : e.isRefusal = true) :
      (.error e : Except TransferError Report) ≠ .error .panicked := by
    rintro ⟨⟩
    cases he
  unfold run
  split
  · rename_i hread
    exact hrefused (Header.isRefusal_read hread)
  · unfold serve
    dsimp only
    split
    · rename_i hresolve
      exact hrefused (isRefusal_resolve hresolve)
    · exact transfer_ne_panicked h _ _ _ _

/-! ## What a session has found out -/

/-- A valid header was read from the connection. -/
def Heard (first : Course) : Prop :=
  ∃ a header t b, Header.read first.connection.inbound a = (.ok header, t, b)

/-- Whether a transfer has begun, as it can be told from how far a session has come. -/
def Stage.Shows (stage : Stage) (began : Bool) : Prop :=
  match stage with
  | .fresh | .heard _ | .announced _ | .located .. => began = false
  | .storing _ _ phase => began = phase.begun ∧ phase.isRefused = false
  | .sending _ _ _ phase => began = phase.begun ∧ phase.isRefused = false
  | .settled _ _ result | .noted _ _ result | .finished result => began = !isRefused result

/-- What is known of a session that came along as `first`. -/
structure Sound (first c : Course) : Prop where
  /-- Only a session that has a valid header, or none at all, has gone on. -/
  header : (c.stage = .fresh ∧ c.connection.inbound = first.connection.inbound) ∨
    (c.began = false ∧ ∃ e, c.stage = .finished (.error e)) ∨ Heard first
  shows : c.stage.Shows c.began

/-- A session whose transfer has begun has had a valid header. -/
theorem Sound.heard {first course : Course} (h : Sound first course)
    (hbegan : course.began = true) : Heard first := by
  have hshows := h.shows
  rcases h.header with ⟨hstage, -⟩ | ⟨hnot, -⟩ | hheard
  · rw [hstage, hbegan] at hshows
    cases hshows
  · rw [hbegan] at hnot
    cases hnot
  · exact hheard

/-- Of a session that has not begun nothing is known. -/
theorem Sound.begin {course : Course} (hstage : course.stage = .fresh)
    (hbegan : course.began = false) : Sound course course where
  header := .inl ⟨hstage, rfl⟩
  shows := by
    rw [hstage]
    exact hbegan

/-- Every step of a session keeps to what is known of it. -/
theorem Sound.move {first c c' : Course} {m m' : Machine} (h : Sound first c)
    (hmoves : Moves m c c' m') : Sound first c' := by
  obtain ⟨hheader, hshows⟩ := h
  -- a session that has not ended goes on only if it has a valid header
  have hheard (hfresh : c.stage ≠ .fresh) (hover : c.stage.isOver = false) : Heard first := by
    rcases hheader with ⟨hstage, -⟩ | ⟨-, e, hstage⟩ | hheard
    · exact absurd hstage hfresh
    · rw [hstage] at hover
      cases hover
    · exact hheard
  cases hmoves with
  | deaf hread =>
    refine ⟨.inr (.inl ⟨hshows, _, rfl⟩), hshows.trans ?_⟩
    simp [isRefused, Header.isRefusal_read hread]
  | hear hread =>
    refine ⟨.inr (.inr ?_), hshows⟩
    rcases hheader with ⟨-, hunread⟩ | ⟨-, e, hstage⟩ | hheard
    · exact ⟨_, _, _, _, hunread ▸ hread⟩
    · cases hstage
    · exact hheard
  | refuse hresolve =>
    refine ⟨.inr (.inr (hheard (by simp) rfl)), hshows.trans ?_⟩
    simp [isRefused, isRefusal_resolve hresolve]
  | store | send => exact ⟨.inr (.inr (hheard (by simp) rfl)), hshows, rfl⟩
  | receive hstep =>
    have hbegan := (Receiver.begun_step ..).symm.trans (congrArg (fun q => q.1.phase.begun) hstep)
    have hrefused := (congrArg (fun q => q.1.phase.isRefused) hstep).symm.trans
      (Receiver.isRefused_step _ _ _ _ hshows.2)
    exact ⟨.inr (.inr (hheard (by simp) rfl)), hbegan, hrefused⟩
  | deliver hstep =>
    have hbegan := (Sender.begun_step ..).symm.trans (congrArg (fun q => q.1.phase.begun) hstep)
    have hrefused := (congrArg (fun q => q.1.phase.isRefused) hstep).symm.trans
      (Sender.isRefused_step _ _ _ hshows.2)
    exact ⟨.inr (.inr (hheard (by simp) rfl)), hbegan, hrefused⟩
  | received | unreceived | delivered | undelivered =>
    obtain ⟨hbegan, hrefused⟩ := hshows
    refine ⟨.inr (.inr (hheard (by simp) rfl)), hbegan.trans ?_⟩
    exact (congrArg not hrefused).symm
  | announce | locate | lack | report | record =>
    exact ⟨.inr (.inr (hheard (by simp) rfl)), hshows⟩
  | rest => exact ⟨hheader, hshows⟩

end Session

end Courier
