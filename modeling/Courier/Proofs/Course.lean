import Courier.Proofs.Receiver
import Courier.Proofs.Sender
import Courier.Proofs.Session
import Courier.Session.Course

/-!
# The steps of a session

A session that takes its steps without interruption is the one that a listener runs. Its transfer
is the send or the receive that runs alone, one step of the session for each of theirs.

Main results:

* `Session.moves_of_step` — what each step of a session does, with all that it has found out.
* `Session.runs_transfer` — the steps between the path that is resolved and the result.
* `Session.runs_alone` — all the steps of a session make up `Session.run`.
-/

namespace Courier

namespace Session

open Relation
open Transfer (Phase SendPhase Receiver Sender)

variable {ctx : Context} {peer : String} {c : Connection} {m : Machine} {header : Header}
  {file : Path}

/-! ## What a step does -/

/-- The steps of a session on a machine, and what each leads to. -/
inductive Moves (m : Machine) : Course → Course → Machine → Prop where
  | deaf {ctx : Context} {peer : String} {c : Connection} {began : Bool} {e : TransferError}
      {t : Inbound} {a : Ambient} (hread : Header.read c.inbound m.ambient = (.error e, t, a)) :
      Moves m ⟨ctx, peer, c, .fresh, began⟩
        ⟨ctx, peer, { c with inbound := t }, .finished (.error e), began⟩ { m with ambient := a }
  | hear {ctx : Context} {peer : String} {c : Connection} {began : Bool} {header : Header}
      {t : Inbound} {a : Ambient} (hread : Header.read c.inbound m.ambient = (.ok header, t, a)) :
      Moves m ⟨ctx, peer, c, .fresh, began⟩
        ⟨ctx, peer, { c with inbound := t }, .heard header, began⟩ { m with ambient := a }
  | announce {ctx : Context} {peer : String} {c : Connection} {began : Bool} {header : Header} :
      Moves m ⟨ctx, peer, c, .heard header, began⟩ ⟨ctx, peer, c, .announced header, began⟩
        (m.mapFiles (ctx.log.note m.ambient.clock (.session peer header.command header.path)))
  | refuse {ctx : Context} {peer : String} {c : Connection} {began : Bool} {header : Header}
      {e : TransferError} (hresolve : resolve m.files ctx.root (.of header.path) = .error e) :
      Moves m ⟨ctx, peer, c, .announced header, began⟩
        ⟨ctx, peer, c, .finished (.error e), began⟩ m
  | locate {ctx : Context} {peer : String} {c : Connection} {began : Bool} {header : Header}
      {l : Location} (hresolve : resolve m.files ctx.root (.of header.path) = .ok l) :
      Moves m ⟨ctx, peer, c, .announced header, began⟩
        ⟨ctx, peer, c, .located header (Files.pathOf l), began⟩ m
  | store {ctx : Context} {peer : String} {c : Connection} {began : Bool} {header : Header}
      {file : Path} (hcommand : header.command = .store) :
      Moves m ⟨ctx, peer, c, .located header file, began⟩
        ⟨ctx, peer, c, .storing header file .fresh, began⟩ m
  | send {ctx : Context} {peer : String} {c : Connection} {began : Bool} {header : Header}
      {file : Path} (hcommand : header.command = .retrieve) (hfile : m.files.isFile file = true) :
      Moves m ⟨ctx, peer, c, .located header file, began⟩
        ⟨ctx, peer, c, .sending header file (.of []) .fresh, began⟩ m
  | lack {ctx : Context} {peer : String} {c : Connection} {began : Bool} {header : Header}
      {file : Path} (hcommand : header.command = .retrieve) (hfile : ¬ m.files.isFile file = true) :
      Moves m ⟨ctx, peer, c, .located header file, began⟩
        ⟨ctx, peer, c,
          .settled header file (.error (.filesystem .requestFile file noRegularFile)), began⟩ m
  | receive {ctx : Context} {peer : String} {c : Connection} {began : Bool} {header : Header}
      {file : Path} {phase : Phase} {r : Receiver} {a : Ambient} {fs : Files}
      (hstep : Receiver.step file ⟨ctx.settings, c.inbound, phase⟩ m.ambient m.files = (r, a, fs)) :
      Moves m ⟨ctx, peer, c, .storing header file phase, began⟩
        ⟨ctx, peer, { c with inbound := r.inbound }, .storing header file r.phase, true⟩
        { m with ambient := a, files := fs }
  | received {ctx : Context} {peer : String} {c : Connection} {began : Bool} {header : Header}
      {file : Path} {result : Except TransferError Report}
      (hend : TransferError.hasPanicked result = false) :
      Moves m ⟨ctx, peer, c, .storing header file (.ended result), began⟩
        ⟨ctx, peer, c, .settled header file result, began⟩ m
  | unreceived {ctx : Context} {peer : String} {c : Connection} {began : Bool} {header : Header}
      {file : Path} {result : Except TransferError Report}
      (hend : TransferError.hasPanicked result = true) :
      Moves m ⟨ctx, peer, c, .storing header file (.ended result), began⟩
        ⟨ctx, peer, c, .finished result, began⟩ m
  | deliver {ctx : Context} {peer : String} {c : Connection} {began : Bool} {header : Header}
      {file : Path} {source : Inbound} {phase : SendPhase} {s : Sender} {a : Ambient}
      (hstep : Sender.step ⟨ctx.settings, some file, source, c.outbound, phase⟩ m.ambient m.files =
        (s, a)) :
      Moves m ⟨ctx, peer, c, .sending header file source phase, began⟩
        ⟨ctx, peer, { c with outbound := s.outbound }, .sending header file s.source s.phase, true⟩
        { m with ambient := a }
  | delivered {ctx : Context} {peer : String} {c : Connection} {began : Bool} {header : Header}
      {file : Path} {source : Inbound} {result : Except TransferError Report}
      (hend : TransferError.hasPanicked result = false) :
      Moves m ⟨ctx, peer, c, .sending header file source (.ended result), began⟩
        ⟨ctx, peer, c, .settled header file result, began⟩ m
  | undelivered {ctx : Context} {peer : String} {c : Connection} {began : Bool} {header : Header}
      {file : Path} {source : Inbound} {result : Except TransferError Report}
      (hend : TransferError.hasPanicked result = true) :
      Moves m ⟨ctx, peer, c, .sending header file source (.ended result), began⟩
        ⟨ctx, peer, c, .finished result, began⟩ m
  | report {ctx : Context} {peer : String} {c : Connection} {began : Bool} {header : Header}
      {file : Path} {result : Except TransferError Report} :
      Moves m ⟨ctx, peer, c, .settled header file result, began⟩
        ⟨ctx, peer, c, .noted header file result, began⟩
        (m.mapFiles (ctx.log.note m.ambient.clock (eventOf header.command file result)))
  | record {ctx : Context} {peer : String} {c : Connection} {began : Bool} {header : Header}
      {file : Path} {result : Except TransferError Report} :
      Moves m ⟨ctx, peer, c, .noted header file result, began⟩
        ⟨ctx, peer, c, .finished result, began⟩
        (journalize ctx header.command peer file result m)
  | rest {ctx : Context} {peer : String} {c : Connection} {began : Bool}
      {result : Except TransferError Report} :
      Moves m ⟨ctx, peer, c, .finished result, began⟩ ⟨ctx, peer, c, .finished result, began⟩ m

/-- A step of a session is one of the moves. -/
theorem moves_of_step (course : Course) (m : Machine) :
    Moves m course (course.step m).1 (course.step m).2 := by
  obtain ⟨ctx, peer, c, stage, began⟩ := course
  unfold Course.step
  cases stage with
  | fresh =>
    dsimp only
    split
    · rename_i hread
      exact .deaf hread
    · rename_i hread
      exact .hear hread
  | heard header => exact .announce
  | announced header =>
    dsimp only
    split
    · rename_i hresolve
      exact .refuse hresolve
    · rename_i hresolve
      exact .locate hresolve
  | located header file =>
    dsimp only
    split
    · rename_i hcommand
      exact .store hcommand
    · rename_i hcommand
      split
      · rename_i hfile
        exact .send hcommand hfile
      · rename_i hfile
        exact .lack hcommand hfile
  | storing header file phase =>
    cases phase with
    | ended result =>
      dsimp only
      cases hend : TransferError.hasPanicked result with
      | true =>
        rw [Stage.afterTransfer_of_panicked hend]
        exact .unreceived hend
      | false =>
        rw [Stage.afterTransfer_of_not hend]
        exact .received hend
    | _ => exact .receive rfl
  | sending header file source phase =>
    cases phase with
    | ended result =>
      dsimp only
      cases hend : TransferError.hasPanicked result with
      | true =>
        rw [Stage.afterTransfer_of_panicked hend]
        exact .undelivered hend
      | false =>
        rw [Stage.afterTransfer_of_not hend]
        exact .delivered hend
    | _ => exact .deliver rfl
  | settled header file result => exact .report
  | noted header file result => exact .record
  | finished result => exact .rest

/-! ## A session by itself -/

/-- A session and its machine, one step after the other. -/
inductive Next : Course × Machine → Course × Machine → Prop where
  | step (c : Course) (m : Machine) : Next (c, m) (c.step m)

/-- One step, where its outcome is known. -/
theorem next_of_step {course : Course} {q : Course × Machine} (h : course.step m = q) :
    ReflTransGen Next (course, m) q :=
  h ▸ .single (.step course m)

section Receive

/-- A session at its receive, with all that the receive has come to. -/
def atReceive (ctx : Context) (peer : String) (outbound : Outbound) (m : Machine) (header : Header)
    (file : Path) (q : Receiver × Ambient × Files) : Course × Machine :=
  ({ ctx, peer
     connection := ⟨q.1.inbound, outbound⟩
     stage := .storing header file q.1.phase
     began := true }, { m with ambient := q.2.1, files := q.2.2 })

/-- While its receive has not ended, a session takes the steps of the receive. -/
theorem step_storing {phase : Phase} (began : Bool) (hphase : phase.isEnded = false) :
    Course.step ⟨ctx, peer, c, .storing header file phase, began⟩ m =
      atReceive ctx peer c.outbound m header file
        (Receiver.step file ⟨ctx.settings, c.inbound, phase⟩ m.ambient m.files) := by
  cases phase with
  | ended result => cases hphase
  | _ => rfl

/-- A receive keeps its settings. -/
theorem settings_of_moves {r r' : Receiver} {fs fs' : Files}
    (h : Receiver.Moves file r fs r' fs') : r'.settings = r.settings := by
  cases h <;> rfl

/-- The steps of a receiver are steps of the session that runs it. -/
theorem runs_receive {q q' : Receiver × Ambient × Files} (outbound : Outbound)
    (hsettings : q.1.settings = ctx.settings) (h : ReflTransGen (Receiver.Next file) q q') :
    q'.1.settings = ctx.settings ∧
      ReflTransGen Next (atReceive ctx peer outbound m header file q)
        (atReceive ctx peer outbound m header file q') := by
  -- the settings are those of the context at every step, so that the session does the same
  induction h with
  | refl => exact ⟨hsettings, .refl⟩
  | tail _ hnext ih =>
    obtain ⟨hr, hruns⟩ := ih
    cases hnext with
    | step r a fs =>
      refine ⟨(settings_of_moves (Receiver.moves_of_step file r a fs)).trans hr, hruns.trans ?_⟩
      obtain ⟨settings, inbound, phase⟩ := r
      obtain rfl : settings = ctx.settings := hr
      cases hphase : phase.isEnded with
      | false => exact next_of_step (step_storing true hphase)
      | true =>
        -- a receive that has ended takes no more steps
        cases phase with
        | ended result => exact .refl
        | _ => cases hphase

end Receive

section Send

/-- A session at its send, with all that the send has come to. -/
def atSend (ctx : Context) (peer : String) (inbound : Inbound) (m : Machine) (header : Header)
    (file : Path) (q : Sender × Ambient) : Course × Machine :=
  ({ ctx, peer
     connection := ⟨inbound, q.1.outbound⟩
     stage := .sending header file q.1.source q.1.phase
     began := true }, { m with ambient := q.2 })

/-- A session that is sending takes the step of its sender. -/
theorem step_sending {source : Inbound} {phase : SendPhase} (began : Bool)
    (hphase : phase.isEnded = false) :
    Course.step ⟨ctx, peer, c, .sending header file source phase, began⟩ m =
      atSend ctx peer c.inbound m header file
        (Sender.step ⟨ctx.settings, some file, source, c.outbound, phase⟩ m.ambient m.files) := by
  cases phase with
  | ended result => cases hphase
  | _ => rfl

/-- A send keeps its settings and what it sends. -/
theorem fixed_step (s : Sender) (a : Ambient) (fs : Files) :
    (s.step a fs).1.settings = s.settings ∧ (s.step a fs).1.file = s.file := by
  unfold Sender.step
  split
  · exact ⟨rfl, rfl⟩
  · split
    · exact ⟨rfl, rfl⟩
    · split <;> exact ⟨rfl, rfl⟩
  · split <;> exact ⟨rfl, rfl⟩
  · split <;> exact ⟨rfl, rfl⟩
  · split <;> exact ⟨rfl, rfl⟩
  · exact ⟨rfl, rfl⟩
  · exact ⟨rfl, rfl⟩

/-- The steps of a sender are steps of the session that runs it. -/
theorem runs_send {q q' : Sender × Ambient} (inbound : Inbound)
    (hfixed : q.1.settings = ctx.settings ∧ q.1.file = some file)
    (h : ReflTransGen (Sender.Next m.files) q q') :
    (q'.1.settings = ctx.settings ∧ q'.1.file = some file) ∧
      ReflTransGen Next (atSend ctx peer inbound m header file q)
        (atSend ctx peer inbound m header file q') := by
  -- as for a receive, and the file that is sent stays the same too
  induction h with
  | refl => exact ⟨hfixed, .refl⟩
  | tail _ hnext ih =>
    obtain ⟨⟨hsettings, hfile⟩, hruns⟩ := ih
    cases hnext with
    | step s a =>
      have hstep := fixed_step s a m.files
      refine ⟨⟨hstep.1.trans hsettings, hstep.2.trans hfile⟩, hruns.trans ?_⟩
      obtain ⟨settings, source?, source, outbound, phase⟩ := s
      obtain rfl : settings = ctx.settings := hsettings
      obtain rfl : source? = some file := hfile
      cases hphase : phase.isEnded with
      | false => exact next_of_step (step_sending true hphase)
      | true =>
        cases phase with
        | ended result => exact .refl
        | _ => cases hphase

end Send

/-- The part of a session between the path that is resolved and the result of the transfer. -/
theorem runs_transfer (ctx : Context) (peer : String) (header : Header) (file : Path)
    (c : Connection) (m : Machine) :
    ∃ began, ReflTransGen Next (⟨ctx, peer, c, .located header file, false⟩, m)
      (⟨ctx, peer, (transfer ctx header.command file c m).2.1,
          .afterTransfer header file (transfer ctx header.command file c m).1, began⟩,
        (transfer ctx header.command file c m).2.2) := by
  unfold transfer
  cases hcommand : header.command with
  | store =>
    have hlocated : ReflTransGen Next (⟨ctx, peer, c, .located header file, false⟩, m)
        (⟨ctx, peer, c, .storing header file .fresh, false⟩, m) := by
      refine next_of_step ?_
      simp only [Course.step, hcommand]
    have hregister : ReflTransGen Next (⟨ctx, peer, c, .storing header file .fresh, false⟩, m)
        (atReceive ctx peer c.outbound m header file
          (⟨ctx.settings, c.inbound, .registered⟩, m.ambient.register, m.files)) :=
      next_of_step rfl
    -- what follows the first step of the receive is what follows it when it runs alone
    rcases (Receiver.runs_alone file ctx.settings c.inbound m.ambient m.files).cases_head with
      heq | ⟨_, hfirst, hrest⟩
    · cases congrArg (fun q => q.1.phase) heq
    · cases hfirst with
      | step =>
        have hruns := hregister.trans (runs_receive c.outbound (by rfl) hrest).2
        exact ⟨true, (hlocated.trans hruns).trans (next_of_step rfl)⟩
  | retrieve =>
    dsimp only
    by_cases hfile : m.files.isFile file = true
    · rw [if_pos hfile]
      have hlocated : ReflTransGen Next (⟨ctx, peer, c, .located header file, false⟩, m)
          (⟨ctx, peer, c, .sending header file (.of []) .fresh, false⟩, m) := by
        refine next_of_step ?_
        simp only [Course.step, hcommand, if_pos hfile]
      have hregister : ReflTransGen Next
          (⟨ctx, peer, c, .sending header file (.of []) .fresh, false⟩, m)
          (atSend ctx peer c.inbound m header file
            (⟨ctx.settings, some file, .of [], c.outbound, .registered⟩, m.ambient.register)) :=
        next_of_step rfl
      obtain ⟨source, halone⟩ :=
        Sender.runs_file ctx.settings m.files file c.outbound m.ambient
      rcases halone.cases_head with heq | ⟨_, hfirst, hrest⟩
      · cases congrArg (fun q => q.1.phase) heq
      · cases hfirst with
        | step =>
          have hruns := hregister.trans (runs_send c.inbound ⟨rfl, rfl⟩ hrest).2
          exact ⟨true, (hlocated.trans hruns).trans (next_of_step rfl)⟩
    · rw [if_neg hfile]
      refine ⟨false, next_of_step ?_⟩
      simp only [Course.step, hcommand, if_neg hfile]
      -- for want of a file there is no panic
      rw [Stage.afterTransfer_of_not rfl]

/-- What follows the transfer of a session is what is written down of it. -/
theorem runs_concluded (ctx : Context) (peer : String) (c : Connection) (header : Header)
    (file : Path) (result : Except TransferError Report) (began : Bool) (m : Machine) :
    ReflTransGen Next (⟨ctx, peer, c, .afterTransfer header file result, began⟩, m)
      (⟨ctx, peer, c, .finished result, began⟩,
        conclude ctx header.command peer file result m) := by
  cases hend : TransferError.hasPanicked result with
  | true =>
    -- the session is over already, and nothing is written down
    rw [Stage.afterTransfer_of_panicked hend]
    unfold conclude
    rw [hend]
    exact .refl
  | false =>
    rw [Stage.afterTransfer_of_not hend, conclude_of_not hend]
    exact (next_of_step rfl).trans (next_of_step rfl)

/-- **A session that takes its steps without interruption** is the one that a listener runs. -/
theorem runs_alone (ctx : Context) (peer : String) (c : Connection) (m : Machine) :
    ∃ began, ReflTransGen Next (⟨ctx, peer, c, .fresh, false⟩, m)
      (⟨ctx, peer, (run ctx peer c m).2.1, .finished (run ctx peer c m).1, began⟩,
        (run ctx peer c m).2.2) := by
  unfold run
  cases hread : Header.read c.inbound m.ambient with
  | mk found rest =>
    obtain ⟨t, b⟩ := rest
    cases found with
    | error e =>
      refine ⟨false, next_of_step ?_⟩
      simp only [Course.step, hread]
    | ok header =>
      have hheard : ReflTransGen Next (⟨ctx, peer, c, .fresh, false⟩, m)
          (⟨ctx, peer, { c with inbound := t }, .heard header, false⟩,
            { m with ambient := b }) := by
        refine next_of_step ?_
        simp only [Course.step, hread]
      unfold serve
      dsimp only
      generalize hm : ({ m with ambient := b } : Machine).mapFiles
        (ctx.log.note b.clock (.session peer header.command header.path)) = announced
      have hannounced : ReflTransGen Next
          (⟨ctx, peer, { c with inbound := t }, .heard header, false⟩, { m with ambient := b })
          (⟨ctx, peer, { c with inbound := t }, .announced header, false⟩, announced) :=
        next_of_step (hm ▸ rfl)
      cases hresolve : resolve announced.files ctx.root (.of header.path) with
      | error e =>
        refine ⟨false, (hheard.trans hannounced).trans (next_of_step ?_)⟩
        simp only [Course.step, hresolve]
      -- it reads, notes, locates, transfers and notes the end: the runs of these parts are put
      -- together
      | ok location =>
        have hlocated : ReflTransGen Next
            (⟨ctx, peer, { c with inbound := t }, .announced header, false⟩, announced)
            (⟨ctx, peer, { c with inbound := t }, .located header (Files.pathOf location), false⟩,
              announced) := by
          refine next_of_step ?_
          simp only [Course.step, hresolve]
        obtain ⟨began, htransfer⟩ := runs_transfer ctx peer header (Files.pathOf location)
          { c with inbound := t } announced
        exact ⟨began, (((hheard.trans hannounced).trans hlocated).trans htransfer).trans
          (runs_concluded ctx peer _ header (Files.pathOf location) _ began _)⟩

end Session

end Courier
