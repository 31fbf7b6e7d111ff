import Courier.Proofs.EventLines
import Courier.Proofs.Refusal
import Courier.Proofs.Unseen

/-!
# The outcome of every session is on record

A listener keeps a log and a journal outside of what it serves. A session whose path is resolved is
told of twice in the log, when its header is there and when its transfer is over, and once in the
journal, and what is told at the end is what the session came to. A session that does not get that
far leaves at most the line for its header, and so does one whose transfer panics; at a rate that
can be held none does.

Main results:

* `Session.Account`, `Session.Logged` — what is told of a session, by what it came to.
* `Session.Attached` — a listener whose log and journal are outside of what it serves.
* `Session.Attached.run` — one session.
* `Session.run_outcomes` — sessions one after the other.
* `Session.run_unrecorded` — a session that panics is on no record.
-/

namespace Courier

open Files

/-! ## What is reported -/

namespace Transfer

/-- What is received goes where it was to go. -/
theorem report_of_receive {settings : Settings} {dest : Path} {s : Inbound} {a : Ambient}
    {fs : Files} {report : Report} (h : (receiveFile settings dest s a fs).1 = .ok report) :
    ∃ size elapsed, report = ⟨.receive, dest, size, elapsed⟩ := by
  unfold receiveFile receiveRegistered receiveStaged at h
  dsimp only at h
  split at h
  · cases h
  split at h
  · cases h
  split at h
  · cases h
  split at h
  · cases h
  split at h
  · cases h
  · cases h
    exact ⟨_, _, rfl⟩

/-- The report of a send says so and names the path that was sent. -/
theorem report_of_send {settings : Settings} {fs : Files} {path : Path} {s : Outbound}
    {a : Ambient} {report : Report} (h : (sendFile settings fs path s a).1 = .ok report) :
    ∃ size elapsed, report = ⟨.send, path, size, elapsed⟩ := by
  unfold sendFile at h
  dsimp only at h
  split at h
  · cases h
  · rename_i l entry hstat
    cases hsent : (sendChunks settings path (sourceOf entry) s a.register).1 with
    | error e =>
      rw [hsent] at h
      cases h
    | ok pace =>
      rw [hsent] at h
      cases h
      exact ⟨_, _, rfl⟩

end Transfer

namespace Session

/-- The report of a transfer says which way it went and names its file. -/
theorem report_of_transfer {ctx : Context} {command : Command} {file : Path} {c : Connection}
    {m : Machine} {report : Report} (h : (transfer ctx command file c m).1 = .ok report) :
    ∃ size elapsed, report = ⟨direction command, file, size, elapsed⟩ := by
  cases command with
  | store => exact Transfer.report_of_receive h
  | retrieve =>
    unfold transfer at h
    dsimp only at h
    split at h
    · exact Transfer.report_of_send h
    · cases h

/-! ## What is told -/

/-- What is told of a session: events in the log, and records in the journal. -/
structure Account where
  events : List (Clock × Event)
  records : List Record
deriving DecidableEq, Repr, Inhabited

/-- What is told of sessions, in their order. -/
def Account.all (accounts : List Account) : Account :=
  ⟨accounts.flatMap Account.events, accounts.flatMap Account.records⟩

/-- What is told of a session that came to some result, and was over at the time `after`. -/
inductive Logged (ctx : Context) (peer : String) (c : Connection) (m : Machine) (after : Clock) :
    Except TransferError Report → Account → Prop where
  /-- Without a header, nothing. -/
  | deaf {e : TransferError} {t : Inbound} {b : Ambient}
      (hread : Header.read c.inbound m.ambient = (.error e, t, b)) :
      Logged ctx peer c m after (.error e) ⟨[], []⟩
  /-- Where the path is not resolved, only that there was a header. -/
  | refused {header : Header} {t : Inbound} {b : Ambient} {e : TransferError}
      (hread : Header.read c.inbound m.ambient = (.ok header, t, b))
      (hresolve : resolve m.files ctx.root (.of header.path) = .error e) :
      Logged ctx peer c m after (.error e)
        ⟨[(b.clock, .session peer header.command header.path)], []⟩
  | completed {header : Header} {t : Inbound} {b : Ambient} {d : Location} {size elapsed : Nat}
      {id : String} (hread : Header.read c.inbound m.ambient = (.ok header, t, b))
      (hresolve : resolve m.files ctx.root (.of header.path) = .ok d) :
      Logged ctx peer c m after (.ok ⟨direction header.command, pathOf d, size, elapsed⟩)
        ⟨[(b.clock, .session peer header.command header.path),
          (after, .done (direction header.command) (pathOf d) size (Double.seconds elapsed))],
        [{  timestamp := Timestamp.render after.wall
            id
            direction := direction header.command
            peer
            path := pathOf d
            status := .completed
            size := size.toUInt64
            error := none }]⟩
  /-- Where the transfer panics, only that there was a header. -/
  | panicked {header : Header} {t : Inbound} {b : Ambient} {d : Location}
      (hread : Header.read c.inbound m.ambient = (.ok header, t, b))
      (hresolve : resolve m.files ctx.root (.of header.path) = .ok d) :
      Logged ctx peer c m after (.error .panicked)
        ⟨[(b.clock, .session peer header.command header.path)], []⟩
  | failed {header : Header} {t : Inbound} {b : Ambient} {d : Location} {e : TransferError}
      {id : String} (hread : Header.read c.inbound m.ambient = (.ok header, t, b))
      (hresolve : resolve m.files ctx.root (.of header.path) = .ok d) (hcalm : e ≠ .panicked) :
      Logged ctx peer c m after (.error e)
        ⟨[(b.clock, .session peer header.command header.path),
          (after, .error header.command.text (pathOf d) e.text)],
        [{  timestamp := Timestamp.render after.wall
            id
            direction := direction header.command
            peer
            path := pathOf d
            status := .failed
            size := 0
            error := some e.text }]⟩

variable {ctx : Context} {peer : String} {header : Header} {c : Connection} {m : Machine}

/-- What is told of a transfer that has not panicked is what it came to. -/
theorem logged_of_transfer {t : Inbound} {b : Ambient} {d : Location} {c' c'' : Connection}
    {m' n : Machine} {result : Except TransferError Report}
    (hread : Header.read c.inbound m.ambient = (.ok header, t, b))
    (hresolve : resolve m.files ctx.root (.of header.path) = .ok d)
    (htransfer : transfer ctx header.command (pathOf d) c' m' = (result, c'', n))
    (hcalm : TransferError.hasPanicked result = false) (id : Nat) (after : Clock) :
    Logged ctx peer c m after result
      ⟨[(b.clock, .session peer header.command header.path),
        (after, eventOf header.command (pathOf d) result)],
      [recordOf after id header.command peer (pathOf d) result]⟩ := by
  cases result with
  | error e =>
    refine .failed hread hresolve ?_
    rintro rfl
    cases hcalm
  | ok report =>
    obtain ⟨size, elapsed, rfl⟩ := report_of_transfer (congrArg Prod.fst htransfer)
    exact .completed hread hresolve

/-- A session has one record if its path is resolved and it does not panic. -/
theorem Logged.one_record {after : Clock} {result : Except TransferError Report}
    {account : Account} (h : Logged ctx peer c m after result account) {t : Inbound} {b : Ambient}
    {d : Location} (hread : Header.read c.inbound m.ambient = (.ok header, t, b))
    (hresolve : resolve m.files ctx.root (.of header.path) = .ok d)
    (hcalm : result ≠ .error .panicked) :
    ∃ r, account.records = [r] ∧ r.direction = direction header.command ∧ r.peer = peer ∧
      r.path = pathOf d ∧ (r.status = .completed ↔ ∃ report, result = .ok report) := by
  cases h with
  | deaf hread' =>
    cases hread.symm.trans hread'
  | refused hread' hresolve' =>
    cases hread.symm.trans hread'
    cases hresolve.symm.trans hresolve'
  | panicked => exact absurd rfl hcalm
  | completed hread' hresolve' =>
    cases hread.symm.trans hread'
    cases hresolve.symm.trans hresolve'
    exact ⟨_, rfl, rfl, rfl, rfl, by simp⟩
  | failed hread' hresolve' =>
    cases hread.symm.trans hread'
    cases hresolve.symm.trans hresolve'
    exact ⟨_, rfl, rfl, rfl, rfl, by simp⟩

/-- One that panics has no record, and only the line for its header. -/
theorem Logged.unrecorded {after : Clock} {account : Account}
    (h : Logged ctx peer c m after (.error .panicked) account) {t : Inbound} {b : Ambient}
    {d : Location} (hread : Header.read c.inbound m.ambient = (.ok header, t, b))
    (hresolve : resolve m.files ctx.root (.of header.path) = .ok d) :
    ∃ e, account = ⟨[e], []⟩ := by
  cases h with
  | deaf hread' => cases hread.symm.trans hread'
  | refused hread' hresolve' =>
    cases hread.symm.trans hread'
    cases hresolve.symm.trans hresolve'
  | panicked => exact ⟨_, rfl⟩
  | failed _ _ hcalm => exact absurd rfl hcalm

/-! ## What is added -/

/-- The files have got longer by what is told, as far as there is room. -/
structure Adds (handle : FileHandle) (journal : Path) (fs : Files) (account : Account)
    (fs' : Files) : Prop where
  sizeLimit : fs'.sizeLimit = fs.sizeLimit
  log : ∀ mode content, fs.Holds handle mode content →
    fs.Room (content ++ EventLog.written account.events).length →
    fs'.Holds handle mode (content ++ EventLog.written account.events)
  journal : ∀ content, Journal.Keeps journal fs content →
    fs.Room (content ++ Journal.written account.records).length →
    Journal.Keeps journal fs' (content ++ Journal.written account.records)

section Adds

variable {handle : FileHandle} {journal : Path} {fs fs' fs'' : Files} {account : Account}

/-- Adding nothing. -/
theorem Adds.refl (handle : FileHandle) (journal : Path) (fs : Files) :
    Adds handle journal fs ⟨[], []⟩ fs where
  sizeLimit := rfl
  log := fun mode content hholds _ => by simpa using hholds
  journal := fun content hkeeps _ => by simpa using hkeeps

/-- What is added in two goes is added in this order. -/
theorem Adds.trans {events events' : List (Clock × Event)} {records records' : List Record}
    (h : Adds handle journal fs ⟨events, records⟩ fs')
    (h' : Adds handle journal fs' ⟨events', records'⟩ fs'') :
    Adds handle journal fs ⟨events ++ events', records ++ records'⟩ fs'' where
  sizeLimit := h'.sizeLimit.trans h.sizeLimit
  log := by
    intro mode content hholds hroom
    dsimp only at hroom ⊢
    rw [EventLog.written_append, ← List.append_assoc] at hroom ⊢
    have hfirst := h.log mode content hholds (hroom.mono rfl (by simp))
    exact h'.log mode _ hfirst (hroom.mono h.sizeLimit (Nat.le_refl _))
  journal := by
    intro content hkeeps hroom
    dsimp only at hroom ⊢
    rw [Journal.written_append, ← List.append_assoc] at hroom ⊢
    have hfirst := h.journal content hkeeps (hroom.mono rfl (by simp))
    exact h'.journal _ hfirst (hroom.mono h.sizeLimit (Nat.le_refl _))

/-- The records that are told are read after those that were there. -/
theorem Adds.read (h : Adds handle journal fs account fs') {earlier : List Record}
    (hkeeps : Journal.Keeps journal fs (Journal.written earlier))
    (hroom : fs.Room (Journal.written (earlier ++ account.records)).length)
    (htext : ∀ r ∈ earlier ++ account.records, r.isText = true) :
    Journal.read journal fs' = .ok (earlier ++ account.records) := by
  rw [Journal.written_append] at hroom
  have hadded := h.journal _ hkeeps hroom
  rw [← Journal.written_append] at hadded
  rw [hadded.read_eq, Journal.records_written htext]

end Adds

/-! ## A listener that keeps records -/

/-- A listener that serves what is below `top`, with a log that is open and a journal that is added
to at `l`. Neither is served, and they are two files. -/
structure Attached (ctx : Context) (top : Location) (handle : FileHandle) (journal : Path)
    (made : List Location) (l : Location) (fs : Files) : Prop where
  logs : ctx.log.handle = some handle
  journals : ctx.journal = some journal
  outside : ¬ top <+: handle.location
  other : l ≠ handle.location
  apart : Journal.Apart top journal fs made l
  wellFormed : fs.tree.WellFormed
  distinct : fs.tree.Distinct
  rooted : ∀ x e, fs.stat ctx.root = .ok (x, e) → x = top

namespace Attached

variable {top : Location} {handle : FileHandle} {journal : Path} {made : List Location}
  {l : Location} {fs fs' : Files}

/-- Nothing of the records comes to lie in what is served. -/
theorem contextOutside (h : Attached ctx top handle journal made l fs) : ctx.Outside top fs where
  log := by
    intro handle' hhandle
    obtain rfl := Option.some.inj (h.logs.symm.trans hhandle)
    exact h.outside
  journal := by
    intro journal' hjournal
    obtain rfl := Option.some.inj (h.journals.symm.trans hjournal)
    exact h.apart.journalOutside

/-- A line in the log is added to nothing else. -/
theorem get?_note (h : Attached ctx top handle journal made l fs) (clock : Clock) (e : Event) :
    (ctx.log.note clock e fs).tree.get? l = fs.tree.get? l := by
  refine (ctx.log.grown_note clock e fs).same ?_
  rintro ⟨handle', hhandle, hl⟩
  obtain rfl := Option.some.inj (h.logs.symm.trans hhandle)
  exact h.other hl

/-- **An event** is added to the log. -/
theorem note (h : Attached ctx top handle journal made l fs) (clock : Clock) (e : Event) :
    Adds handle journal fs ⟨[(clock, e)], []⟩ (ctx.log.note clock e fs) ∧
      Attached ctx top handle journal made l (ctx.log.note clock e fs) := by
  have hshape (x : Location) : (ctx.log.note clock e fs).tree.shape x = fs.tree.shape x :=
    EventLog.shape_note ..
  have hhere : (ctx.log.note clock e fs).here = fs.here := EventLog.here_note ..
  have hbeside : fs.Beside top made l (ctx.log.note clock e fs) :=
    (ctx.log.sameOutside_note clock e fs).beside made l
  -- an event is written to the log only, and this is not the journal
  constructor
  · constructor
    case sizeLimit =>
      exact sizeLimit_of_disk (congrArg Prod.snd (ctx.log.numbers_note clock e fs))
    case log => exact fun mode content => EventLog.holds_noteAll [(clock, e)] h.logs
    case journal =>
      intro content hkeeps _
      have hkept := h.apart.keeps hbeside (fun x s hs => (hshape x).trans hs) (h.get?_note clock e)
        hkeeps
      simpa using hkept
  · refine { h with
      apart := h.apart.mono hbeside
      wellFormed := h.wellFormed.of_shape_eq hshape
      distinct := EventLog.distinct_note _ _ _ h.distinct
      rooted := fun x entry hstat => ?_ }
    obtain ⟨entry', hstat'⟩ := stat_of_shape_eq (fun x => (hshape x).symm) hhere.symm hstat
    exact h.rooted x entry' hstat'

/-- **A transfer** adds nothing to what is told. -/
theorem inside (h : Attached ctx top handle journal made l fs) (hinside : fs.Inside top fs')
    {e : Entry} (hroot : fs.stat ctx.root = .ok (top, e)) :
    Adds handle journal fs ⟨[], []⟩ fs' ∧ Attached ctx top handle journal made l fs' := by
  have hbeside : fs.Beside top made l fs' := hinside.sameOutside.beside made l
  have hl : fs'.tree.get? l = fs.tree.get? l :=
    hinside.others l (not_strictlyBelow (h.apart.outside l (List.mem_cons_self ..)))
  obtain ⟨e', hroot'⟩ := stat_mono hinside.shown hinside.here hroot
  -- the log and the journal lie outside of `top`, so that a transfer does not reach them
  constructor
  · constructor
    case sizeLimit => exact hinside.sizeLimit
    case log =>
      intro mode content hholds _
      have hheld : fs'.Holds handle mode content :=
        (hinside.others _ (not_strictlyBelow h.outside)).trans hholds
      simpa using hheld
    case journal =>
      intro content hkeeps _
      have hkept := h.apart.keeps hbeside hinside.shown hl hkeeps
      simpa using hkept
  · exact { h with
      apart := h.apart.mono hbeside
      wellFormed := hinside.intact h.wellFormed
      distinct := hinside.distinct h.distinct
      rooted := fun x entry hstat => (Prod.mk.inj (Except.ok.inj (hstat.symm.trans hroot'))).1 }

/-- **A record** is added to the journal. -/
theorem add (h : Attached ctx top handle journal made l fs) {e : Entry}
    (hroot : fs.stat ctx.root = .ok (top, e)) (r : Record) :
    Adds handle journal fs ⟨[], [r]⟩ (Journal.add journal r fs).2 ∧
      Attached ctx top handle journal made l (Journal.add journal r fs).2 := by
  have hgrows := Journal.grows_add journal r fs
  obtain ⟨e', hroot'⟩ := stat_mono hgrows.shown hgrows.here hroot
  -- a record is written to the journal only, and the folders above it are new
  constructor
  · constructor
    case sizeLimit => exact sizeLimit_of_disk (Journal.disk_add journal r fs)
    case log =>
      intro mode content hholds _
      have hthere : fs.tree.get? handle.location ≠ none := by
        rw [hholds]
        nofun
      have hheld : (Journal.add journal r fs).2.Holds handle mode content :=
        (h.apart.get?_add r (Ne.symm h.other) hthere).trans hholds
      simpa using hheld
    case journal =>
      intro content hkeeps hroom
      dsimp only at hroom ⊢
      rw [Journal.written_singleton] at hroom ⊢
      exact h.apart.keeps_add (h.apart.heldAt hkeeps) r hroom
  · exact { h with
      apart := h.apart.mono (h.apart.beside_add r)
      wellFormed := hgrows.intact h.wellFormed
      distinct := Journal.distinct_add journal r h.distinct
      rooted := fun x entry hstat => (Prod.mk.inj (Except.ok.inj (hstat.symm.trans hroot'))).1 }

/-- The transfer of a session adds nothing to what is told. -/
theorem transfer (h : Attached ctx top handle journal made l m.files) {asked : Path}
    {d : Location} (hresolve : resolve m.files ctx.root asked = .ok d) {command : Command}
    {c' : Connection} {n : Machine} {result : Except TransferError Report}
    (htransfer : Session.transfer ctx command (pathOf d) c m = (result, c', n)) :
    Adds handle journal m.files ⟨[], []⟩ n.files ∧
      Attached ctx top handle journal made l n.files := by
  obtain ⟨x, e, hroot, -⟩ := resolve_eq_ok h.wellFormed hresolve
  obtain rfl := h.rooted _ _ hroot
  have hinside := inside_transfer ctx command c h.wellFormed hroot hresolve
  rw [htransfer] at hinside
  exact h.inside hinside hroot

/-- What follows the line for a header that is served: the transfer, a line and a record. -/
theorem transferred (h : Attached ctx top handle journal made l m.files) {asked : Path}
    {d : Location} (hresolve : resolve m.files ctx.root asked = .ok d) {command : Command}
    {c' : Connection} {n : Machine} {result : Except TransferError Report}
    (htransfer : Session.transfer ctx command (pathOf d) c m = (result, c', n)) (peer : String) :
    ∃ id, Adds handle journal m.files
        ⟨[(n.ambient.clock, eventOf command (pathOf d) result)],
          [recordOf n.ambient.clock id command peer (pathOf d) result]⟩
        (journalize ctx command peer (pathOf d) result (n.mapFiles
          (ctx.log.note n.ambient.clock (eventOf command (pathOf d) result)))).files ∧
      Attached ctx top handle journal made l
        (journalize ctx command peer (pathOf d) result (n.mapFiles
          (ctx.log.note n.ambient.clock (eventOf command (pathOf d) result)))).files := by
  obtain ⟨x, e, hroot, -⟩ := resolve_eq_ok h.wellFormed hresolve
  obtain rfl := h.rooted _ _ hroot
  have hinside := inside_transfer ctx command c h.wellFormed hroot hresolve
  rw [htransfer] at hinside
  obtain ⟨hserved, hafter⟩ := h.inside hinside hroot
  -- the root is where it was after each of these, so that the next can be said to be outside of it
  obtain ⟨e₁, hroot₁⟩ := stat_mono hinside.shown hinside.here hroot
  obtain ⟨hnoted, hafter⟩ := hafter.note n.ambient.clock (eventOf command (pathOf d) result)
  obtain ⟨e₂, hroot₂⟩ := stat_of_shape_eq
    (fun y => ctx.log.shape_note n.ambient.clock (eventOf command (pathOf d) result) n.files y)
    (EventLog.here_note ..) hroot₁
  rw [journalize_added h.journals]
  dsimp only [Machine.mapFiles]
  generalize ctx.log.note n.ambient.clock (eventOf command (pathOf d) result) n.files = noted at *
  -- the number that is drawn for the record does not show
  have hdrawn : noted.Inside x { noted with drawn := noted.drawn + 1 } :=
    ⟨rfl, rfl, fun _ _ => rfl, .refl _, id, id⟩
  obtain ⟨hnumbered, hafter⟩ := hafter.inside hdrawn hroot₂
  obtain ⟨e₃, hroot₃⟩ := stat_mono hdrawn.shown hdrawn.here hroot₂
  obtain ⟨hadded, hafter⟩ := hafter.add hroot₃
    (recordOf n.ambient.clock noted.drawn command peer (pathOf d) result)
  exact ⟨noted.drawn, (hserved.trans hnoted).trans (hnumbered.trans hadded), hafter⟩

/-- **What a session comes to is told**, and nothing else is, and the next one finds all as it has
to be. -/
theorem run (h : Attached ctx top handle journal made l m.files) (peer : String)
    (c : Connection) :
    ∃ account,
      Logged ctx peer c m (run ctx peer c m).2.2.ambient.clock (run ctx peer c m).1 account ∧
      Adds handle journal m.files account (run ctx peer c m).2.2.files ∧
      Attached ctx top handle journal made l (run ctx peer c m).2.2.files := by
  cases hread : Header.read c.inbound m.ambient with
  | mk found rest =>
    obtain ⟨t, b⟩ := rest
    cases found with
    | error e =>
      unfold Session.run
      rw [hread]
      exact ⟨_, .deaf hread, .refl .., h⟩
    | ok header =>
      rw [(run_of_read ctx peer hread).1]
      obtain ⟨hnoted, hopened⟩ := h.note b.clock (.session peer header.command header.path)
      -- the line for the header makes no difference to the path
      have hsame := resolve_unaware
        (ctx.log.agree_note b.clock (.session peer header.command header.path) m.files)
        ctx.root (.of header.path)
      cases hresolve : resolve m.files ctx.root (.of header.path) with
      | error e =>
        rw [serve_eq_error (m := { m with ambient := b }) (hsame.trans hresolve)]
        exact ⟨_, .refused hread hresolve, hnoted, hopened⟩
      | ok d =>
        obtain ⟨result, c', n, htransfer⟩ : ∃ result c' n,
            Session.transfer ctx header.command (pathOf d) { c with inbound := t }
            { m with ambient := b, files := opening ctx peer header b.clock m.files } =
              (result, c', n) := ⟨_, _, _, rfl⟩
        rw [serve_eq (m := { m with ambient := b }) (hsame.trans hresolve) htransfer]
        cases hend : TransferError.hasPanicked result with
        | true =>
          obtain rfl := TransferError.eq_of_hasPanicked hend
          obtain ⟨hquiet, hafter⟩ := hopened.transfer
            (m := { m with ambient := b, files := opening ctx peer header b.clock m.files })
            (hsame.trans hresolve) htransfer
          exact ⟨_, .panicked hread hresolve, hnoted.trans hquiet, hafter⟩
        | false =>
        rw [conclude_of_not hend]
        obtain ⟨id, hadds, hafter⟩ := hopened.transferred
          (m := { m with ambient := b, files := opening ctx peer header b.clock m.files })
          (hsame.trans hresolve) htransfer peer
        dsimp only
        rw [ambient_journalize]
        exact ⟨_, logged_of_transfer hread hresolve htransfer hend id n.ambient.clock,
          hnoted.trans hadds, hafter⟩

end Attached

/-! ## Sessions one after the other -/

/-- Whatever log and journal the listener had instead, if it had any and they were not served
either, the session would come to the same. -/
def Unaffected (ctx : Context) (top : Location) (peer : String) (c : Connection) (m : Machine) :
    Prop :=
  ∀ ctx' : Context, ctx'.root = ctx.root → ctx'.settings = ctx.settings →
    ctx'.Outside top m.files → Same top (run ctx peer c m) (run ctx' peer c m)

/-- Sessions of a listener, one after the other: what is told of each is what it came to, is all
that is added to the log and the journal, and is without effect on the session. At a rate that can
be held none of them panics. -/
inductive LoggedRun (ctx : Context) (top : Location) (handle : FileHandle) (journal : Path) :
    Machine → List (String × Connection) → List Account → Machine → Prop where
  | nil (m : Machine) : LoggedRun ctx top handle journal m [] [] m
  | cons {m m' : Machine} {peer : String} {c : Connection} {visits : List (String × Connection)}
      {account : Account} {accounts : List Account}
      (logged : Logged ctx peer c m (run ctx peer c m).2.2.ambient.clock (run ctx peer c m).1
        account)
      (calm : ctx.settings.baseRate.toNat ≤ Transfer.maxBuffer →
        (run ctx peer c m).1 ≠ .error .panicked)
      (adds : Adds handle journal m.files account (run ctx peer c m).2.2.files)
      (unaffected : Unaffected ctx top peer c m)
      (rest : LoggedRun ctx top handle journal (run ctx peer c m).2.2 visits accounts m') :
      LoggedRun ctx top handle journal m ((peer, c) :: visits) (account :: accounts) m'

variable {top : Location} {handle : FileHandle} {journal : Path} {made : List Location}
  {l : Location}

/-- A context that is attached is one in which a session does not affect its own log and journal.
-/
theorem Attached.unaffected (h : Attached ctx top handle journal made l m.files) (peer : String)
    (c : Connection) : Unaffected ctx top peer c m :=
  fun _ hroot hsettings hout => run_unseen hroot hsettings h.wellFormed h.distinct h.rooted
    h.contextOutside hout peer c

/-- The accounts of sessions are added up. -/
theorem LoggedRun.adds {m' : Machine} {visits : List (String × Connection)}
    {accounts : List Account} (h : LoggedRun ctx top handle journal m visits accounts m') :
    Adds handle journal m.files (Account.all accounts) m'.files := by
  -- session after session, each one adding to what the ones before it have added
  induction h with
  | nil m => exact .refl handle journal m.files
  | cons _ _ hadds _ _ ih => exact hadds.trans ih

/-- **The outcome of every session is on record.** Where the log and the journal of a listener are
outside of what it serves, each of its sessions is told of as what it came to, unless it panics; the
log and the journal have got longer by that and nothing else, as far as there is room, and the
records are read back in the order of the sessions, after those that were there. No session comes to
anything else than it would with other records or with none. -/
theorem run_outcomes (h : Attached ctx top handle journal made l m.files)
    (visits : List (String × Connection)) :
    ∃ accounts m', LoggedRun ctx top handle journal m visits accounts m' ∧
      Adds handle journal m.files (Account.all accounts) m'.files ∧
      ∀ earlier, Journal.Keeps journal m.files (Journal.written earlier) →
        m.files.Room (Journal.written (earlier ++ (Account.all accounts).records)).length →
        (∀ r ∈ earlier ++ (Account.all accounts).records, r.isText = true) →
        Journal.read journal m'.files = .ok (earlier ++ (Account.all accounts).records) := by
  -- what is added follows from the run itself, so it is enough that there is one
  suffices hlogged : ∃ accounts m', LoggedRun ctx top handle journal m visits accounts m' by
    obtain ⟨accounts, m', hlogged⟩ := hlogged
    exact ⟨accounts, m', hlogged, hlogged.adds, fun _ hkeeps hroom htext =>
      hlogged.adds.read hkeeps hroom htext⟩
  -- each session leaves the context attached, which is what the next one needs
  induction visits generalizing m with
  | nil => exact ⟨[], m, .nil m⟩
  | cons visit visits ih =>
    obtain ⟨peer, c⟩ := visit
    obtain ⟨account, hlogs, hadds, hafter⟩ := h.run peer c
    obtain ⟨accounts, m', hrest⟩ := ih hafter
    exact ⟨account :: accounts, m', .cons hlogs (fun hrate => run_ne_panicked hrate peer c m) hadds
      (h.unaffected peer c) hrest⟩

/-- A journal next to the folder that is served. -/
theorem apart_logFiles :
    Journal.Apart [bytes "srv"] (.of "journal") EventLog.logFiles [] [bytes "journal"] := by
  refine .of_kept (by decide) fun fs hbeside => ⟨by cbv, ?_⟩
  have hroute : fs.route? (.of "journal") = .ok ⟨[], [bytes "journal"], false⟩ := by
    unfold route?
    rw [show fs.here = [] from hbeside.here]
    cbv
  -- the top folder is there, and the journal is missing or a file
  have htop : fs.tree.shape [] = some .folder := by
    rcases hbeside.shape [] (fun hbelow => by simpa using hbelow.1) with hsame | ⟨hnone, -⟩
    · exact hsame.trans (by decide)
    · exact absurd hnone (by decide)
  have happ : approach fs.tree maxLinks ⟨[], [bytes "journal"], false⟩ = .ok ([], maxLinks) :=
    approach_eq_ok.mpr ⟨by cbv, htop⟩
  refine ⟨fs.tree.get? [bytes "journal"], ?_⟩
  rw [hroute]
  refine seek_here happ rfl (by decide) (by decide) rfl fun e he => ?_
  have hbelow : ¬ StrictlyBelow [bytes "srv"] [bytes "journal"] :=
    not_strictlyBelow (by decide)
  have hmissing : EventLog.logFiles.tree.shape [bytes "journal"] = none := by decide
  have hshape : fs.tree.shape [bytes "journal"] = none ∨
      fs.tree.shape [bytes "journal"] = some .file := by
    rcases hbeside.shape _ hbelow with hsame | ⟨-, ⟨-, hfile⟩ | ⟨hmem, -⟩⟩
    · exact .inl (hsame.trans hmissing)
    · exact .inr hfile
    · cases hmem
  rw [Tree.shape_of_get? he] at hshape
  rcases hshape with hnone | hfile
  · cases hnone
  · exact Entry.isFile_iff.mpr (Option.some.inj hfile)

/-- The journal of `logFiles` is there and empty. -/
theorem keeps_logFiles :
    Journal.Keeps (.of "journal") EventLog.logFiles (Journal.written []) := by
  obtain ⟨found, hfound⟩ := apart_logFiles.kept (.refl EventLog.logFiles)
  have hnone : found = none := by
    rw [← (get?_of_route_seek hfound).1]
    cbv
  rw [hnone] at hfound
  exact .missing hfound

/-- A listener with a log and a journal. -/
def desk (settings : Settings) : Context :=
  { root := .of "srv", settings, log := EventLog.opened, journal := some (.of "journal") }

/-- The desk writes its log to `log` and its journal to `journal`, outside the root. -/
theorem attached_desk (settings : Settings) :
    Attached (desk settings) [bytes "srv"] ⟨[bytes "log"], 0⟩ (.of "journal") [] [bytes "journal"]
      EventLog.logFiles where
  logs := rfl
  journals := rfl
  outside := by decide
  other := by decide
  apart := apart_logFiles
  wellFormed := .of_entries (by decide) (by decide)
  distinct := by decide
  rooted := by
    intro l e hstat
    have hroot : EventLog.logFiles.stat (.of "srv") = .ok ([bytes "srv"], .folder 0o755) := by cbv
    cases hroot.symm.trans hstat
    rfl

/-- What `storeNew` asks for is served, though its folder is missing. -/
theorem resolve_desk :
    resolve EventLog.logFiles (.of "srv") (.of "via/new") =
      .ok [bytes "srv", bytes "via", bytes "new"] := by
  cbv

/-- A session that stores through a link has one record, and reading the journal gives it. -/
theorem run_outcomes_opened :
    Attached (desk {}) [bytes "srv"] ⟨[bytes "log"], 0⟩ (.of "journal") [] [bytes "journal"]
        EventLog.logFiles ∧
      ∃ r account m', LoggedRun (desk {}) [bytes "srv"] ⟨[bytes "log"], 0⟩ (.of "journal")
          ⟨EventLog.logFiles, default, {}, none⟩ [("peer", storeNew)] [account] m' ∧
        account.records = [r] ∧ r.direction = .receive ∧ r.peer = "peer" ∧
        r.path = pathOf [bytes "srv", bytes "via", bytes "new"] ∧
        Journal.read (.of "journal") m'.files = .ok [r] := by
  obtain ⟨accounts, m', hlogged, -, hread⟩ := run_outcomes
    (m := ⟨EventLog.logFiles, default, {}, none⟩) (attached_desk {}) [("peer", storeNew)]
  cases hlogged with
  | @cons _ _ _ _ _ account _ hlogs hcalm hadds hunaffected hrest =>
    cases hrest
    obtain ⟨t, b, hheader⟩ : ∃ t b, Header.read storeNew.inbound default =
        (.ok ⟨.store, "via/new"⟩, t, b) := read_sending (by decide) _ _
    obtain ⟨r, hrecords, hdirection, hpeer, hpath, -⟩ :=
      hlogs.one_record hheader resolve_desk (hcalm Transfer.baseRate_default)
    have hall : (Account.all [account]).records = [r] := by
      rw [← hrecords]
      exact List.append_nil _
    rw [hall] at hread
    have htext : r.isText = true := by
      unfold Record.isText
      rw [hpath]
      decide +kernel
    refine ⟨attached_desk {}, r, account, _, .cons hlogs hcalm hadds hunaffected (.nil _), hrecords,
      hdirection, hpeer, hpath, hread [] keeps_logFiles (EventLog.room_logFiles _) ?_⟩
    intro r' hr'
    obtain rfl := List.mem_singleton.mp hr'
    exact htext

/-- One whose rate is more than a buffer can hold. -/
def rushedDesk : Context :=
  desk { baseRate := 9223372036854775808 }

/-- It can stage what `storeNew` sends, whatever is in its log. -/
theorem stageable_desk (clock : Clock) :
    Transfer.Stageable (pathOf [bytes "srv", bytes "via", bytes "new"])
      (opening rushedDesk "peer" ⟨.store, "via/new"⟩ clock EventLog.logFiles) := by
  have hprepare : Transfer.prepareFolder (pathOf [bytes "srv", bytes "via", bytes "new"])
      EventLog.logFiles = (.ok (), (Transfer.prepareFolder
        (pathOf [bytes "srv", bytes "via", bytes "new"]) EventLog.logFiles).2) :=
    Prod.ext (by cbv) rfl
  have hdistinct := (attached_desk {}).distinct
  exact Transfer.stageable_unaware (EventLog.agree_note EventLog.opened clock _ _) hdistinct
    (EventLog.distinct_note _ _ _ hdistinct) (Transfer.stageable_of_ok hprepare (by cbv))

/-- **A session that panics is on no record**: its path is resolved and a file is staged, but in the
end there is one line in the log and nothing in the journal. -/
theorem run_unrecorded :
    Attached rushedDesk [bytes "srv"] ⟨[bytes "log"], 0⟩ (.of "journal") [] [bytes "journal"]
        EventLog.logFiles ∧
      (∃ t b, Header.read storeNew.inbound default = (.ok ⟨.store, "via/new"⟩, t, b)) ∧
      resolve EventLog.logFiles (.of "srv") (.of "via/new") =
        .ok [bytes "srv", bytes "via", bytes "new"] ∧
      (run rushedDesk "peer" storeNew ⟨EventLog.logFiles, default, {}, none⟩).1 =
        .error .panicked ∧
      (∃ e, (run rushedDesk "peer" storeNew
        ⟨EventLog.logFiles, default, {}, none⟩).2.2.files.Holds ⟨[bytes "log"], 0⟩ 0o644
          (EventLog.written [e])) ∧
      Journal.read (.of "journal") (run rushedDesk "peer" storeNew
        ⟨EventLog.logFiles, default, {}, none⟩).2.2.files = .ok [] := by
  have hattached : Attached rushedDesk [bytes "srv"] ⟨[bytes "log"], 0⟩ (.of "journal") []
      [bytes "journal"] EventLog.logFiles := attached_desk _
  obtain ⟨t, b, hread⟩ : ∃ t b, Header.read storeNew.inbound default =
      (.ok ⟨.store, "via/new"⟩, t, b) := read_sending (by decide) _ _
  obtain rfl := ambient_of_sending (by decide) hread
  -- the line for the header makes no difference to the path
  have hresolve : resolve (opening rushedDesk "peer" ⟨.store, "via/new"⟩ (default : Ambient).clock
      EventLog.logFiles) rushedDesk.root (.of "via/new") =
        .ok [bytes "srv", bytes "via", bytes "new"] :=
    (resolve_unaware (EventLog.agree_note EventLog.opened _ _ _) _ _).trans resolve_desk
  have hlarge : Transfer.maxBuffer < Transfer.chunkSize rushedDesk.settings
      (default : Ambient).register := by decide
  have hpanicked : (run rushedDesk "peer" storeNew
      ⟨EventLog.logFiles, default, {}, none⟩).1 = .error .panicked :=
    run_panics hread hresolve (stageable_desk _) hlarge
  obtain ⟨account, hlogs, hadds, -⟩ :=
    hattached.run (m := ⟨EventLog.logFiles, default, {}, none⟩) "peer" storeNew
  rw [hpanicked] at hlogs
  obtain ⟨e, rfl⟩ := hlogs.unrecorded hread resolve_desk
  have hlog := hadds.log 0o644 [] EventLog.holds_logFiles (EventLog.room_logFiles _)
  rw [List.nil_append] at hlog
  have hjournal := hadds.read keeps_logFiles (EventLog.room_logFiles _) nofun
  exact ⟨hattached, ⟨t, _, hread⟩, resolve_desk, hpanicked, ⟨e, hlog⟩, hjournal⟩

end Session

end Courier
