import Courier.Proofs.Agree
import Courier.Proofs.RoundTrip

/-!
# What a peer can read

A peer gets to see nothing but a first part of one file, the one that it asked for; this file lies
strictly below the root once all links are followed, and it is a regular file. A peer that stores,
or that asks for anything else, gets to see nothing at all. And a peer that only reads leaves the
files as they were: nothing has changed but what the listener writes by itself, and the folders that
it makes to have a place for its journal.

Main results:

* `Session.strictlyBelow_of_resolve` — a file that a path is resolved to is not the root.
* `Session.spared_of_run` — what a peer that only reads leaves of the files.
* `Session.run_discloses` — what a session sends, and what it leaves of the files.
-/

namespace Courier

open Files

/-! ## A file below the root -/

namespace Session

/-- A path that is resolved has a name. -/
theorem names_ne_nil_of_resolve {fs : Files} {root asked : Path} {d : Location}
    (h : resolve fs root asked = .ok d) : asked.names ≠ [] := by
  unfold resolve requestedNames at h
  intro hnames
  by_cases hup : .up ∈ asked.parts
  · rw [if_pos hup] at h
    cases h
  · rw [if_neg hup, hnames] at h
    cases h

/-- What is no folder is not the root: names lead from a folder only, and every path that is
resolved has one. -/
theorem strictlyBelow_of_resolve {fs : Files} {root asked : Path} {top d : Location} {e : Entry}
    (ht : fs.tree.WellFormed) (hroot : fs.stat root = .ok (top, e))
    (h : resolve fs root asked = .ok d) (hd : fs.tree.shape d ≠ some .folder) :
    StrictlyBelow top d := by
  obtain ⟨top', e', hroot', hbelow, -⟩ := resolve_eq_ok ht h
  obtain rfl : top' = top := (Prod.mk.inj (Except.ok.inj (hroot'.symm.trans hroot))).1
  refine ⟨hbelow, fun heq => ?_⟩
  have hback := (resolve_eq_top_iff ht hroot h).mp heq
  obtain ⟨name, rest, hnames⟩ := List.exists_cons_of_ne_nil (names_ne_nil_of_resolve h)
  rw [hnames] at hback
  exact hd (heq ▸ hback.folder_of_cons)

/-- A regular file strictly below the root, with no link on the way to it. Its content is what a
session finds there, which may have got one more line if it is the log. -/
structure Served (ctx : Context) (fs : Files) (d : Location) (content : Bytes) : Prop where
  below : ∃ top e, fs.stat ctx.root = .ok (top, e) ∧ StrictlyBelow top d
  direct : ∀ l, l <+: d → ∀ target, fs.tree.get? l ≠ some (.link target)
  file : ∃ mode serial held added, fs.tree.get? d = some (.file mode serial held) ∧
    content = held ++ added ∧ (added = [] ∨ ctx.log.handle = some ⟨d, serial⟩)

variable {ctx : Context} {peer : String} {header : Header} {c : Connection} {m : Machine}
  {d : Location} {content : Bytes}

/-- **What a peer asks for and gets** is a file below the root. -/
theorem served_of_requested (ht : m.files.tree.WellFormed)
    (h : Requested ctx peer header c m d content) : Served ctx m.files d content := by
  obtain ⟨mode, serial, hfile⟩ := h.file
  have hbegun : (begun ctx peer header c m).tree.WellFormed := wellFormed_begun ht
  obtain ⟨top, e, hroot, -, hclear, -⟩ := resolve_eq_ok hbegun h.resolved
  -- the line in the log does not show in the tree
  have hshape (l : Location) :
      m.files.tree.shape l = (begun ctx peer header c m).tree.shape l :=
    (EventLog.shape_note ..).symm
  have hhere : m.files.here = (begun ctx peer header c m).here := (EventLog.here_note ..).symm
  obtain ⟨e', hroot'⟩ := stat_of_shape_eq hshape hhere hroot
  constructor
  case below =>
    refine ⟨top, e', hroot', strictlyBelow_of_resolve hbegun hroot h.resolved ?_⟩
    rw [Tree.shape_of_get? hfile]
    nofun
  case direct =>
    intro l hl target hlink
    have hlink' := (hshape l).symm.trans (Tree.shape_of_get? hlink)
    exact hclear l hl target (Tree.shape_eq_link.mp hlink')
  case file =>
    obtain ⟨mode', serial', held, hheld⟩ :=
      Tree.shape_eq_file.mp ((hshape d).trans (Tree.shape_of_get? hfile))
    unfold begun opening EventLog.note at hfile
    split at hfile
    · rename_i handle hhandle
      obtain ⟨added, hadded, hwhich⟩ := get?_append hheld handle
        (bytes (EventLog.line (Header.read c.inbound m.ambient).2.2.clock.wall
          (.session peer header.command header.path)))
      cases hadded.symm.trans hfile
      refine ⟨_, _, held, added, hheld, rfl, hwhich.imp id fun h => ?_⟩
      rw [hhandle, h]
    · cases hheld.symm.trans hfile
      exact ⟨_, _, _, [], hheld, (List.append_nil _).symm, .inl rfl⟩

/-! ## What is left of the files -/

/-- What has become of a location in a session. -/
inductive Left (ctx : Context) (fs fs' : Files) (l : Location) : Prop where
  | same (hsame : fs'.tree.get? l = fs.tree.get? l)
  /-- The log or the journal, with more in it. -/
  | longer (hkept : Kept ctx fs' l) (hlonger : fs.Longer fs' l)
  /-- The journal, which is new. -/
  | journal (hkept : JournalAt ctx fs' l) (hnone : fs.tree.get? l = none)
      (hfile : fs'.tree.shape l = some .file)
  /-- A folder above the journal, which is new as well. -/
  | folder {journal : Path} (hjournal : ctx.journal = some journal)
      (hmade : Journal.MadeAbove journal fs fs' l)

/-- The files are as they were, but for what the listener does to them by itself. -/
def Spared (ctx : Context) (fs fs' : Files) : Prop :=
  ∀ l, Left ctx fs fs' l

/-- Doing nothing spares the files. -/
theorem Spared.refl (ctx : Context) (fs : Files) : Spared ctx fs fs :=
  fun _ => .same rfl

/-- A log that has got longer is not counted. -/
theorem Spared.of_grown {ctx : Context} {fs fs' : Files} (h : fs.Grown ctx.log.At fs') :
    Spared ctx fs fs' := by
  intro l
  rcases h l with hsame | ⟨hlog, hlonger⟩
  · exact .same hsame
  · exact .longer (.inl hlog) hlonger

/-- Lines and then a record do no more to the files than what is said of each. -/
theorem Spared.of_journaled {ctx : Context} {fs fs₁ fs₂ : Files} (hlog : fs.Grown ctx.log.At fs₁)
    (h : Journaled ctx fs₁ fs₂) : Spared ctx fs fs₂ := by
  rcases h with rfl | ⟨journal, record, n, hjournal, rfl⟩
  · exact .of_grown hlog
  intro l
  -- the log may be the journal, so that a file may get longer twice
  cases Journal.added_add journal record { fs₁ with drawn := n } l with
  | same hsame =>
    rcases hlog l with hbefore | ⟨hkept, hlonger⟩
    · exact .same (hsame.trans hbefore)
    · exact .longer (.inl hkept) (hlonger.of_eq_right hsame)
  | longer hkept hlonger =>
    refine .longer (.inr ⟨journal, hjournal, hkept⟩) ?_
    rcases hlog l with hbefore | ⟨-, hbefore⟩
    · exact hlonger.of_eq_left hbefore
    · exact hbefore.trans hlonger
  | new hkept hnone hfile => exact .journal ⟨journal, hjournal, hkept⟩ (hlog.none hnone) hfile
  | folder hmade => exact .folder hjournal ⟨hlog.none hmade.1, hmade.2⟩

/-- Nor does what is written down of a transfer, if it is. -/
theorem Spared.of_concluded {ctx : Context} {fs fs₁ fs₂ : Files} (hlog : fs.Grown ctx.log.At fs₁)
    (h : Concluded ctx fs₁ fs₂) : Spared ctx fs fs₂ := by
  cases h with
  | panicked => exact .of_grown hlog
  | @noted clock e _ hjournaled =>
    exact .of_journaled (hlog.trans (ctx.log.grown_note clock e _)) hjournaled

/-- **A peer that only reads** leaves the files as they were, whatever comes of its session. -/
theorem spared_of_run (ctx : Context) (peer : String) (c : Connection) (m : Machine)
    (h : ∀ header t b, Header.read c.inbound m.ambient = (.ok header, t, b) →
      header.command = .retrieve) :
    Spared ctx m.files (run ctx peer c m).2.2.files := by
  cases hread : Header.read c.inbound m.ambient with
  | mk found rest =>
    obtain ⟨t, b⟩ := rest
    cases found with
    | error e =>
      unfold run
      rw [hread]
      exact .refl ctx m.files
    | ok header =>
      obtain ⟨hrun, -⟩ := run_of_read ctx peer hread
      rw [hrun]
      have hopening : m.files.Grown ctx.log.At (opening ctx peer header b.clock m.files) :=
        ctx.log.grown_note b.clock _ m.files
      cases hresolve : resolve (opening ctx peer header b.clock m.files) ctx.root
          (.of header.path) with
      | error e =>
        rw [serve_eq_error (m := { m with ambient := b }) hresolve]
        exact .of_grown hopening
      | ok d =>
        have hend := serve_of_ok (c := { c with inbound := t }) (m := { m with ambient := b })
          hresolve
        -- the transfer lies between two lines in the log, and changes no file
        rcases transfer_files ctx header.command (pathOf d) { c with inbound := t }
            { m with files := opening ctx peer header b.clock m.files, ambient := b } with
          ⟨-, hfiles⟩ | ⟨hstore, -⟩
        · rw [hfiles] at hend
          exact .of_concluded hopening hend
        · rw [h header t b hread] at hstore
          cases hstore

/-! ## A whole session -/

/-- What a session tells its peer, and what it leaves of the files if the peer only reads. -/
structure Discloses (ctx : Context) (peer : String) (c : Connection) (m : Machine)
    (x : Except TransferError Report × Connection × Machine) : Prop where
  /-- A peer that stores, and one whose header, path or file is refused, asks for no file that is
  served: it is not written to. -/
  silent : (∀ header d content, ¬ Requested ctx peer header c m d content) →
    x.2.1.outbound = c.outbound
  /-- What is asked for is a regular file below the root. -/
  served : ∀ header d content, Requested ctx peer header c m d content →
    Served ctx m.files d content
  /-- A first part of it is sent at every call, and all of it if the session ends without error. -/
  sent : ∀ header d content, Requested ctx peer header c m d content →
    Transfer.Sends c.outbound x.2.1.outbound content (∃ report, x.1 = .ok report)
  /-- A peer that is told that its request was answered has asked for such a file. -/
  answered : ∀ header t b, Header.read c.inbound m.ambient = (.ok header, t, b) →
    header.command = .retrieve → (∃ report, x.1 = .ok report) →
      ∃ d content, Requested ctx peer header c m d content
  spared : (∀ header t b, Header.read c.inbound m.ambient = (.ok header, t, b) →
    header.command = .retrieve) → Spared ctx m.files x.2.2.files

/-- A peer asks for one file. -/
theorem Requested.unique {header' : Header} {d' : Location} {content' : Bytes}
    (h : Requested ctx peer header c m d content)
    (h' : Requested ctx peer header' c m d' content') :
    header' = header ∧ d' = d ∧ content' = content := by
  obtain ⟨⟨t, b, hread⟩, -, hresolved, mode, serial, hfile⟩ := h
  obtain ⟨⟨t', b', hread'⟩, -, hresolved', mode', serial', hfile'⟩ := h'
  obtain rfl : header' = header :=
    Except.ok.inj (Prod.mk.inj (hread'.symm.trans hread)).1
  obtain rfl : d' = d := Except.ok.inj (hresolved'.symm.trans hresolved)
  cases hfile'.symm.trans hfile
  exact ⟨rfl, rfl, rfl⟩

/-- **What a peer can read** is the file that it asked for, and this is a regular file strictly
below the root, whatever links lead to it. If it only reads, the files are left as they were, but
for the log, the journal, and the folders that the journal needs. -/
theorem run_discloses (ctx : Context) (peer : String) (c : Connection) (m : Machine)
    (ht : m.files.tree.WellFormed) : Discloses ctx peer c m (run ctx peer c m) := by
  rcases sent_of_run ctx peer c m ht with
    ⟨header, d, content, hrequested, hsends, -⟩ | ⟨hquiet, hrefused⟩
  · constructor
    case silent => exact fun hnone => absurd hrequested (hnone header d content)
    case served => exact fun _ _ _ h => served_of_requested ht h
    case sent =>
      intro header' d' content' h
      obtain ⟨-, -, rfl⟩ := hrequested.unique h
      exact hsends
    case answered =>
      intro header' t b hread hretrieve _
      obtain ⟨t', b', hread'⟩ := hrequested.read
      obtain rfl : header' = header := Except.ok.inj (Prod.mk.inj (hread.symm.trans hread')).1
      exact ⟨d, content, hrequested⟩
    case spared => exact spared_of_run ctx peer c m
  · constructor
    case silent => exact fun _ => hquiet
    case served => exact fun _ _ _ h => served_of_requested ht h
    case sent =>
      -- a request that fails before its file is opened has sent nothing of it
      intro header d content h
      obtain ⟨t, b, hread⟩ := h.read
      obtain ⟨e, he⟩ := hrefused header t b hread h.retrieve
      rw [hquiet, he]
      refine .nothing _ _ ?_
      rintro ⟨report, hok⟩
      cases hok
    case answered =>
      rintro header t b hread hretrieve ⟨report, hok⟩
      obtain ⟨e, he⟩ := hrefused header t b hread hretrieve
      rw [he] at hok
      cases hok
    case spared => exact spared_of_run ctx peer c m

/-- What `askNote` asks for. -/
theorem requested_note (ctx : Context) (hroot : ctx.root = .of "srv") (hlog : ctx.log = .silent) :
    Requested ctx "peer" ⟨.retrieve, "note"⟩ askNote ⟨noteFiles, default, {}, none⟩
      [bytes "srv", bytes "note"] (bytes "TEXT") := by
  obtain ⟨t, b, hread, -⟩ := Header.read_of_delivers (h := ⟨.retrieve, "note"⟩) askNote.inbound
    default (by decide) delivers_askNote
  have hbegun : begun ctx "peer" ⟨.retrieve, "note"⟩ askNote ⟨noteFiles, default, {}, none⟩ =
      noteFiles := by
    unfold begun opening
    rw [hlog]
    rfl
  constructor
  case read => exact ⟨t, b, hread⟩
  case retrieve => rfl
  case resolved =>
    rw [hbegun, hroot]
    exact resolve_noteFiles
  case file =>
    rw [hbegun]
    exact ⟨0o644, 0, by decide⟩

/-- A session that is asked for `note` sends it, and leaves the files as they were. -/
theorem run_discloses_note :
    noteFiles.tree.WellFormed ∧
      Requested { root := .of "srv", settings := {} } "peer" ⟨.retrieve, "note"⟩ askNote
        ⟨noteFiles, default, {}, none⟩ [bytes "srv", bytes "note"] (bytes "TEXT") ∧
      Discloses { root := .of "srv", settings := {} } "peer" askNote ⟨noteFiles, default, {}, none⟩
        (run { root := .of "srv", settings := {} } "peer" askNote ⟨noteFiles, default, {}, none⟩) :=
  ⟨noteFiles_wellFormed, requested_note _ rfl rfl, run_discloses _ _ _ _ noteFiles_wellFormed⟩

end Session

/-! ## A folder that is left -/

namespace Journal

/-- A path with a slash at its end leads to no file. -/
theorem not_keptAt_of_slash {journal : Path} {fs : Files} {r : Route}
    (hroute : fs.route? journal = .ok r) (hslash : r.slashAtEnd = true) (l : Location) :
    ¬ KeptAt journal fs l := by
  rintro ⟨found, hfound⟩
  rw [hroute] at hfound
  change seek fs.tree maxLinks r = _ at hfound
  rw [seek_eq] at hfound
  split at hfound
  · cases hfound
  · rw [hslash] at hfound
    cases hfound

/-- Such a journal is not written, but the folders above it are made. -/
theorem add_of_slash {journal : Path} {fs : Files} {r : Route}
    (hroute : fs.route? journal = .ok r) (hslash : r.slashAtEnd = true) (record : Record) :
    (add journal record fs).2 = makeRoom journal fs := by
  obtain ⟨made, hmade⟩ := makeRoom_furnished journal fs
  have hroute' : (makeRoom journal fs).route? journal = .ok r := by
    unfold Files.route? at hroute ⊢
    rw [hmade.evolves.here]
    exact hroute
  -- a path with a slash at its end does not open a file, so nothing is written
  have hnever := not_keptAt_of_slash hroute' hslash
  unfold add
  cases hopen : (makeRoom journal fs).openToAppend journal with
  | mk opened fs₁ =>
    rcases openToAppend_cases hopen with
      ⟨handle, mode, content, -, -, hseek⟩ | ⟨handle, -, hseek, -⟩ | ⟨f, rfl, rfl⟩
    · exact absurd ⟨_, hseek⟩ (hnever handle.location)
    · exact absurd ⟨_, hseek⟩ (hnever handle.location)
    · rfl

end Journal

namespace Session

/-- A listener whose journal is to lie in a folder `logs`, and has a path that no file can have. -/
def unopened : Context :=
  { root := .of "srv", settings := {}, journal := some (.of "logs/j/") }

/-- **A peer that only reads may leave a new folder**, which is neither the log nor the journal: the
folder for a journal is made, and then the journal cannot be opened. -/
theorem run_leaves_folder :
    (∃ report, (run unopened "peer" askNote ⟨noteFiles, default, {}, none⟩).1 = .ok report) ∧
      noteFiles.tree.get? [bytes "logs"] = none ∧
      (run unopened "peer" askNote ⟨noteFiles, default, {}, none⟩).2.2.files.tree.get?
        [bytes "logs"] = some (.folder 0o755) ∧
      ∀ l, ¬ Kept unopened
        (run unopened "peer" askNote ⟨noteFiles, default, {}, none⟩).2.2.files l := by
  have hrequested := requested_note unopened rfl rfl
  obtain ⟨t, b, hread⟩ := hrequested.read
  obtain ⟨hrun, hbegun⟩ := run_of_read unopened "peer" hread
  have hresolved := hrequested.resolved
  have hanswered : ∃ report,
      (run unopened "peer" askNote ⟨noteFiles, default, {}, none⟩).1 = .ok report := by
    refine run_of_willing Transfer.baseRate_default hread rfl hresolved ?_ Outbound.willing_willing
    show noteFiles.isFile (pathOf [bytes "srv", bytes "note"]) = true
    cbv
  rw [hbegun] at hresolved
  obtain ⟨clock, e, files, record, n, hfiles, hrecorded⟩ :=
    serve_recorded (c := { askNote with inbound := t }) (m := ⟨noteFiles, b, {}, none⟩)
      (show unopened.journal = some (.of "logs/j/") from rfl) hresolved
      (hasPanicked_eq_false (transfer_ne_panicked Transfer.baseRate_default _ _ _ _))
  -- the transfer and its lines in the log leave the files as they are
  have hsame : files = noteFiles := by
    rw [hfiles]
    rcases transfer_files unopened .retrieve (pathOf [bytes "srv", bytes "note"])
        { askNote with inbound := t } ⟨noteFiles, b, {}, none⟩ with ⟨-, h⟩ | ⟨h, -⟩
    · exact h
    · cases h
  have hroute : { noteFiles with drawn := n }.route? (.of "logs/j/") =
      .ok ⟨[], [bytes "logs", bytes "j"], true⟩ := by cbv
  rw [hsame, Journal.add_of_slash hroute rfl] at hrecorded
  refine ⟨hanswered, by decide, ?_, ?_⟩
  · rw [hrun, hrecorded]
    cbv
  · rintro l (⟨handle, hhandle, -⟩ | ⟨journal, hjournal, hkept⟩)
    · cases hhandle
    · cases hjournal
      rw [hrun, hrecorded] at hkept
      refine Journal.not_keptAt_of_slash (r := ⟨[], [bytes "logs", bytes "j"], true⟩) ?_ rfl l hkept
      cbv

end Session

end Courier
