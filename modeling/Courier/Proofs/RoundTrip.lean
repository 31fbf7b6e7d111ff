import Courier.Proofs.Admission
import Courier.Proofs.Cuts
import Courier.Proofs.Exchange
import Courier.Proofs.Records
import Courier.Proofs.Refusal
import Courier.Proofs.Willing

/-!
# Files cross the wire whole

What a peer stores ends up at the served location, and what it fetches ends up where it asked for,
octet for octet, however the streams take it and cut it. The one thing that may come after it is a
record of the session itself: where the listener keeps its journal at the very location that the
peer stores to.

Main results:

* `Session.run_of_store` — a session that is sent a file keeps it.
* `Session.run_follows_journal` — and adds a record to it, if that is where its journal is.
* `Session.round_trip` — both directions, from the file that is sent to the one that is kept.
-/

namespace Courier

open Files

namespace Session

open Transfer

variable {ctx : Context} {peer : String} {header : Header} {c : Connection} {m : Machine}

/-! ## Storing -/

/-- A listener takes a file of so many octets under the path of a header: the path is resolved to
`d`, where no folder is, and the file system lets a file be made there and gets it to the disk. -/
structure Accepts (ctx : Context) (peer : String) (header : Header) (c : Connection) (m : Machine)
    (d : Location) (size : Nat) : Prop where
  wellFormed : m.files.tree.WellFormed
  log : ctx.log.OpenedBy m.files.drawn
  resolved : resolve (begun ctx peer header c m) ctx.root (.of header.path) = .ok d
  free : ∀ mode, (begun ctx peer header c m).tree.get? d ≠ some (.folder mode)
  stageable : Stageable (pathOf d) (begun ctx peer header c m)
  fits : ∀ limit, m.files.sizeLimit = some limit → size ≤ limit
  synced : m.files.sync.1 = .ok ()

/-- How a session ends that has kept a file at `d`. -/
structure Stored (ctx : Context) (content : Bytes) (d : Location)
    (result : Except TransferError Report) (fs : Files) : Prop where
  reported : ∃ elapsed, result = .ok ⟨.receive, pathOf d, content.length, elapsed⟩
  /-- Only a record of the session can follow the content. -/
  kept : ∃ serial more, fs.tree.get? d = some (.file 0o644 serial (content ++ more)) ∧
    (more = [] ∨ JournalAt ctx fs d)

/-- **A session that is sent a file keeps it**, if it does not panic. -/
theorem run_of_store {remote : String} {content : Bytes} {d : Location}
    (h : Accepts ctx peer ⟨.store, remote⟩ c m d content.length)
    (hallowed : Header.lengthAllowed (bytes remote).length = true)
    (hd : Delivers (max 1 ctx.settings.maxRetries.toNat) (Header.octets ⟨.store, remote⟩).length 0
      (Header.octets ⟨.store, remote⟩ ++ content) c.inbound.arrivals)
    (hheld : (run ctx peer c m).1 ≠ .error .panicked) :
    Stored ctx content d (run ctx peer c m).1 (run ctx peer c m).2.2.files := by
  obtain ⟨t, b, hread, hrest⟩ :=
    Header.read_of_delivers (h := ⟨.store, remote⟩) c.inbound m.ambient hallowed hd
  obtain ⟨hrun, hbegun⟩ := run_of_read ctx peer hread
  have hresolved := h.resolved
  obtain ⟨-, -, -, -, hclear, hproper, -⟩ :=
    resolve_eq_ok (wellFormed_begun h.wellFormed) hresolved
  have hnumbers : (begun ctx peer ⟨.store, remote⟩ c m).numbers = m.files.numbers :=
    EventLog.numbers_note ..
  obtain ⟨hdrawn, hdisk⟩ := Prod.mk.inj hnumbers
  have hadmits := admits_of_served (wellFormed_begun h.wellFormed) hproper hclear h.free
    h.stageable (fun limit hl => h.fits limit (sizeLimit_of_disk hdisk ▸ hl))
    ((sync_of_disk hdisk).1.trans h.synced)
  rw [hbegun] at hresolved hadmits hdrawn
  obtain ⟨hresult, -⟩ := serve_result (c := { c with inbound := t }) (m := { m with ambient := b })
    hresolved
  have hend := serve_of_ok (c := { c with inbound := t }) (m := { m with ambient := b })
    hresolved
  rw [hrun, hresult] at hheld ⊢
  obtain ⟨serial, elapsed, t', b', fs', hreceive, hfile, hserial⟩ :=
    receiveFile_of_delivers t b hadmits hrest hheld
  unfold transfer at hend ⊢
  dsimp only at hend ⊢
  rw [hreceive] at hend ⊢
  refine ⟨⟨elapsed, rfl⟩, ?_⟩
  -- the log was opened before the file got its number, so its next line goes elsewhere
  have hnewer : ctx.log.OpenedBy serial := fun handle hhandle =>
    Nat.lt_of_lt_of_le (h.log handle hhandle) (hdrawn ▸ hserial)
  generalize (serve ctx peer ⟨.store, remote⟩ { c with inbound := t }
    { m with ambient := b }).2.2.files = files at hend ⊢
  cases hend with
  | panicked => exact ⟨serial, [], by simpa using hfile, .inl rfl⟩
  | @noted clock e _ hjournaled =>
    obtain ⟨more, hmore, hkept⟩ :=
      get?_journaled hjournaled (EventLog.get?_note hnewer hfile clock e)
    exact ⟨serial, more, hmore, hkept⟩

/-- A session that would stage a file panics if it cannot hold the first chunk. -/
theorem run_panics {remote : String} {d : Location} {t : Inbound} {b : Ambient}
    (hread : Header.read c.inbound m.ambient = (.ok ⟨.store, remote⟩, t, b))
    (hresolve : resolve (opening ctx peer ⟨.store, remote⟩ b.clock m.files) ctx.root (.of remote) =
      .ok d)
    (hstage : Stageable (pathOf d) (opening ctx peer ⟨.store, remote⟩ b.clock m.files))
    (hlarge : maxBuffer < chunkSize ctx.settings b.register) :
    (run ctx peer c m).1 = .error .panicked := by
  obtain ⟨hserved, -⟩ := serve_result (c := { c with inbound := t }) (m := { m with ambient := b })
    hresolve
  obtain ⟨prepared, staged, fs₁, hprepare, hmake⟩ := hstage
  have hne : (pathOf d).isEmpty = false := by simpa [Path.isEmpty] using text_pathOf_ne_nil d
  rw [(run_of_read ctx peer hread).1, hserved]
  exact congrArg Prod.fst (receiveFile_of_lt hlarge hne hprepare hmake t)

/-- While the header of a peer is read that sends all in one piece, nothing else happens. -/
theorem ambient_of_sending {octets : Bytes} {r : Except TransferError Header} {a b : Ambient}
    {t : Inbound} (hne : octets ≠ []) (h : Header.read (sending octets).inbound a = (r, t, b)) :
    b = a := by
  have hcuts : Cuts (octets ++ []) (sending octets).inbound.arrivals := .piece hne .ended
  have hsteady := (Header.steady_read hcuts a).1
  rwa [h] at hsteady

/-! ## Both directions -/

/-- **Files cross the wire whole.** A peer that has sent a header and its file without error has
sent all of it; a session to which this is delivered, and whose listener takes the file, reports as
many octets and keeps exactly this content. A session that has answered a request without error has
sent the whole of a served file; a peer to which this is delivered, and whose file system lets it be
received, reports as many octets and has exactly this content. Neither needs to be feared to panic
at a rate that can be held. -/
theorem round_trip :
    (∀ (settings : Settings) (fs : Files) (file : Path) (remote : String) (s : Outbound)
        (a : Ambient) (report : Report), (push settings fs file remote s a).1 = .ok report →
      ∃ content, fs.read file = .ok content ∧ report.size = content.length ∧
        (push settings fs file remote s a).2.1.wire =
          s.wire ++ (Header.octets ⟨.store, remote⟩ ++ content) ∧
        ∀ (ctx : Context) (peer : String) (c : Connection) (m : Machine) (d : Location),
          Delivers (max 1 ctx.settings.maxRetries.toNat) (Header.octets ⟨.store, remote⟩).length 0
            (Header.octets ⟨.store, remote⟩ ++ content) c.inbound.arrivals →
          Accepts ctx peer ⟨.store, remote⟩ c m d content.length →
          UnlessPanicked ctx.settings (run ctx peer c m).1
            (Stored ctx content d (run ctx peer c m).1 (run ctx peer c m).2.2.files)) ∧
    ∀ (remote : String) (s : Outbound) (a : Ambient),
      (Header.write ⟨.retrieve, remote⟩ s a).1 = .ok () →
      (Header.write ⟨.retrieve, remote⟩ s a).2.1.wire =
        s.wire ++ Header.octets ⟨.retrieve, remote⟩ ∧
      ∀ (ctx : Context) (peer : String) (c : Connection) (m : Machine) (limit : Nat)
          (report : Report), m.files.tree.WellFormed →
        Delivers limit (Header.octets ⟨.retrieve, remote⟩).length 0
          (Header.octets ⟨.retrieve, remote⟩) c.inbound.arrivals →
        (run ctx peer c m).1 = .ok report →
        ∃ d content, Requested ctx peer ⟨.retrieve, remote⟩ c m d content ∧
          report.size = content.length ∧
          (run ctx peer c m).2.1.outbound.wire = c.outbound.wire ++ content ∧
          ∀ (settings : Settings) (dest : Path) (place : Location) (t : Inbound) (b : Ambient)
              (fs : Files), Admits dest content.length fs place →
            Delivers (max 1 settings.maxRetries.toNat) 0 0 content t.arrivals →
            UnlessPanicked settings (receiveFile settings dest t b fs).1 (∃ elapsed serial,
              (receiveFile settings dest t b fs).1 = .ok ⟨.receive, dest, report.size, elapsed⟩ ∧
              (receiveFile settings dest t b fs).2.2.2.tree.get? place =
                some (.file 0o644 serial content)) := by
  refine ⟨fun settings fs file remote s a report hpush => ?_, fun remote s a hwrite => ?_⟩
  -- a peer that stores: what it has sent is delivered to a session
  · obtain ⟨hsends, -, hreport⟩ := sent_of_push settings fs file remote s a
    obtain ⟨hallowed, content, hcontent, elapsed, rfl⟩ := hreport report hpush
    have hwire := hsends.whole ⟨_, hpush⟩
    rw [hcontent] at hwire
    exact ⟨content, hcontent, rfl, hwire, fun ctx peer c m d hd h =>
      ⟨run_of_store h hallowed hd, fun hrate => run_ne_panicked hrate peer c m⟩⟩
  -- a peer that asks: its header is delivered, and then the answer to it
  · cases hheader : Header.write ⟨.retrieve, remote⟩ s a with
    | mk result rest =>
      obtain ⟨u, b⟩ := rest
      rw [hheader] at hwrite
      obtain rfl : result = .ok () := hwrite
      obtain ⟨calls, rest, hcalls, hsplit, -, hok⟩ := Header.calls_of_write hheader
      obtain ⟨rfl, hallowed⟩ := hok rfl
      rw [List.append_nil] at hsplit
      refine ⟨?_, fun ctx peer c m limit report ht hd hrun => ?_⟩
      · rw [Outbound.wire_eq, hcalls, Outbound.taken_append, ← hsplit]
        rfl
      · -- the session has read this header, so it is this file that it has sent
        have hd' : Delivers limit (Header.octets ⟨.retrieve, remote⟩).length 0
            (Header.octets ⟨.retrieve, remote⟩ ++ []) c.inbound.arrivals := by
          rwa [List.append_nil]
        obtain ⟨t, b, hread, -⟩ :=
          Header.read_of_delivers (h := ⟨.retrieve, remote⟩) c.inbound m.ambient hallowed hd'
        rcases sent_of_run ctx peer c m ht with
          ⟨header, d, content, hrequested, hsends, hreport⟩ | ⟨-, hnone⟩
        · obtain ⟨t', b', hread'⟩ := hrequested.read
          obtain rfl : header = ⟨.retrieve, remote⟩ :=
            (Except.ok.inj (Prod.mk.inj (hread.symm.trans hread')).1).symm
          obtain ⟨elapsed, rfl⟩ := hreport report hrun
          refine ⟨d, content, hrequested, rfl, hsends.whole ⟨_, hrun⟩,
            fun settings dest place t b fs hadmits hd =>
              ⟨fun hheld => ?_, fun hrate => receiveFile_ne_panicked hrate _ _ _ _⟩⟩
          obtain ⟨serial, elapsed, t', b', fs', hreceive, hfile, -⟩ :=
            receiveFile_of_delivers t b hadmits hd hheld
          rw [hreceive]
          exact ⟨elapsed, serial, rfl, hfile⟩
        · obtain ⟨e, he⟩ := hnone _ t b hread rfl
          rw [hrun] at he
          cases he

/-! ## Runs -/

/-- The files of a peer that has a file `draft`. -/
def draftFiles : Files :=
  { tree := ⟨[([], .folder 0o755), ([bytes "draft"], .file 0o644 0 (bytes "DATA"))]⟩, here := [] }

/-- What a peer reads from its `draft`. -/
theorem read_draftFiles : draftFiles.read (.of "draft") = .ok (bytes "DATA") := by
  cbv

/-- A peer that stores to a path with a link in it; what it sends comes in pieces, and a call to
read fails among them. -/
def cutNew : Connection :=
  ⟨.of [.data [83, 7, 0, 0], .fault (.bare .interrupted),
    .data ([0, 0, 0, 0, 0, 118, 105, 97, 47, 110, 101, 119] ++ bytes "DA"),
    .fault (.bare .timedOut), .data (bytes "TA"), .pause], .willing⟩

/-- `cutNew` brings the header and the content, in other pieces than they were sent in. -/
theorem delivers_cutNew : Delivers 3 (Header.octets ⟨.store, "via/new"⟩).length 0
    (Header.octets ⟨.store, "via/new"⟩ ++ bytes "DATA") cutNew.inbound.arrivals := by
  have h : Delivers 3 16 0 ([83, 7, 0, 0] ++
      (([0, 0, 0, 0, 0, 118, 105, 97, 47, 110, 101, 119] ++ bytes "DA") ++ (bytes "TA" ++ [])))
      cutNew.inbound.arrivals :=
    .piece (by decide) (.interrupted rfl (.piece (by decide)
      (.failed rfl (by decide) (.piece (by decide) (.ended [])))))
  have hlength : (Header.octets ⟨.store, "via/new"⟩).length = 16 := by decide
  have hoctets : Header.octets ⟨.store, "via/new"⟩ ++ bytes "DATA" = [83, 7, 0, 0] ++
      (([0, 0, 0, 0, 0, 118, 105, 97, 47, 110, 101, 119] ++ bytes "DA") ++ (bytes "TA" ++ [])) := by
    decide
  rwa [hlength, hoctets]

/-- The session accepts this header: it can stage and move the file that the link leads to. -/
theorem accepts_cutNew : Accepts { root := .of "srv", settings := {} } "peer" ⟨.store, "via/new"⟩
    cutNew ⟨linkedFiles, default, {}, none⟩ [bytes "srv", bytes "real", bytes "new"]
    (bytes "DATA").length where
  wellFormed := linkedFiles_wellFormed
  log := nofun
  resolved := by
    show resolve linkedFiles (.of "srv") (.of "via/new") = _
    cbv
  free := by
    show ∀ mode, linkedFiles.tree.get? [bytes "srv", bytes "real", bytes "new"] ≠
      some (.folder mode)
    have h : linkedFiles.tree.get? [bytes "srv", bytes "real", bytes "new"] = none := by
      decide
    simp [h]
  stageable := by
    have hprepare : prepareFolder (pathOf [bytes "srv", bytes "real", bytes "new"]) linkedFiles =
        (.ok (), linkedFiles) := by cbv
    exact stageable_of_ok hprepare (by cbv)
  fits := nofun
  synced := rfl

/-- The files of a listener that serves a file `note`. -/
def noteFiles : Files :=
  { tree := ⟨[([], .folder 0o755), ([bytes "srv"], .folder 0o755),
      ([bytes "srv", bytes "note"], .file 0o644 0 (bytes "TEXT"))]⟩
    here := [] }

/-- `noteFiles` is a well-formed tree. -/
theorem noteFiles_wellFormed : noteFiles.tree.WellFormed :=
  .of_entries (by decide) (by decide)

/-- The path of the note leads to it. -/
theorem resolve_noteFiles : resolve noteFiles (.of "srv") (.of "note") =
    .ok [bytes "srv", bytes "note"] := by
  cbv

/-- A peer that asks for it. -/
def askNote : Connection :=
  sending (Header.octets ⟨.retrieve, "note"⟩)

/-- `askNote` brings the header of a retrieve, and nothing after it. -/
theorem delivers_askNote : Delivers 3 (Header.octets ⟨.retrieve, "note"⟩).length 0
    (Header.octets ⟨.retrieve, "note"⟩ ++ []) askNote.inbound.arrivals := by
  rw [List.append_nil]
  exact .of_bytes ..

/-- The retrieve of `note` is answered. -/
theorem askNote_answered :
    ∃ report, (run { root := .of "srv", settings := {} } "peer" askNote
      ⟨noteFiles, default, {}, none⟩).1 = .ok report := by
  obtain ⟨t, b, hread, -⟩ := Header.read_of_delivers (h := ⟨.retrieve, "note"⟩) askNote.inbound
    default (by decide) delivers_askNote
  refine run_of_willing (d := [bytes "srv", bytes "note"]) baseRate_default hread rfl ?_ ?_
    Outbound.willing_willing
  · exact resolve_noteFiles
  · show noteFiles.isFile (pathOf [bytes "srv", bytes "note"]) = true
    cbv

/-- A file stored through a link, in other pieces than it was sent in; and a note that is asked
for, sent, and kept by the peer. -/
theorem round_trip_linked :
    Stored { root := .of "srv", settings := {} } (bytes "DATA")
        [bytes "srv", bytes "real", bytes "new"]
        (run { root := .of "srv", settings := {} } "peer" cutNew
          ⟨linkedFiles, default, {}, none⟩).1
        (run { root := .of "srv", settings := {} } "peer" cutNew
          ⟨linkedFiles, default, {}, none⟩).2.2.files ∧
      ∃ report content, (run { root := .of "srv", settings := {} } "peer" askNote
          ⟨noteFiles, default, {}, none⟩).1 = .ok report ∧
        (run { root := .of "srv", settings := {} } "peer" askNote
          ⟨noteFiles, default, {}, none⟩).2.1.outbound.wire = content ∧
        content = bytes "TEXT" ∧
        ∃ elapsed serial,
          (receiveFile {} (.of "copy") (.ofBytes content) default bareFiles).1 =
            .ok ⟨.receive, .of "copy", report.size, elapsed⟩ ∧
          (receiveFile {} (.of "copy") (.ofBytes content) default bareFiles).2.2.2.tree.get?
            [bytes "copy"] = some (.file 0o644 serial content) := by
  constructor
  · obtain ⟨report, hpush⟩ := push_of_willing baseRate_default Outbound.willing_willing
      read_draftFiles (show Header.lengthAllowed (bytes "via/new").length = true by decide) default
    obtain ⟨content, hcontent, -, -, hstored⟩ :=
      round_trip.1 {} draftFiles (.of "draft") "via/new" .willing default report hpush
    obtain rfl : bytes "DATA" = content :=
      Except.ok.inj (read_draftFiles.symm.trans hcontent)
    have hcut := hstored { root := .of "srv", settings := {} } "peer" cutNew _ _ delivers_cutNew
      accepts_cutNew
    exact hcut.holds (hcut.calm baseRate_default)
  · obtain ⟨t, b, hwrite, -⟩ := Header.write_of_willing Outbound.willing_willing
      (h := ⟨.retrieve, "note"⟩) (by decide) default
    obtain ⟨report, hrun⟩ := askNote_answered
    obtain ⟨d, content, hrequested, hsize, hwire, hreceived⟩ :=
      (round_trip.2 "note" .willing default (by rw [hwrite])).2 _ "peer" askNote
        ⟨noteFiles, default, {}, none⟩ 3 report noteFiles_wellFormed (.of_bytes ..) hrun
    -- the file it was asked for is the note
    have hresolved := hrequested.resolved
    obtain ⟨mode, serial, hfile⟩ := hrequested.file
    obtain rfl := Except.ok.inj (resolve_noteFiles.symm.trans hresolved)
    have hnote : noteFiles.tree.get? [bytes "srv", bytes "note"] =
        some (.file 0o644 0 (bytes "TEXT")) := by decide
    cases hnote.symm.trans hfile
    have hcopied := hreceived {} (.of "copy") [bytes "copy"] (.ofBytes (bytes "TEXT")) default
      bareFiles admits_bareFiles (.of_bytes ..)
    exact ⟨report, _, hrun, hwire, rfl, hcopied.holds (hcopied.calm baseRate_default)⟩

/-- The files of a listener that serves an empty folder. -/
def servingFiles : Files :=
  { tree := ⟨[([], .folder 0o755), ([bytes "srv"], .folder 0o755)]⟩, here := [] }

/-- A listener of this folder. -/
def listening (settings : Settings) (journal : Option Path) : Context :=
  { root := .of "srv", settings, journal }

/-- One that keeps its journal in the folder that it serves. -/
def journaling : Context :=
  listening {} (some (.of "srv/j"))

/-- One whose rate is more than a buffer can hold. -/
def overflowing : Context :=
  listening { baseRate := 9223372036854775808 } none

/-- A peer that stores to where the journal is. -/
def storeJournal : Connection :=
  sending (Header.octets ⟨.store, "j"⟩ ++ bytes "DATA")

/-- `storeJournal` brings the header of a store to `j`, and the content. -/
theorem delivers_storeJournal : Delivers 3 (Header.octets ⟨.store, "j"⟩).length 0
    (Header.octets ⟨.store, "j"⟩ ++ bytes "DATA") storeJournal.inbound.arrivals :=
  .of_bytes ..

/-- The path `j` leads to a location in the served folder. -/
theorem resolve_servingFiles : resolve servingFiles (.of "srv") (.of "j") =
    .ok [bytes "srv", bytes "j"] := by
  cbv

/-- The folder above it is ready. -/
theorem prepare_servingFiles : prepareFolder (pathOf [bytes "srv", bytes "j"]) servingFiles =
    (.ok (), servingFiles) := by
  cbv

/-- Whatever its settings are, and wherever its journal is, the listener takes what is sent. -/
theorem accepts_storeJournal (settings : Settings) (journal : Option Path) :
    Accepts (listening settings journal) "peer" ⟨.store, "j"⟩ storeJournal
      ⟨servingFiles, default, {}, none⟩ [bytes "srv", bytes "j"] (bytes "DATA").length where
  wellFormed := .of_entries (by decide) (by decide)
  log := nofun
  resolved := resolve_servingFiles
  free := by
    show ∀ mode, servingFiles.tree.get? [bytes "srv", bytes "j"] ≠ some (.folder mode)
    have h : servingFiles.tree.get? [bytes "srv", bytes "j"] = none := by decide
    simp [h]
  stageable := stageable_of_ok prepare_servingFiles (by cbv)
  fits := nofun
  synced := rfl

/-- The path of the journal leads into the served folder. -/
theorem keptAt_journal {fs : Files} (hhere : fs.here = [])
    (htop : fs.tree.get? [] = some (.folder 0o755))
    (hsrv : fs.tree.get? [bytes "srv"] = some (.folder 0o755)) {mode serial : Nat} {content : Bytes}
    (hfile : fs.tree.get? [bytes "srv", bytes "j"] = some (.file mode serial content)) :
    Journal.KeptAt (.of "srv/j") fs [bytes "srv", bytes "j"] := by
  have hroute : fs.route? (.of "srv/j") = .ok ⟨[], [bytes "srv", bytes "j"], false⟩ := by
    unfold Files.route?
    rw [hhere]
    decide
  have hwalk : walk fs.tree maxLinks [] [bytes "srv"] = .ok ([bytes "srv"], maxLinks) := by
    have hstay : isStay (bytes "srv") = false := by decide
    have hup : isUp (bytes "srv") = false := by decide
    have hshort : ¬ Route.maxName < (bytes "srv").length := by decide
    simp [walk, htop, hsrv, hstay, hup, hshort]
  have happ : approach fs.tree maxLinks ⟨[], [bytes "srv", bytes "j"], false⟩ =
      .ok ([bytes "srv"], maxLinks) :=
    approach_eq_ok.mpr ⟨hwalk, Tree.shape_of_get? hsrv⟩
  refine ⟨some (.file mode serial content), ?_⟩
  rw [hroute]
  have hlast : Route.lastName? ⟨[], [bytes "srv", bytes "j"], false⟩ = some (bytes "j") := by
    decide
  exact seek_here happ rfl hlast (by decide) hfile
    fun e he => by cases he; rfl

/-- What is received into the served folder leaves the folders as they were. -/
theorem received_journal {t : Inbound} {b : Ambient} {fs : Files} {report : Report}
    (hfs : (receiveFile {} (pathOf [bytes "srv", bytes "j"]) t b servingFiles).2.2.2 = fs)
    (hok : (receiveFile {} (pathOf [bytes "srv", bytes "j"]) t b servingFiles).1 = .ok report) :
    (∃ mode serial, fs.tree.get? [bytes "srv", bytes "j"] = some (.file mode serial t.pending)) ∧
      fs.here = [] ∧ fs.sizeLimit = none ∧ fs.tree.get? [] = some (.folder 0o755) ∧
      fs.tree.get? [bytes "srv"] = some (.folder 0o755) := by
  have hlimit := sizeLimit_receiveFile {} (pathOf [bytes "srv", bytes "j"]) t b servingFiles
  have hplace : servingFiles.slotOf (pathOf [bytes "srv", bytes "j"]) .busy =
      .ok [bytes "srv", bytes "j"] := by cbv
  obtain ⟨prepared, made, -, ⟨e, hfails, -⟩ | ⟨hready, cs, hevolves, hstages⟩⟩ :=
    receiveFile_cases {} t b servingFiles
      (show (pathOf [bytes "srv", bytes "j"]).isEmpty = false by decide)
  · rw [prepare_servingFiles] at hfails
    cases hfails
  rw [prepare_servingFiles] at hready
  obtain rfl := (Prod.mk.inj hready).2
  rw [hfs] at hevolves hlimit
  -- a receive that succeeds changes its destination and no other location
  obtain ⟨folder, name, source, earlier, mode, serial, hslot, -, -, -, hfile, -, hothers⟩ :=
    hstages.replaces.ok _ hok
  rw [← Except.ok.inj (hplace.symm.trans (hslot.slotOf .busy)), ← hevolves.tree] at hfile hothers
  exact ⟨⟨mode, serial, hfile⟩, hevolves.here, hlimit,
    (hothers [] (by decide)).trans (by decide),
    (hothers [bytes "srv"] (by decide)).trans (by decide)⟩

/-- The path that the peer asks for, as a listener finds it. -/
theorem resolve_storeJournal (settings : Settings) (journal : Option Path) (clock : Clock) :
    resolve (opening (listening settings journal) "peer" ⟨.store, "j"⟩ clock servingFiles)
      (listening settings journal).root (.of "j") = .ok [bytes "srv", bytes "j"] :=
  resolve_servingFiles

/-- At such a rate the listener panics before it has read anything of the file. -/
theorem overflowing_panics :
    (run overflowing "peer" storeJournal ⟨servingFiles, default, {}, none⟩).1 =
      .error .panicked := by
  obtain ⟨t, b, hread, -⟩ := Header.read_of_delivers (h := ⟨.store, "j"⟩) storeJournal.inbound
    default (by decide) delivers_storeJournal
  -- nobody else comes meanwhile, so the receive is alone
  obtain rfl := ambient_of_sending (by decide) hread
  exact run_panics hread (resolve_storeJournal { baseRate := 9223372036854775808 } none _)
    (accepts_storeJournal { baseRate := 9223372036854775808 } none).stageable
    (show maxBuffer < chunkSize { baseRate := 9223372036854775808 } (default : Ambient).register
      by decide)

/-- **A record follows the content** where the listener keeps its journal at the location that the
peer stores to, so that there is more in the file than what was sent. And a listener whose rate is
more than a buffer can hold panics, so nothing is stored at all. -/
theorem run_follows_journal :
    (∃ report, (push {} draftFiles (.of "draft") "j" .willing default).1 = .ok report) ∧
      Delivers 3 (Header.octets ⟨.store, "j"⟩).length 0
        (Header.octets ⟨.store, "j"⟩ ++ bytes "DATA") storeJournal.inbound.arrivals ∧
      Accepts journaling "peer" ⟨.store, "j"⟩ storeJournal ⟨servingFiles, default, {}, none⟩
        [bytes "srv", bytes "j"] (bytes "DATA").length ∧
      (∃ report, (run journaling "peer" storeJournal ⟨servingFiles, default, {}, none⟩).1 =
        .ok report) ∧
      (∀ mode serial, (run journaling "peer" storeJournal
        ⟨servingFiles, default, {}, none⟩).2.2.files.tree.get? [bytes "srv", bytes "j"] ≠
          some (.file mode serial (bytes "DATA"))) ∧
      Accepts overflowing "peer" ⟨.store, "j"⟩ storeJournal ⟨servingFiles, default, {}, none⟩
        [bytes "srv", bytes "j"] (bytes "DATA").length ∧
      (run overflowing "peer" storeJournal ⟨servingFiles, default, {}, none⟩).1 =
        .error .panicked := by
  have hallowed : Header.lengthAllowed (bytes "j").length = true := by decide
  have hpush := push_of_willing baseRate_default Outbound.willing_willing read_draftFiles
    hallowed default
  have haccepts : Accepts journaling "peer" ⟨.store, "j"⟩ storeJournal
      ⟨servingFiles, default, {}, none⟩ [bytes "srv", bytes "j"] (bytes "DATA").length :=
    accepts_storeJournal {} (some (.of "srv/j"))
  obtain ⟨⟨elapsed, hresult⟩, -⟩ := run_of_store haccepts hallowed delivers_storeJournal
    (run_ne_panicked baseRate_default _ _ _)
  refine ⟨hpush, delivers_storeJournal, haccepts, ⟨_, hresult⟩,
    fun mode serial => ?_, accepts_storeJournal _ _, overflowing_panics⟩
  obtain ⟨t, b, hread, hrest⟩ := Header.read_of_delivers (h := ⟨.store, "j"⟩) storeJournal.inbound
    default hallowed delivers_storeJournal
  obtain ⟨hrun, -⟩ := run_of_read journaling "peer" (c := storeJournal)
    (m := ⟨servingFiles, default, {}, none⟩) hread
  have hresolve : resolve (opening journaling "peer" ⟨.store, "j"⟩ b.clock servingFiles)
      journaling.root (.of "j") = .ok [bytes "srv", bytes "j"] :=
    resolve_storeJournal {} (some (.of "srv/j")) b.clock
  obtain ⟨hserved, -⟩ := serve_result (c := { storeJournal with inbound := t })
    (m := ⟨servingFiles, b, {}, none⟩) hresolve
  obtain ⟨clock, e, files, record, n, hfiles, hrecorded⟩ :=
    serve_recorded (c := { storeJournal with inbound := t }) (m := ⟨servingFiles, b, {}, none⟩)
      (show journaling.journal = some (.of "srv/j") from rfl) hresolve
      (hasPanicked_eq_false (transfer_ne_panicked baseRate_default _ _ _ _))
  rw [hrun, hserved] at hresult
  -- the record goes to the file that was just received
  obtain ⟨⟨mode', serial', hfile⟩, hhere, hlimit, htop, hsrv⟩ :=
    received_journal hfiles.symm hresult
  rw [show t.pending = bytes "DATA" from hrest.pendingOf_eq] at hfile
  obtain ⟨more, hmore, hne⟩ := Journal.get?_add_of_kept { files with drawn := n } hfile
    (keptAt_journal hhere htop hsrv hfile) hlimit record
  rw [hrun, hrecorded, hmore]
  intro h
  simp [hne] at h

end Session

end Courier
