import Courier.Proofs.Delivery
import Courier.Proofs.Effects
import Courier.Session.Run

/-!
# A session stays below its root

A session adds its lines to the log, serves one transfer, and adds a record to the journal. The
transfer is all that a peer has a say in, and it stays strictly below the root, unless the path
that the peer sends leads back to the root.

Main results:

* `Session.resolve_eq_top_iff` — a path is resolved to the root if its names lead back to it.
* `Session.run_effects` — what a session changes lies strictly below the root, and exactly when
  it does not.
-/

namespace Courier

open Files

/-! ## Lines in the log -/

/-- A line is added to the log, if anything is. -/
theorem EventLog.note_cases (log : EventLog) (clock : Clock) (e : Event) (fs : Files) :
    log.note clock e fs = fs ∨ ∃ handle octets, log.handle = some handle ∧
      log.note clock e fs = fs.commit (.append handle.location octets) := by
  unfold EventLog.note
  split
  · rename_i handle hhandle
    rcases append_eq fs handle (bytes (line clock.wall e)) with h | ⟨written, h⟩
    · exact .inl h
    · exact .inr ⟨handle, written, hhandle, h⟩
  · exact .inl rfl

/-- An entry in the event log makes no file or folder and removes none. -/
theorem EventLog.shape_note (log : EventLog) (clock : Clock) (e : Event) (fs : Files)
    (l : Location) : (log.note clock e fs).tree.shape l = fs.tree.shape l := by
  rcases log.note_cases clock e fs with h | ⟨handle, octets, -, h⟩
  · rw [h]
  · rw [h]
    exact Change.shape_append ..

/-- An entry in the event log does not change the working folder. -/
theorem EventLog.here_note (log : EventLog) (clock : Clock) (e : Event) (fs : Files) :
    (log.note clock e fs).here = fs.here := by
  rcases log.note_cases clock e fs with h | ⟨handle, octets, -, h⟩
  · rw [h]
  · rw [h]
    rfl

/-- Where a path leads does not depend on what is in the files. -/
theorem Files.stat_of_shape_eq {fs fs' : Files} {p : Path} {l : Location} {e : Entry}
    (hshape : ∀ l, fs'.tree.shape l = fs.tree.shape l) (hhere : fs'.here = fs.here)
    (h : fs.stat p = .ok (l, e)) : ∃ e', fs'.stat p = .ok (l, e') :=
  stat_mono (fun m _ hs => hshape m ▸ hs) hhere h

namespace Session

/-- A path is resolved to the root itself exactly where its names lead back to the root. -/
theorem resolve_eq_top_iff {fs : Files} {root asked : Path} {top r : Location} {e : Entry}
    (ht : fs.tree.WellFormed) (hroot : fs.stat root = .ok (top, e))
    (h : resolve fs root asked = .ok r) : r = top ↔ Leads fs.tree top asked.names top := by
  obtain ⟨top', e', hroot', -, -, -, found, rest, reached, hnames, hleads, rfl, hmissing⟩ :=
    resolve_eq_ok ht h
  obtain rfl : top' = top := (Prod.mk.inj (Except.ok.inj (hroot'.symm.trans hroot))).1
  constructor
  · intro heq
    -- whatever part of the names is said to be missing is there, as it leads to the root
    have hon : Leads fs.tree reached rest top' := by
      rw [← heq]
      exact leads_of_firm ht (heq ▸ firm_of_stat ht hroot)
    exact hnames ▸ leads_append.mpr ⟨reached, hleads, hon⟩
  · intro hback
    rw [hnames] at hback
    -- names that are missing lead nowhere, so none are missing
    rcases Classical.em (rest = []) with rfl | hne
    · rw [List.append_nil] at hback ⊢
      exact hleads.unique hback
    · exact absurd hback (hmissing rest List.prefix_rfl hne _)

/-! ## A whole session -/

/-- A record is added to the journal, if at all. -/
def Journaled (ctx : Context) (fs fs' : Files) : Prop :=
  fs' = fs ∨ ∃ journal record n, ctx.journal = some journal ∧
    fs' = (Journal.add journal record { fs with drawn := n }).2

/-- What is written down of a transfer that is over: a line in the log and a record in the journal,
and nothing at all of one that panicked. -/
inductive Concluded (ctx : Context) (fs : Files) : Files → Prop where
  | panicked : Concluded ctx fs fs
  | noted {clock : Clock} {e : Event} {fs' : Files}
      (hrecord : Journaled ctx (ctx.log.note clock e fs) fs') : Concluded ctx fs fs'

/-- What a session does to the files: between the lines in the log and the record in the journal,
which are the listener's own, it makes the changes `done`, the latest in front. -/
inductive Effects (ctx : Context) (fs : Files) : List Change → Files → Prop where
  | refused : Effects ctx fs [] fs
  | unresolved (clock : Clock) (e : Event) : Effects ctx fs [] (ctx.log.note clock e fs)
  | transferred {clock : Clock} {e : Event} {done : List Change} {fs₂ fs' : Files}
      (hdone : (ctx.log.note clock e fs).Evolves done fs₂) (hend : Concluded ctx fs₂ fs') :
      Effects ctx fs done fs'

/-- Without a log and a journal these are all the changes there are. -/
theorem Effects.changes_of_silent {ctx : Context} {fs fs' : Files} {done : List Change}
    (h : Effects ctx fs done fs') (hlog : ctx.log = .silent) (hjournal : ctx.journal = none) :
    fs'.changes = done ++ fs.changes := by
  -- without a log no line is added
  have hnote (clock : Clock) (e : Event) (fs : Files) : ctx.log.note clock e fs = fs := by
    rw [hlog]
    rfl
  cases h with
  | refused => rfl
  | unresolved => rw [hnote]; rfl
  | transferred hdone hend =>
    rw [hnote] at hdone
    cases hend with
    | panicked => exact hdone.changes
    | noted hrecord =>
      rcases hrecord with rfl | ⟨journal, _, _, hjournal', _⟩
      · rw [hnote]
        exact hdone.changes
      · rw [hjournal] at hjournal'
        cases hjournal'

/-- After a session nothing happens but an entry in the journal, if there is one. -/
theorem journaled_journalize (ctx : Context) (command : Command) (peer : String) (file : Path)
    (result : Except TransferError Report) (m : Machine) :
    Journaled ctx m.files (journalize ctx command peer file result m).files := by
  unfold journalize
  split
  · exact .inl rfl
  · rename_i journal hjournal
    refine .inr ⟨journal, recordOf m.ambient.clock m.files.drawn command peer file result,
      m.files.drawn + 1, hjournal, ?_⟩
    cases hadd : Journal.add journal
        (recordOf m.ambient.clock m.files.drawn command peer file result)
        { m.files with drawn := m.files.drawn + 1 } with
    | mk added files => cases added <;> simp [hadd, Machine.warn]

/-- Of a transfer that has not panicked everything is written down. -/
theorem conclude_of_not {result : Except TransferError Report}
    (h : TransferError.hasPanicked result = false) (ctx : Context) (command : Command)
    (peer : String) (file : Path) (m : Machine) :
    conclude ctx command peer file result m = journalize ctx command peer file result
      (m.mapFiles (ctx.log.note m.ambient.clock (eventOf command file result))) := by
  unfold conclude
  rw [h]
  rfl

/-- Entries in the log and the journal are all that comes after a transfer. -/
theorem concluded_conclude (ctx : Context) (command : Command) (peer : String) (file : Path)
    (result : Except TransferError Report) (m : Machine) :
    Concluded ctx m.files (conclude ctx command peer file result m).files := by
  cases hpanicked : TransferError.hasPanicked result with
  | true =>
    unfold conclude
    rw [hpanicked]
    exact .panicked
  | false =>
    rw [conclude_of_not hpanicked]
    exact .noted (journaled_journalize ctx command peer file result (m.mapFiles _))

/-- The files as a session finds them when its first line is in the log. -/
def opening (ctx : Context) (peer : String) (header : Header) (clock : Clock)
    (fs : Files) : Files :=
  ctx.log.note clock (.session peer header.command header.path) fs

/-- A peer stores to a path that is resolved to the root, and a file can be staged next to the
root. -/
structure TakesRoot (ctx : Context) (peer : String) (c : Connection) (m : Machine)
    (top : Location) : Prop where
  served : ∃ header inbound a, Header.read c.inbound m.ambient = (.ok header, inbound, a) ∧
    header.command = .store ∧
    resolve (opening ctx peer header a.clock m.files) ctx.root (.of header.path) = .ok top ∧
    Transfer.Stageable (pathOf top) (opening ctx peer header a.clock m.files)
  notTop : top ≠ []

/-- A session whose path is refused has told the log of its header. -/
theorem serve_eq_error {ctx : Context} {peer : String} {header : Header} {c : Connection}
    {m : Machine} {e : TransferError}
    (h : resolve (opening ctx peer header m.ambient.clock m.files) ctx.root (.of header.path) =
      .error e) :
    serve ctx peer header c m =
      (.error e, c, { m with files := opening ctx peer header m.ambient.clock m.files }) := by
  unfold opening at h ⊢
  unfold serve
  dsimp only [Machine.mapFiles]
  rw [h]

/-- A session whose path is resolved runs its transfer, and then writes down what came of it. -/
theorem serve_eq {ctx : Context} {peer : String} {header : Header} {c c' : Connection}
    {m n : Machine} {r : Location} {result : Except TransferError Report}
    (h : resolve (opening ctx peer header m.ambient.clock m.files) ctx.root (.of header.path) =
      .ok r)
    (htransfer : transfer ctx header.command (pathOf r) c
      { m with files := opening ctx peer header m.ambient.clock m.files } = (result, c', n)) :
    serve ctx peer header c m =
      (result, c', conclude ctx header.command peer (pathOf r) result n) := by
  unfold opening at h htransfer
  unfold serve
  dsimp only [Machine.mapFiles] at h ⊢
  rw [h]
  dsimp only
  rw [htransfer]

/-- A header that resolves to a location is served by a transfer there, and then the entries. -/
theorem serve_of_ok {ctx : Context} {peer : String} {header : Header} {c : Connection}
    {m : Machine} {r : Location}
    (h : resolve (opening ctx peer header m.ambient.clock m.files) ctx.root (.of header.path) =
      .ok r) :
    Concluded ctx (transfer ctx header.command (pathOf r) c
        { m with files := opening ctx peer header m.ambient.clock m.files }).2.2.files
      (serve ctx peer header c m).2.2.files := by
  rw [serve_eq h rfl]
  exact concluded_conclude ctx header.command peer (pathOf r) _ _

/-- A transfer changes files only by receiving one. -/
theorem transfer_files (ctx : Context) (command : Command) (file : Path) (c : Connection)
    (m : Machine) :
    (command = .retrieve ∧ (transfer ctx command file c m).2.2.files = m.files) ∨
      (command = .store ∧ (transfer ctx command file c m).2.2.files =
        (Transfer.receiveFile ctx.settings file c.inbound m.ambient m.files).2.2.2) := by
  cases command with
  | store => exact .inr ⟨rfl, rfl⟩
  | retrieve =>
    refine .inl ⟨rfl, ?_⟩
    unfold transfer
    dsimp only
    split <;> rfl

/-- What a session that has read its header does to the tree, and when it touches anything that is
not strictly below the root. -/
theorem serve_effects (ctx : Context) (peer : String) (header : Header) (c : Connection)
    (m : Machine) (ht : m.files.tree.WellFormed) :
    ∃ done, Effects ctx m.files done (serve ctx peer header c m).2.2.files ∧
      ((∀ top e, m.files.stat ctx.root ≠ .ok (top, e)) → done = []) ∧
      ∀ top e, m.files.stat ctx.root = .ok (top, e) →
        ((∃ ch ∈ done, ∃ l ∈ ch.touched, ¬ StrictlyBelow top l) ↔
          header.command = .store ∧
          resolve (opening ctx peer header m.ambient.clock m.files) ctx.root (.of header.path) =
            .ok top ∧
          top ≠ [] ∧ Transfer.Stageable (pathOf top)
            (opening ctx peer header m.ambient.clock m.files)) := by
  -- the line in the log does not show in the tree
  have hshape (l : Location) :
      (opening ctx peer header m.ambient.clock m.files).tree.shape l = m.files.tree.shape l :=
    EventLog.shape_note ..
  have hhere : (opening ctx peer header m.ambient.clock m.files).here = m.files.here :=
    EventLog.here_note ..
  cases hresolve : resolve (opening ctx peer header m.ambient.clock m.files) ctx.root
      (.of header.path) with
  | error e =>
    rw [serve_eq_error hresolve]
    refine ⟨[], .unresolved _ _, fun _ => rfl, fun top e' _ => ?_⟩
    constructor
    · rintro ⟨ch, hch, -⟩
      cases hch
    · rintro ⟨-, h, -⟩
      cases h
  | ok r =>
    have ht' := ht.of_shape_eq hshape
    obtain ⟨top', e', hroot', hbelow, hclear, hproper, -⟩ := resolve_eq_ok ht' hresolve
    -- the root is where it was before the line in the log
    obtain ⟨e'', hroot⟩ := Files.stat_of_shape_eq (fun l => (hshape l).symm) hhere.symm hroot'
    have htop {top : Location} {e : Entry} (h : m.files.stat ctx.root = .ok (top, e)) :
        top' = top :=
      (Prod.mk.inj (Except.ok.inj (hroot.symm.trans h))).1
    have hend := serve_of_ok (c := c) hresolve
    rcases transfer_files ctx header.command (pathOf r) c
        { m with files := opening ctx peer header m.ambient.clock m.files } with
      ⟨hcommand, hfiles⟩ | ⟨hcommand, hfiles⟩
    · -- a peer that retrieves changes nothing
      rw [hfiles] at hend
      refine ⟨[], .transferred (.refl _) hend, fun _ => rfl, fun top e _ => ?_⟩
      rw [hcommand]
      constructor
      · rintro ⟨ch, hch, -⟩
        cases hch
      · rintro ⟨h, -⟩
        cases h
    · rw [hfiles] at hend
      obtain ⟨done, hdone, hiff⟩ := receive_effects ctx.settings c.inbound m.ambient ht' hproper
        hclear (firm_of_stat ht' hroot') hbelow
      refine ⟨done, .transferred hdone hend, fun h => absurd hroot (h _ _), fun top e h => ?_⟩
      obtain rfl := htop h
      rw [hiff]
      constructor
      · rintro ⟨rfl, hne, hstage⟩
        exact ⟨hcommand, rfl, hne, hstage⟩
      · rintro ⟨-, hr, hne, hstage⟩
        obtain rfl := Except.ok.inj hr
        exact ⟨rfl, hne, hstage⟩

/-- **A session stays below its root**, the log and the journal of the listener aside, and there is
exactly one way out: a peer stores to a path whose names lead back to the root, and a file is
staged next to the root. -/
theorem run_effects (ctx : Context) (peer : String) (c : Connection) (m : Machine)
    (ht : m.files.tree.WellFormed) :
    ∃ done, Effects ctx m.files done (run ctx peer c m).2.2.files ∧
      ((∀ top e, m.files.stat ctx.root ≠ .ok (top, e)) → done = []) ∧
      ∀ top e, m.files.stat ctx.root = .ok (top, e) →
        ((∃ ch ∈ done, ∃ l ∈ ch.touched, ¬ StrictlyBelow top l) ↔ TakesRoot ctx peer c m top) ∧
        ∀ asked r, resolve m.files ctx.root asked = .ok r →
          (r = top ↔ Leads m.files.tree top asked.names top) := by
  have hresolve {top : Location} {e : Entry} (h : m.files.stat ctx.root = .ok (top, e)) :
      ∀ asked r, resolve m.files ctx.root asked = .ok r →
        (r = top ↔ Leads m.files.tree top asked.names top) :=
    fun _ _ hr => resolve_eq_top_iff ht h hr
  unfold run
  -- without a header nothing is served
  cases hread : Header.read c.inbound m.ambient with
  | mk found rest =>
    obtain ⟨inbound, a⟩ := rest
    cases found with
    | error e =>
      refine ⟨[], .refused, fun _ => rfl, fun top e' h => ⟨?_, hresolve h⟩⟩
      constructor
      · rintro ⟨ch, hch, -⟩
        cases hch
      · rintro ⟨⟨header, inbound', a', hread', -⟩, -⟩
        rw [hread] at hread'
        cases hread'
    | ok header =>
      obtain ⟨done, heffects, hnone, hiff⟩ :=
        serve_effects ctx peer header { c with inbound } { m with ambient := a } ht
      refine ⟨done, heffects, hnone, fun top e h => ⟨(hiff top e h).trans ?_, hresolve h⟩⟩
      constructor
      · rintro ⟨hcommand, hr, hne, hstage⟩
        exact ⟨⟨header, inbound, a, hread, hcommand, hr, hstage⟩, hne⟩
      · rintro ⟨⟨header', inbound', a', hread', hcommand, hr, hstage⟩, hne⟩
        rw [hread] at hread'
        cases hread'
        exact ⟨hcommand, hr, hne, hstage⟩

/-! ## A way in, and the way out -/

/-- A peer that sends `octets` in one piece. -/
def sending (octets : Bytes) : Connection :=
  ⟨.ofBytes octets, .willing⟩

/-- A peer that sends a header first is understood, whatever follows. -/
theorem read_sending {h : Header} (hallowed : Header.lengthAllowed (bytes h.path).length = true)
    (content : Bytes) (a : Ambient) :
    ∃ inbound b, Header.read (sending (h.octets ++ content)).inbound a = (.ok h, inbound, b) := by
  obtain ⟨inbound, b, hread, -⟩ := Header.read_of_delivers (sending (h.octets ++ content)).inbound a
    hallowed (.of_bytes 1 _ 0 (h.octets ++ content))
  exact ⟨inbound, b, hread⟩

/-- A peer that stores to a path with a link in it. -/
def storeNew : Connection :=
  sending (Header.octets ⟨.store, "via/new"⟩ ++ bytes "DATA")

/-- A store through a link inside the root: all it does lies strictly below the root. -/
theorem run_effects_linked :
    linkedFiles.tree.WellFormed ∧
      ∃ done, Effects { root := .of "srv", settings := {} } linkedFiles done
          (run { root := .of "srv", settings := {} } "peer" storeNew
            ⟨linkedFiles, default, {}, none⟩).2.2.files ∧
        ∀ ch ∈ done, ∀ l ∈ ch.touched, StrictlyBelow [bytes "srv"] l := by
  have hroot : linkedFiles.stat (.of "srv") = .ok ([bytes "srv"], .folder 0o755) := by cbv
  have hresolve : resolve linkedFiles (.of "srv") (.of "via/new") =
      .ok [bytes "srv", bytes "real", bytes "new"] := by cbv
  obtain ⟨done, heffects, -, hiff⟩ := run_effects { root := .of "srv", settings := {} } "peer"
    storeNew ⟨linkedFiles, default, {}, none⟩ linkedFiles_wellFormed
  refine ⟨linkedFiles_wellFormed, done, heffects, fun ch hch l hl => ?_⟩
  -- a way out would need the path to be resolved to the root
  refine Classical.byContradiction fun hnot => ?_
  obtain ⟨⟨header, inbound, a, hread, -, hr, -⟩, -⟩ :=
    (hiff _ _ hroot).1.mp ⟨ch, hch, l, hl, hnot⟩
  obtain ⟨inbound', b, hread'⟩ : ∃ inbound b, Header.read storeNew.inbound default =
      (.ok ⟨.store, "via/new"⟩, inbound, b) := read_sending (by decide) _ _
  have hheader : header = ⟨.store, "via/new"⟩ :=
    Except.ok.inj (Prod.mk.inj (hread.symm.trans hread')).1
  rw [hheader] at hr
  have heq := Except.ok.inj (hresolve.symm.trans hr)
  simp at heq

/-- A folder `srv` with a link `self` to itself in it. -/
def circularFiles : Files :=
  { tree := ⟨[([], .folder 0o755), ([bytes "srv"], .folder 0o755),
      ([bytes "srv", bytes "self"], .link (.of "."))]⟩
    here := [] }

/-- `circularFiles` is a well-formed tree. -/
theorem circularFiles_wellFormed : circularFiles.tree.WellFormed :=
  .of_entries (by decide) (by decide)

/-- A path that leads back to the root is not refused, and a store to it reaches out of the root. -/
theorem run_leaves_root :
    circularFiles.tree.WellFormed ∧
      circularFiles.stat (.of "srv") = .ok ([bytes "srv"], .folder 0o755) ∧
      resolve circularFiles (.of "srv") (.of "self") = .ok [bytes "srv"] ∧
      ∃ ch ∈ (run { root := .of "srv", settings := {} } "peer"
          (sending (Header.octets ⟨.store, "self"⟩))
          ⟨circularFiles, default, {}, none⟩).2.2.files.changes,
        ∃ l ∈ ch.touched, ¬ StrictlyBelow [bytes "srv"] l := by
  have hroot : circularFiles.stat (.of "srv") = .ok ([bytes "srv"], .folder 0o755) := by cbv
  have hresolve : resolve circularFiles (.of "srv") (.of "self") = .ok [bytes "srv"] := by cbv
  have hprepare : Transfer.prepareFolder (pathOf [bytes "srv"]) circularFiles =
      (.ok (), circularFiles) := by cbv
  have hmake : (Staged.make (pathOf [bytes "srv"]) circularFiles).1.isOk = true := by cbv
  refine ⟨circularFiles_wellFormed, hroot, hresolve, ?_⟩
  obtain ⟨inbound, b, hread⟩ := read_sending (h := ⟨.store, "self"⟩) (by decide) [] default
  rw [List.append_nil] at hread
  -- what is touched is known in general: outside of the root if the path leads to the root itself
  obtain ⟨done, heffects, -, hiff⟩ := serve_effects { root := .of "srv", settings := {} } "peer"
    ⟨.store, "self"⟩ ⟨inbound, .willing⟩ ⟨circularFiles, b, {}, none⟩ circularFiles_wellFormed
  have hrun : run { root := .of "srv", settings := {} } "peer"
      (sending (Header.octets ⟨.store, "self"⟩)) ⟨circularFiles, default, {}, none⟩ =
      serve { root := .of "srv", settings := {} } "peer" ⟨.store, "self"⟩ ⟨inbound, .willing⟩
        ⟨circularFiles, b, {}, none⟩ := by
    unfold run
    rw [hread]
    rfl
  have hchanges := heffects.changes_of_silent rfl rfl
  rw [hrun, hchanges, show circularFiles.changes = [] from rfl, List.append_nil]
  refine (hiff _ _ hroot).mpr ⟨rfl, hresolve, by simp, circularFiles, ?_⟩
  cases hstaged : Staged.make (pathOf [bytes "srv"]) circularFiles with
  | mk made fs' =>
    rw [hstaged] at hmake
    cases made with
    | error e => cases hmake
    | ok staged => exact ⟨staged, fs', hprepare, rfl⟩

end Session

end Courier
