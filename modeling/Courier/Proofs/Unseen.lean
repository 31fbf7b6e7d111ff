import Courier.Proofs.Outside

/-!
# No one sees who keeps records

What a listener writes into its log and its journal is written before and after the transfer, and
outside of what is served. So two sessions that begin alike come to the same, whatever log and
journal their listeners keep, if any, and whether or not these can be written to.

Main results:

* `Context.Outside` — a listener whose log and journal lie outside of what it serves.
* `Session.run_unseen` — two sessions that differ in their log and journal only.
-/

namespace Courier

open Files

/-! ## The log -/

namespace EventLog

variable {top : Location} {fs : Files}

/-- A line in the log changes nothing but the content of its file, and that only if there is one. -/
theorem agree_note (log : EventLog) (clock : Clock) (e : Event) (fs : Files) :
    fs.Agree (fun l => log.At l ∧ fs.tree.get? l ≠ none) (log.note clock e fs) := by
  have hnumbers := log.numbers_note clock e fs
  refine ⟨log.here_note clock e fs, congrArg Prod.fst hnumbers, congrArg Prod.snd hnumbers, ?_, ?_⟩
  · intro l
    unfold note
    split
    · exact hollow_append fs _ _ l
    · rfl
  · intro l hl
    rcases log.grown_note clock e fs l with hsame | ⟨hat, hlonger⟩
    · exact hsame
    · -- what gets longer was there before
      obtain ⟨mode, serial, content, more, hfile, -⟩ := hlonger
      exact absurd ⟨hat, by rw [hfile]; nofun⟩ hl

/-- A line in the log changes nothing outside of what it is written to. -/
theorem sameOutside_note (log : EventLog) (clock : Clock) (e : Event) (fs : Files) :
    fs.SameOutside top (log.note clock e fs) :=
  ⟨log.here_note clock e fs, fun x _ => log.shape_note clock e fs x⟩

/-- A line in the log makes no two files of one number. -/
theorem distinct_note (log : EventLog) (clock : Clock) (e : Event) (h : fs.tree.Distinct) :
    (log.note clock e fs).tree.Distinct := by
  rcases log.note_cases clock e fs with hnote | ⟨handle, octets, -, hnote⟩
  · rwa [hnote]
  · rw [hnote]
    exact h.apply _

end EventLog

namespace Session

/-- Neither the log of a listener nor its journal lies in what is served. -/
structure Context.Outside (ctx : Context) (top : Location) (fs : Files) : Prop where
  log : ∀ handle, ctx.log.handle = some handle → ¬ top <+: handle.location
  journal : ∀ journal, ctx.journal = some journal → Journal.Outside top journal fs

variable {ctx ctx' : Context} {top : Location} {fs : Files} {peer : String} {header : Header}
  {c : Connection} {m : Machine} {d : Location}

/-- A line in the log does not show in what is served. -/
theorem Context.Outside.get?_note (h : ctx.Outside top fs) (clock : Clock) (e : Event)
    (fs' : Files) {l : Location} (hl : top <+: l) :
    (ctx.log.note clock e fs').tree.get? l = fs'.tree.get? l := by
  refine (ctx.log.grown_note clock e fs').same ?_
  rintro ⟨handle, hhandle, rfl⟩
  exact h.log handle hhandle hl

/-- Neither does a record in the journal. -/
theorem Context.Outside.get?_journalize (h : ctx.Outside top fs)
    (hsame : fs.SameOutside top m.files) (command : Command) (peer : String) (file : Path)
    (result : Except TransferError Report) {l : Location} (hl : top <+: l) :
    (journalize ctx command peer file result m).files.tree.get? l = m.files.tree.get? l := by
  cases hjournal : ctx.journal with
  | none =>
    unfold journalize
    rw [hjournal]
  | some journal =>
    rw [journalize_added hjournal]
    have hdrawn : fs.SameOutside top { m.files with drawn := m.files.drawn + 1 } :=
      ⟨hsame.here, hsame.shape⟩
    exact (h.journal journal hjournal).get?_add hdrawn hl _

/-- Two sessions come to the same result, have read and written the same, leave the same count of
transfers at the same time, and the same files below the root. -/
structure Same (top : Location) (x y : Except TransferError Report × Connection × Machine) :
    Prop where
  result : y.1 = x.1
  connection : y.2.1 = x.2.1
  ambient : y.2.2.ambient = x.2.2.ambient
  served : ∀ l, top <+: l → y.2.2.files.tree.get? l = x.2.2.files.tree.get? l

/-- What a session comes to is what its transfer comes to. -/
theorem same_serve (hout : ctx.Outside top m.files) {e : Entry}
    (ht : m.files.tree.WellFormed) (hroot : m.files.stat ctx.root = .ok (top, e))
    (h : resolve (opening ctx peer header m.ambient.clock m.files) ctx.root (.of header.path) =
      .ok d) :
    Same top (transfer ctx header.command (pathOf d) c
        { m with files := opening ctx peer header m.ambient.clock m.files })
      (serve ctx peer header c m) := by
  have hopened : m.files.SameOutside top (opening ctx peer header m.ambient.clock m.files) :=
    ctx.log.sameOutside_note ..
  obtain ⟨e', hroot'⟩ := stat_of_shape_eq
    (fun l => EventLog.shape_note ctx.log m.ambient.clock _ m.files l) hopened.here hroot
  have hinside := inside_transfer ctx header.command c
    (m := { m with files := opening ctx peer header m.ambient.clock m.files })
    (ht.of_shape_eq fun l => EventLog.shape_note ..) hroot' h
  have hdone := hopened.trans hinside.sameOutside
  obtain ⟨result, c', n, htransfer⟩ : ∃ result c' n, transfer ctx header.command (pathOf d) c
      { m with files := opening ctx peer header m.ambient.clock m.files } = (result, c', n) :=
    ⟨_, _, _, rfl⟩
  rw [htransfer] at hdone
  rw [serve_eq h htransfer, htransfer]
  refine ⟨rfl, rfl, ambient_conclude .., fun l hl => ?_⟩
  cases hend : TransferError.hasPanicked result with
  | true =>
    unfold conclude
    rw [hend]
    rfl
  | false =>
  rw [conclude_of_not hend]
  -- neither the line nor the record that follow the transfer are served
  have hnoted := hdone.trans
    (ctx.log.sameOutside_note n.ambient.clock (eventOf header.command (pathOf d) result) n.files)
  refine (hout.get?_journalize (m := n.mapFiles (ctx.log.note n.ambient.clock
    (eventOf header.command (pathOf d) result))) hnoted _ _ _ _ hl).trans ?_
  exact hout.get?_note n.ambient.clock _ n.files hl

/-- The files as two listeners find them when each has told its log of a header. -/
theorem agree_opening (ctx ctx' : Context) (peer : String) (header : Header) (clock : Clock)
    (fs : Files) :
    (opening ctx peer header clock fs).Agree
      (fun l => (ctx.log.At l ∨ ctx'.log.At l) ∧ fs.tree.get? l ≠ none)
      (opening ctx' peer header clock fs) := by
  have hfirst : fs.Agree (fun l => (ctx.log.At l ∨ ctx'.log.At l) ∧ fs.tree.get? l ≠ none)
      (opening ctx peer header clock fs) :=
    (ctx.log.agree_note ..).mono fun l hl => ⟨.inl hl.1, hl.2⟩
  have hsecond : fs.Agree (fun l => (ctx.log.At l ∨ ctx'.log.At l) ∧ fs.tree.get? l ≠ none)
      (opening ctx' peer header clock fs) :=
    (ctx'.log.agree_note ..).mono fun l hl => ⟨.inr hl.1, hl.2⟩
  exact hfirst.symm.trans hsecond

/-- A transfer depends on the settings of its context only. -/
theorem transfer_congr (hsettings : ctx'.settings = ctx.settings) (command : Command)
    (file : Path) (c : Connection) (m : Machine) :
    transfer ctx' command file c m = transfer ctx command file c m := by
  unfold transfer
  rw [hsettings]

/-- A file that is found where a path is resolved to is served. -/
theorem below_of_stat {fs : Files} {root asked : Path} {l : Location} {e e' : Entry}
    (ht : fs.tree.WellFormed) (hroot : fs.stat root = .ok (top, e))
    (h : resolve fs root asked = .ok d) (hstat : fs.stat (pathOf d) = .ok (l, e'))
    (hfile : e'.isFile = true) : top <+: l := by
  obtain ⟨-, -, -, -, hclear, hproper, -⟩ := resolve_eq_ok ht h
  obtain ⟨rfl, hget⟩ := stat_pathOf hproper hclear hstat
  have hbelow := strictlyBelow_of_resolve ht hroot h <| by
    rw [Tree.shape_of_get? hget, Entry.isFile_iff.mp hfile]
    nofun
  exact hbelow.1

/-- What a session does with its header does not depend on its log and its journal. -/
theorem serve_unseen (hroot : ctx'.root = ctx.root) (hsettings : ctx'.settings = ctx.settings)
    (ht : m.files.tree.WellFormed) (hdistinct : m.files.tree.Distinct)
    (htop : ∀ l e, m.files.stat ctx.root = .ok (l, e) → l = top)
    (hout : ctx.Outside top m.files) (hout' : ctx'.Outside top m.files) (peer : String)
    (header : Header) (c : Connection) :
    Same top (serve ctx peer header c m) (serve ctx' peer header c m) := by
  have hagree := agree_opening ctx ctx' peer header m.ambient.clock m.files
  have hresolves := resolve_unaware hagree ctx.root (.of header.path)
  -- a log that is not served is no file that is served
  have hlogs {l : Location} (hl : top <+: l) : ¬ (ctx.log.At l ∨ ctx'.log.At l) := by
    rintro (⟨handle, hhandle, rfl⟩ | ⟨handle, hhandle, rfl⟩)
    · exact hout.log handle hhandle hl
    · exact hout'.log handle hhandle hl
  cases hresolve : resolve (opening ctx peer header m.ambient.clock m.files) ctx.root
      (.of header.path) with
  | error e =>
    rw [serve_eq_error hresolve, serve_eq_error (by rw [hroot, hresolves, hresolve])]
    exact ⟨rfl, rfl, rfl, fun l hl => hagree.same l fun hown => hlogs hl hown.1⟩
  | ok d =>
    have hresolve' : resolve (opening ctx' peer header m.ambient.clock m.files) ctx'.root
        (.of header.path) = .ok d := by rw [hroot, hresolves, hresolve]
    have hshape (l : Location) : (opening ctx peer header m.ambient.clock m.files).tree.shape l =
        m.files.tree.shape l := EventLog.shape_note ..
    have hopened := ht.of_shape_eq hshape
    obtain ⟨top', e, hstat, -⟩ := resolve_eq_ok hopened hresolve
    obtain ⟨e', hstat'⟩ := stat_of_shape_eq (fun l => (hshape l).symm)
      (EventLog.here_note ..).symm hstat
    obtain rfl := htop _ _ hstat'
    have hown (l : Location)
        (hl : (ctx.log.At l ∨ ctx'.log.At l) ∧ m.files.tree.get? l ≠ none) :
        (opening ctx peer header m.ambient.clock m.files).tree.get? l ≠ none := by
      rw [ne_eq, ← Tree.shape_eq_none, hshape, Tree.shape_eq_none]
      exact hl.2
    have hfile (l : Location) (e : Entry)
        (hl : (opening ctx peer header m.ambient.clock m.files).stat (pathOf d) = .ok (l, e))
        (he : e.isFile = true) :
        ¬ ((ctx.log.At l ∨ ctx'.log.At l) ∧ m.files.tree.get? l ≠ none) :=
      fun hown => hlogs (below_of_stat hopened hstat hresolve hl he) hown.1
    obtain ⟨r, c', n, fs', hx, hy, hfiles⟩ := transfer_unaware
      (m := { m with files := opening ctx peer header m.ambient.clock m.files }) hagree
      (EventLog.distinct_note _ _ _ hdistinct) (EventLog.distinct_note _ _ _ hdistinct) hown hfile
      ctx header.command c
    have hserved := same_serve (c := c) hout ht hstat' hresolve
    have hserved' := same_serve (c := c) hout' ht (by rw [hroot]; exact hstat') hresolve'
    rw [hx] at hserved
    rw [transfer_congr hsettings, hy] at hserved'
    constructor
    case result => exact hserved'.result.trans hserved.result.symm
    case connection => exact hserved'.connection.trans hserved.connection.symm
    case ambient => exact hserved'.ambient.trans hserved.ambient.symm
    case served =>
      intro l hl
      rw [hserved'.served l hl, hserved.served l hl]
      exact hfiles.same l fun hown => hlogs hl hown.1

/-- **No one sees who keeps records.** Two listeners that serve the same under the same settings
come to the same in a session, whatever logs and journals they keep outside of what they serve. -/
theorem run_unseen (hroot : ctx'.root = ctx.root) (hsettings : ctx'.settings = ctx.settings)
    (ht : m.files.tree.WellFormed) (hdistinct : m.files.tree.Distinct)
    (htop : ∀ l e, m.files.stat ctx.root = .ok (l, e) → l = top)
    (hout : ctx.Outside top m.files) (hout' : ctx'.Outside top m.files) (peer : String)
    (c : Connection) : Same top (run ctx peer c m) (run ctx' peer c m) := by
  cases hread : Header.read c.inbound m.ambient with
  | mk found rest =>
    obtain ⟨t, b⟩ := rest
    cases found with
    | error e =>
      unfold run
      rw [hread]
      exact ⟨rfl, rfl, rfl, fun _ _ => rfl⟩
    | ok header =>
      rw [(run_of_read ctx peer hread).1, (run_of_read ctx' peer hread).1]
      exact serve_unseen (m := { m with ambient := b }) hroot hsettings ht hdistinct htop hout hout'
        peer header _

end Session

end Courier
