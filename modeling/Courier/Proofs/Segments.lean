import Courier.Proofs.Cuts
import Courier.Proofs.Overflow
import Courier.Proofs.Unaware

/-!
# A session does not see how its octets are cut

The octets that a peer sends reach a listener in pieces that the network makes. Two sessions that
get the same octets in different pieces come to the same result, send the same octets back, leave
the same count of transfers and the same files. There is one thing that they may disagree on: when
a file turned out to be too large, one of them may have noticed later, and then the times that the
listener writes into its own log and journal are not the same.

Main results:

* `Transfer.receiveFile_alike` — two receives of the same octets.
* `Session.agree_note`, `Session.agree_journalize` — what the listener writes after them.
* `Session.run_alike` — two sessions with the same octets.
-/

namespace Courier

open Files

/-! ## Two receives -/

namespace Transfer

/-- What is still to come of a cutting is what was cut. -/
theorem pendingOf_of_cuts {octets : Bytes} {l : List Arrival} (h : Cuts octets l) :
    Inbound.pendingOf l = octets := by
  -- an interruption or an empty piece in between brings nothing
  induction h with
  | ended => rfl
  | piece _ _ ih => rw [Inbound.pendingOf_data, ih]
  | interrupted _ _ ih => exact ih

/-- The rest of a receive draws no random name. -/
theorem drawn_receiveRest (settings : Settings) (staged : Staged) (pace : Pace) (s : Inbound)
    (a : Ambient) (fs : Files) :
    (receiveRest settings staged pace s a fs).2.2.2.drawn = fs.drawn := by
  -- nothing but appends and a removal happens to the files
  fun_induction receiveRest settings staged pace s a fs with
  | case1 => rfl
  | case2 => rfl
  | case3 pace s a fs o octets t b hread f fs₁ happend =>
    have h := drawn_append fs staged.handle (o :: octets)
    rwa [happend] at h
  | case4 pace s a fs o octets t b hread fs₁ happend pace' clock hrecord ih =>
    have h := drawn_append fs staged.handle (o :: octets)
    rw [happend] at h
    exact ih.trans h

/-- A receive ran into the limit on sizes. -/
def TooLarge (r : Except TransferError Report) : Prop :=
  ∃ p, r = .error (.filesystem .writeStaged p .tooLarge)

/-- What is the same after two receives, the time included unless a file was too large. -/
structure Alike (x y : Except TransferError Report × Inbound × Ambient × Files) : Prop where
  result : y.1 = x.1
  own : y.2.2.1.own = x.2.2.1.own
  others : y.2.2.1.others = x.2.2.1.others
  time : ¬ TooLarge x.1 → y.2.2.1.clock.wall = x.2.2.1.clock.wall ∧
    y.2.2.1.clock.steady = x.2.2.1.clock.steady
  files : x.2.2.2.Agree (fun _ => False) y.2.2.2

variable {settings : Settings} {octets : Bytes} {s s' : Inbound}

/-- Wherever two receives into one staged file stop, the files differ in its content at most, and
not at all if both have received everything. -/
theorem agree_receiveRest {staged : Staged} {pace : Pace} {t t' : Inbound} {a b b' : Ambient}
    {fs fs₁ fs₁' : Files} {mode : Nat} {content : Bytes} {r r' : Except TransferError Pace}
    (hholds : fs.Holds staged.handle mode content)
    (h : receiveRest settings staged pace s a fs = (r, t, b, fs₁))
    (h' : receiveRest settings staged pace s' a fs = (r', t', b', fs₁'))
    (hpending : s'.pending = s.pending) :
    fs₁.Agree (fun l => l = staged.handle.location ∧ ¬ (r.isOk = true ∧ r'.isOk = true)) fs₁' := by
  obtain ⟨pieces, content₁, hevolves, hholds₁, hok⟩ := receiveRest_holds hholds h
  obtain ⟨pieces', content₁', hevolves', hholds₁', hok'⟩ := receiveRest_holds hholds h'
  have hdrawn := drawn_receiveRest settings staged pace s a fs
  have hdrawn' := drawn_receiveRest settings staged pace s' a fs
  have hdisk := disk_receiveRest settings staged pace s a fs
  have hdisk' := disk_receiveRest settings staged pace s' a fs
  rw [h] at hdrawn hdisk
  rw [h'] at hdrawn' hdisk'
  -- pieces are added to the staged file, and nothing else is done
  have hothers {pieces : List Bytes} {fs₁ : Files}
      (h : fs.Evolves (appends staged.handle.location pieces) fs₁) {l : Location}
      (hl : l ≠ staged.handle.location) : fs₁.tree.get? l = fs.tree.get? l := by
    rw [h.tree, Tree.get?_after_of_notMem]
    intro c hc
    obtain ⟨octets, -, rfl⟩ := List.mem_map.mp hc
    simpa [Change.touched] using hl
  refine ⟨hevolves'.here.trans hevolves.here.symm, hdrawn'.trans hdrawn.symm,
    hdisk'.trans hdisk.symm, fun l => ?_, fun l hl => ?_⟩
  · by_cases hl : l = staged.handle.location
    · rw [hl, hholds₁, hholds₁']
      rfl
    · rw [hothers hevolves hl, hothers hevolves' hl]
  · by_cases hloc : l = staged.handle.location
    · have hboth : r.isOk = true ∧ r'.isOk = true := by
        by_contra hnot
        exact hl ⟨hloc, hnot⟩
      cases r with
      | error e => cases hboth.1
      | ok p =>
        cases r' with
        | error e => cases hboth.2
        | ok p' =>
          rw [hloc, hholds₁, hholds₁', (hok p rfl).1, (hok' p' rfl).1, hpending]
    · rw [hothers hevolves hloc, hothers hevolves' hloc]

/-- A staged file is removed from wherever a receive into it has stopped. -/
theorem remove_of_receiveRest {staged : Staged} {pace : Pace} {t : Inbound} {a b : Ambient}
    {fs fs₁ fs₂ : Files} {r : Except TransferError Pace}
    (hcreated : fs.Created staged.path 0o644 staged.handle fs₁)
    (h : receiveRest settings staged pace s a fs₁ = (r, t, b, fs₂)) :
    fs₂.remove staged.path = (.ok (), fs₂.commit (.remove staged.handle.location)) := by
  obtain ⟨pieces, content, hmore, hholds, -⟩ := receiveRest_holds hcreated.holds h
  have hwritten : Written staged.path fs staged pieces content fs₂ :=
    ⟨⟨fs₁, hcreated⟩, hcreated.evolves.trans hmore, hholds⟩
  exact hwritten.remove

/-- Two receives that cannot hold a chunk come to the same before they have read anything. -/
theorem receiveStaged_alike_of_lt {a : Ambient} (hlt : maxBuffer < chunkSize settings a)
    {dest : Path} {fs fs₁ : Files} {staged : Staged}
    (hmake : Staged.make dest fs = (.ok staged, fs₁)) (s s' : Inbound) :
    Alike (receiveStaged settings dest s a fs) (receiveStaged settings dest s' a fs) := by
  unfold receiveStaged
  rw [hmake]
  dsimp only
  rw [receiveRest_of_lt hlt, receiveRest_of_lt hlt]
  exact ⟨rfl, rfl, rfl, fun _ => ⟨rfl, rfl⟩, .refl _ _⟩

/-- Two cuttings of the same octets are received alike into a staged file. -/
theorem receiveStaged_alike (h : Cuts octets s.arrivals) (h' : Cuts octets s'.arrivals)
    (settings : Settings) (dest : Path) (a : Ambient) (fs : Files) :
    Alike (receiveStaged settings dest s a fs) (receiveStaged settings dest s' a fs) := by
  cases hmake : Staged.make dest fs with
  | mk made fs₁ =>
  rcases Staged.make_cases hmake with ⟨staged, n, rfl, -, hcreated⟩ | ⟨e, rfl, -⟩
  · -- nothing changes the share, so either every chunk can be held or not even the first one
    rcases Nat.lt_or_ge maxBuffer (chunkSize settings a) with hlt | hheld
    · exact receiveStaged_alike_of_lt hlt hmake s s'
    unfold receiveStaged
    rw [hmake]
    dsimp only
    have htime := Pace.inTime_begin settings.baseRate.toNat a.clock
    generalize Pace.begin settings.baseRate.toNat a.clock = pace at htime ⊢
    obtain ⟨r, t, b, fs₂, hrest⟩ :
        ∃ r t b fs₂, receiveRest settings staged pace s a fs₁ = (r, t, b, fs₂) :=
      ⟨_, _, _, _, rfl⟩
    obtain ⟨r', t', b', fs₂', hrest'⟩ :
        ∃ r t b fs₂, receiveRest settings staged pace s' a fs₁ = (r, t, b, fs₂) :=
      ⟨_, _, _, _, rfl⟩
    have hholds := hcreated.holds
    have hempty : fs₁.Fits ([] : Bytes).length := fun _ _ => Nat.zero_le _
    have hpending : s'.pending = s.pending :=
      (pendingOf_of_cuts h').trans (pendingOf_of_cuts h).symm
    -- the files agree but for what the staged file holds while it is written
    have hagree := agree_receiveRest hholds hrest hrest' hpending
    obtain ⟨hown, hothers, hok, herror⟩ := receiveRest_of_cuts h hholds hempty htime hheld hrest
    obtain ⟨hown', hothers', hok', herror'⟩ :=
      receiveRest_of_cuts h' hholds hempty htime hheld hrest'
    rw [hrest, hrest']
    by_cases hfits : fs₁.Fits (([] : Bytes).length + octets.length)
    · -- both have received everything, and it is the same time
      obtain ⟨rfl, htime, hwall⟩ := hok hfits
      obtain ⟨rfl, htime', hwall'⟩ := hok' hfits
      have hsame : fs₂.Agree (fun _ => False) fs₂' :=
        hagree.mono fun l hl => hl.2 ⟨rfl, rfl⟩
      obtain ⟨r, fs₃, fs₃', hpromote, hpromote', hfiles⟩ :=
        promote_unaware hsame (fun _ _ => id) dest
      have hsteady : b'.clock.steady = b.clock.steady := htime'.trans htime.symm
      have hclocks : b'.clock.wall = b.clock.wall ∧ b'.clock.steady = b.clock.steady :=
        ⟨by omega, hsteady⟩
      dsimp only
      rw [hpromote, hpromote']
      cases r with
      | error e =>
        exact ⟨rfl, hown'.trans hown.symm, hothers'.trans hothers.symm, fun _ => hclocks, hfiles⟩
      | ok =>
        refine ⟨?_, hown'.trans hown.symm, hothers'.trans hothers.symm, fun _ => hclocks, hfiles⟩
        simp only [Pace.elapsed, hsteady]
    · -- both have found the file too large, and remove it
      obtain rfl := herror hfits
      obtain rfl := herror' hfits
      dsimp only
      rw [remove_of_receiveRest hcreated hrest, remove_of_receiveRest hcreated hrest']
      refine ⟨rfl, hown'.trans hown.symm, hothers'.trans hothers.symm,
        fun hnot => absurd ⟨_, rfl⟩ hnot, ?_⟩
      exact (hagree.commit_remove staged.handle.location).mono fun l hl => hl.2 hl.1.1
  · unfold receiveStaged
    rw [hmake]
    exact ⟨rfl, rfl, rfl, fun _ => ⟨rfl, rfl⟩, .refl _ _⟩

/-- **Two receives of the same octets** come to the same. -/
theorem receiveFile_alike (h : Cuts octets s.arrivals) (h' : Cuts octets s'.arrivals)
    (settings : Settings) (dest : Path) (a : Ambient) (fs : Files) :
    Alike (receiveFile settings dest s a fs) (receiveFile settings dest s' a fs) := by
  have hregistered : Alike (receiveRegistered settings dest s a.register fs)
      (receiveRegistered settings dest s' a.register fs) := by
    unfold receiveRegistered
    by_cases hempty : dest.isEmpty = true
    · rw [if_pos hempty, if_pos hempty]
      exact ⟨rfl, rfl, rfl, fun _ => ⟨rfl, rfl⟩, .refl _ _⟩
    rw [if_neg hempty, if_neg hempty]
    split
    · exact ⟨rfl, rfl, rfl, fun _ => ⟨rfl, rfl⟩, .refl _ _⟩
    · exact receiveStaged_alike h h' settings dest a.register _
  have hown := hregistered.own
  exact ⟨hregistered.result, congrArg (· - 1) hown, hregistered.others, hregistered.time,
    hregistered.files⟩

end Transfer

/-! ## What the listener writes -/

namespace Session

variable {own : Location → Prop} {fs fs' : Files}

/-- Lines that differ in their times go to the log, if they are written at all. -/
theorem agree_note (h : fs.Agree own fs') (log : EventLog) {clock clock' : Clock} (e : Event)
    (differ : Prop) (hsame : ¬ differ → clock'.wall = clock.wall) :
    (log.note clock e fs).Agree
      (fun l => own l ∨ differ ∧ ∃ handle, log.handle = some handle ∧ l = handle.location)
      (log.note clock' e fs') := by
  unfold EventLog.note
  cases hhandle : log.handle with
  | none => exact h.mono fun l hl => .inl hl
  | some handle =>
    refine (h.mono fun l hl => .inl hl).append fun hnot => ?_
    by_cases hdiffer : differ
    · exact absurd (.inr ⟨hdiffer, handle, rfl, rfl⟩) hnot
    · rw [hsame hdiffer]

/-- So do records, to the journal. -/
theorem agree_journalize (ctx : Context) {m m' : Machine} (h : m.files.Agree own m'.files)
    (command : Command) (peer : String) (file : Path) (result : Except TransferError Report)
    (differ : Prop) (hsame : ¬ differ → m'.ambient.clock.wall = m.ambient.clock.wall) :
    (journalize ctx command peer file result m).files.Agree
      (fun l => own l ∨
        differ ∧ JournalAt ctx (journalize ctx command peer file result m).files l)
      (journalize ctx command peer file result m').files := by
  cases hjournal : ctx.journal with
  | none =>
    unfold journalize
    rw [hjournal]
    exact h.mono fun l hl => .inl hl
  | some journal =>
    -- both records draw the same number
    rw [journalize_added hjournal, journalize_added hjournal, h.drawn]
    have hdrawn : ({ m.files with drawn := m.files.drawn + 1 } : Files).Agree own
        { m'.files with drawn := m.files.drawn + 1 } :=
      ⟨h.here, rfl, h.disk, h.hollow, h.same⟩
    refine (Journal.agree_add hdrawn journal _ _ differ fun hdiffer => ?_).mono fun l hl => ?_
    · unfold recordOf
      rw [hsame hdiffer]
    · exact hl.imp id fun hkept => ⟨hkept.1, journal, hjournal, hkept.2⟩

/-! ## Two sessions -/

/-- What is the same after two sessions, or two transfers. -/
structure Alike (kept : Location → Prop)
    (x y : Except TransferError Report × Connection × Machine) : Prop where
  result : y.1 = x.1
  sent : y.2.1.outbound = x.2.1.outbound
  own : y.2.2.ambient.own = x.2.2.ambient.own
  others : y.2.2.ambient.others = x.2.2.ambient.others
  /-- Unless a file was too large it is the same time. -/
  time : ¬ Transfer.TooLarge x.1 → y.2.2.ambient.clock.wall = x.2.2.ambient.clock.wall ∧
    y.2.2.ambient.clock.steady = x.2.2.ambient.clock.steady
  /-- And unless a file was too large no file differs. -/
  files : x.2.2.files.Agree (fun l => Transfer.TooLarge x.1 ∧ kept l) y.2.2.files

variable {octets : Bytes} {c c' : Connection}

/-- A transfer ends alike for two cuttings of the octets that are still to come. -/
theorem transfer_alike (h : Cuts octets c.inbound.arrivals) (h' : Cuts octets c'.inbound.arrivals)
    (hout : c'.outbound = c.outbound) (ctx : Context) (command : Command) (file : Path)
    (m : Machine) :
    Alike (fun _ => False) (transfer ctx command file c m) (transfer ctx command file c' m) := by
  unfold transfer
  cases command with
  | store =>
    have hreceived := Transfer.receiveFile_alike h h' ctx.settings file m.ambient m.files
    exact ⟨hreceived.result, hout, hreceived.own, hreceived.others, hreceived.time,
      hreceived.files.mono fun _ => False.elim⟩
  | retrieve =>
    -- a send does not look at what comes in
    dsimp only
    rw [hout]
    split
    · exact ⟨rfl, rfl, rfl, rfl, fun _ => ⟨rfl, rfl⟩, .refl _ _⟩
    · exact ⟨rfl, hout, rfl, rfl, fun _ => ⟨rfl, rfl⟩, .refl _ _⟩

/-- A session that has read its header ends alike for two cuttings of the content. -/
theorem serve_alike (c c' : Connection) (h : Cuts octets c.inbound.arrivals)
    (h' : Cuts octets c'.inbound.arrivals)
    (hout : c'.outbound = c.outbound) (ctx : Context) (peer : String) (header : Header)
    (m : Machine) :
    Alike (Kept ctx (serve ctx peer header c m).2.2.files) (serve ctx peer header c m)
      (serve ctx peer header c' m) := by
  unfold serve
  dsimp only
  generalize m.mapFiles (ctx.log.note m.ambient.clock (.session peer header.command header.path)) =
    opened
  split
  · exact ⟨rfl, hout, rfl, rfl, fun _ => ⟨rfl, rfl⟩, .refl _ _⟩
  · rename_i location hresolve
    have htransfer := transfer_alike h h' hout ctx header.command (pathOf location) opened
    obtain ⟨r, d, n, hx⟩ : ∃ r d n,
        transfer ctx header.command (pathOf location) c opened = (r, d, n) := ⟨_, _, _, rfl⟩
    obtain ⟨r', d', n', hy⟩ : ∃ r d n,
        transfer ctx header.command (pathOf location) c' opened = (r, d, n) := ⟨_, _, _, rfl⟩
    rw [hx, hy] at htransfer
    obtain ⟨rfl, hsent, hown, hothers, htime, hfiles⟩ := htransfer
    dsimp only at hsent hown hothers htime hfiles
    rw [hx, hy]
    dsimp only
    have hwall : ¬ Transfer.TooLarge r' → n'.ambient.clock.wall = n.ambient.clock.wall :=
      fun hnot => (htime hnot).1
    -- a transfer that panicked leaves neither
    by_cases hpanicked : TransferError.hasPanicked r' = true
    · unfold conclude
      rw [if_pos hpanicked, if_pos hpanicked]
      exact ⟨rfl, hsent, hown, hothers, htime, hfiles.mono fun _ hl => hl.2.elim⟩
    unfold conclude
    rw [if_neg hpanicked, if_neg hpanicked]
    -- the line in the log, and then the record in the journal
    let event := eventOf header.command (pathOf location) r'
    have hnoted : (n.mapFiles (ctx.log.note n.ambient.clock event)).files.Agree _
        (n'.mapFiles (ctx.log.note n'.ambient.clock event)).files :=
      agree_note hfiles ctx.log event (Transfer.TooLarge r') hwall
    have hrecorded := agree_journalize ctx hnoted header.command peer (pathOf location) r'
      (Transfer.TooLarge r') hwall
    refine ⟨rfl, hsent, ?_, ?_, ?_, hrecorded.mono fun l hl => ?_⟩
    · dsimp only
      rw [ambient_journalize, ambient_journalize]
      exact hown
    · dsimp only
      rw [ambient_journalize, ambient_journalize]
      exact hothers
    · dsimp only
      rw [ambient_journalize, ambient_journalize]
      exact htime
    · rcases hl with (hnever | hlog) | hjournal
      · exact hnever.2.elim
      · exact ⟨hlog.1, .inl hlog.2⟩
      · exact ⟨hjournal.1, .inr hjournal.2⟩

/-- **A session does not see how its octets are cut**, whatever they are. -/
theorem run_alike (h : Cuts octets c.inbound.arrivals) (h' : Cuts octets c'.inbound.arrivals)
    (hout : c'.outbound = c.outbound) (ctx : Context) (peer : String) (m : Machine) :
    Alike (Kept ctx (run ctx peer c m).2.2.files) (run ctx peer c m) (run ctx peer c' m) := by
  -- the verdict on the octets settles what is read of the header in both sessions
  obtain ⟨v, hv⟩ := Header.exists_judged octets
  obtain ⟨t, hread, hrest⟩ := Header.read_of_cuts h hv m.ambient
  obtain ⟨t', hread', hrest'⟩ := Header.read_of_cuts h' hv m.ambient
  unfold run
  rw [hread, hread']
  cases v with
  | header header =>
    obtain ⟨rest, hsplit, hcuts⟩ := hrest header rfl
    obtain ⟨rest', hsplit', hcuts'⟩ := hrest' header rfl
    obtain rfl : rest' = rest := List.append_cancel_left (hsplit'.symm.trans hsplit)
    exact serve_alike { c with inbound := t } { c' with inbound := t' } hcuts hcuts' hout ctx peer
      header { m with ambient := m.ambient }
  | broken v => exact ⟨rfl, hout, rfl, rfl, fun _ => ⟨rfl, rfl⟩, .refl _ _⟩
  | cut field => exact ⟨rfl, hout, rfl, rfl, fun _ => ⟨rfl, rfl⟩, .refl _ _⟩

/-- What `storeNew` sends. -/
def storeOctets : Bytes :=
  Header.octets ⟨.store, "via/new"⟩ ++ bytes "DATA"

/-- A peer that sends the same, cut within the length of the path, and interrupted. -/
def storeCut : Connection :=
  ⟨.of [.fault (.bare .interrupted), .data (storeOctets.take 5), .fault (.bare .interrupted),
    .data (storeOctets.drop 5)], .willing⟩

/-- `storeNew` is a cutting of `storeOctets`. -/
theorem cuts_storeNew : Cuts storeOctets storeNew.inbound.arrivals := by
  have hne : storeOctets ≠ [] := by decide
  have hwhole := Cuts.piece hne .ended
  rwa [List.append_nil] at hwhole

/-- `storeCut` cuts the same octets in other places. -/
theorem cuts_storeCut : Cuts storeOctets storeCut.inbound.arrivals := by
  have hfirst : storeOctets.take 5 ≠ [] := by decide
  have hrest : storeOctets.drop 5 ≠ [] := by decide
  have hcuts := Cuts.piece hfirst (.interrupted (f := .bare .interrupted) rfl (.piece hrest .ended))
  rw [List.append_nil, List.take_append_drop] at hcuts
  exact .interrupted rfl hcuts

/-- Two cuttings of one store: the session comes to the same. -/
theorem run_alike_storeCut :
    let ctx : Context := { root := .of "srv", settings := {} }
    let m : Machine := ⟨linkedFiles, default, {}, none⟩
    Cuts storeOctets storeNew.inbound.arrivals ∧ Cuts storeOctets storeCut.inbound.arrivals ∧
      Alike (Kept ctx (run ctx "peer" storeNew m).2.2.files) (run ctx "peer" storeNew m)
        (run ctx "peer" storeCut m) :=
  ⟨cuts_storeNew, cuts_storeCut, run_alike cuts_storeNew cuts_storeCut rfl _ _ _⟩

end Session

end Courier
