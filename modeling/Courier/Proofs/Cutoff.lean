import Courier.Proofs.Admission
import Courier.Proofs.Willing

/-!
# Connections that end too early

The wire does not say how long a file is: what comes before the end of a stream is taken for all of
it. So a receive leaves its destination as it was, or puts there exactly what had arrived; and when
the sender has failed, or is gone before the end of its file, what had arrived is a first part of
the file. Only from a sender that came to its end without error it is known to be the whole file.

Main results:

* `Transfer.receive_settled` — a receive keeps what has arrived or nothing.
* `Session.left_or_replaced` — what this comes to for files that are fetched and stored, wherever
  the sender ends.
* `Session.fetch_missing` — to fetch what is not there empties a file.
-/

namespace Courier

open Files Outbound

namespace Header

/-- What is read of the first part of a header and more is this header. -/
theorem read_of_prefix {h h' : Header} {s t : Inbound} {a b : Ambient} {data : Bytes}
    (hread : read s a = (.ok h', t, b)) (hallowed : lengthAllowed (bytes h.path).length = true)
    (hpart : s.pending <+: h.octets ++ data) :
    h' = h ∧ s.pending = h.octets ++ t.pending ∧ t.pending <+: data := by
  obtain ⟨hpending, hallowed'⟩ := pending_of_read hread
  obtain ⟨more, hmore⟩ := hpart
  rw [hpending, List.append_assoc] at hmore
  obtain ⟨rfl, hrest⟩ := eq_of_octets_append hallowed' hallowed hmore
  exact ⟨rfl, hpending, more, hrest⟩

/-- Nothing is read of nothing. -/
theorem pending_ne_nil_of_read {h : Header} {s t : Inbound} {a b : Ambient}
    (hread : read s a = (.ok h, t, b)) : s.pending ≠ [] := by
  intro hnil
  have hlength := congrArg List.length (pending_of_read hread).1
  rw [hnil, List.length_append, length_octets, List.length_nil] at hlength
  omega

end Header

namespace Transfer

/-! ## A sender that ends -/

/-- A sender that would bring a stream from the state `s` to the state `t` is gone when the stream
has seen `calls`. Up to then it has taken `part`. -/
structure Cut (s t : Outbound) (calls : List WriteCall) (part : Bytes) : Prop where
  begun : s.calls <:+ calls
  made : calls <:+ t.calls
  took : taken calls = s.wire ++ part

variable {s t : Outbound} {calls : List WriteCall} {data part : Bytes}

/-- What a sender that is gone has sent is a first part, and all of it if it had come to its end.
-/
theorem Sends.cut {sent : Prop} (h : Sends s t data sent) (hcut : Cut s t calls part) :
    part <+: data ∧ (sent → calls = t.calls → part = data) := by
  obtain ⟨part', htaken, hfirst⟩ := h.moments calls hcut.begun hcut.made
  obtain rfl := List.append_cancel_left (htaken.symm.trans hcut.took)
  refine ⟨hfirst, fun hsent hall => ?_⟩
  have hwire : s.wire ++ part' = s.wire ++ data := by
    rw [← htaken, hall, ← h.whole hsent]
    rfl
  exact List.append_cancel_left hwire

/-- A stream on which nothing was done has taken nothing. -/
theorem Cut.part_eq_nil (h : Cut s t calls part) (hsame : t.calls = s.calls) : part = [] := by
  obtain rfl := h.begun.eq_of_length_le (hsame ▸ h.made).length_le
  have htook := h.took
  rw [wire_eq] at htook
  exact (List.append_right_eq_self.mp htook.symm)

/-! ## What a receive leaves -/

/-- What a receive leaves of the files `fs`, when `part` has arrived: it has put that at the
destination and reports its length, or it has failed and the destination is as it was. New folders
can have come about above it; a destination written with `..` can have become one of them itself,
if nothing was there and the receive has failed. -/
structure Settled (dest : Path) (part : Bytes) (fs fs' : Files)
    (result : Except TransferError Report) : Prop where
  ok : ∀ report, result = .ok report → ∃ place mode serial, destination dest fs = .ok place ∧
    fs'.tree.get? place = some (.file mode serial part) ∧ report.size = part.length ∧
    ∀ l, l ≠ place → fs'.tree.get? l = fs.tree.get? l ∨ NewFolder dest fs fs'.tree l
  error : ∀ e, result = .error e →
    (∀ place, destination dest fs = .ok place → fs'.tree.get? place = fs.tree.get? place ∨
      .up ∈ dest.parts ∧ NewFolder dest fs fs'.tree place) ∧
    ∀ l, fs'.tree.get? l = fs.tree.get? l ∨ NewFolder dest fs fs'.tree l

variable {dest : Path} {fs fs' : Files} {result : Except TransferError Report}

/-- An error that leaves the files alone. -/
theorem Settled.nothing (dest : Path) (part : Bytes) (fs : Files) (e : TransferError) :
    Settled dest part fs fs (.error e) where
  ok := nofun
  error := fun _ _ => ⟨fun _ _ => .inl rfl, fun _ => .inl rfl⟩

/-- A receive that is atomic keeps what has arrived or nothing. -/
theorem Atomic.settled {cs : List Change} (h : Atomic dest part fs fs' result cs) :
    Settled dest part fs fs' result where
  ok := fun report hreport => by
    obtain ⟨place, source, earlier, mode, serial, hplace, -, -, hfile, hsize, hothers⟩ :=
      h.ok report hreport
    exact ⟨place, mode, serial, hplace, hfile, hsize, hothers⟩
  error := fun e he => by
    obtain ⟨hunmoved, hothers⟩ := h.error e he
    refine ⟨fun place hplace => ?_, hothers⟩
    have hbefore := h.before place hplace cs (List.suffix_refl _) hunmoved
    rw [← h.evolves.tree] at hbefore
    exact hbefore.imp id fun ⟨hup, hnew, _⟩ => ⟨hup, hnew⟩

/-- **A receive keeps what has arrived or nothing.** -/
theorem receive_settled (settings : Settings) (dest : Path) (s : Inbound) (a : Ambient)
    (ht : fs.tree.WellFormed) :
    Settled dest s.pending fs (receiveFile settings dest s a fs).2.2.2
      (receiveFile settings dest s a fs).1 := by
  cases hne : dest.isEmpty with
  | true =>
    have hrun : receiveFile settings dest s a fs =
        (.error (.filesystem .validateDestination dest emptyDestination), s,
          a.register.deregister, fs) := by
      unfold receiveFile receiveRegistered
      rw [if_pos hne]
    rw [hrun]
    exact .nothing ..
  | false =>
    obtain ⟨prepared, made, hmade, ⟨e, hprepare, hresult, hfiles⟩ |
      ⟨hprepare, cs, hevolves, hstages⟩⟩ := receiveFile_cases settings s a fs hne
    · rw [hresult, hfiles]
      exact (atomic_of_replaces ht (by rw [hprepare]) hmade (.nothing e) (.refl prepared)).settled
    · exact (atomic_of_replaces ht (by rw [hprepare]) hmade hstages.replaces hevolves).settled

/-- What a receive into a served location leaves there. -/
theorem receive_served (settings : Settings) {d : Location} (s : Inbound) (a : Ambient)
    (hproper : ProperLocation d) (hclear : fs.tree.Clear d) :
    (∃ report mode serial, (receiveFile settings (pathOf d) s a fs).1 = .ok report ∧
      report.size = s.pending.length ∧
      (receiveFile settings (pathOf d) s a fs).2.2.2.tree.get? d =
        some (.file mode serial s.pending)) ∨
    ((∃ e, (receiveFile settings (pathOf d) s a fs).1 = .error e) ∧
      (receiveFile settings (pathOf d) s a fs).2.2.2.tree.get? d = fs.tree.get? d) := by
  have hne : (pathOf d).isEmpty = false := by
    simpa [Path.isEmpty] using text_pathOf_ne_nil d
  obtain ⟨prepared, made, hmade, hcases⟩ := receiveFile_cases settings s a fs hne
  -- the location itself is none of the new folders
  have hkept : prepared.tree.get? d = fs.tree.get? d := by
    rw [hmade.get?, if_neg]
    intro hd
    rcases List.eq_nil_or_concat d with rfl | ⟨k, n, rfl⟩
    · obtain ⟨_, _, _, _, _, h⟩ := hmade.named _ hd
      simp at h
    · rw [List.concat_eq_append] at *
      have hle := (Session.made_above hproper hclear hmade _ hd).length_le
      rw [List.length_append, List.length_singleton] at hle
      omega
  have hclear' := Session.clear_of_furnished hmade hclear
  rcases hcases with ⟨e, -, hresult, hfiles⟩ | ⟨-, cs, hevolves, hstages⟩
  · exact .inr ⟨⟨e, hresult⟩, by rw [hfiles, hkept]⟩
  · rw [hevolves.tree]
    cases hresult : (receiveFile settings (pathOf d) s a fs).1 with
    | error e => exact .inr ⟨⟨e, rfl⟩, by rw [(hstages.replaces.error e hresult).2, hkept]⟩
    | ok report =>
      obtain ⟨folder, name, source, earlier, mode, serial, hslot, -, -, -, hfile, hsize, -⟩ :=
        hstages.replaces.ok report hresult
      obtain rfl := slot_pathOf hproper hclear' hslot
      exact .inl ⟨report, mode, serial, rfl, hsize, hfile⟩

end Transfer

namespace Session

open Transfer

/-! ## Fetching -/

/-- What a peer that fetches does: it sends a header, and receives what comes back. -/
def fetch (settings : Settings) (dest : Path) (remote : String) (s : Outbound) (a : Ambient)
    (t : Inbound) (b : Ambient) (fs : Files) : Except TransferError Report × Files :=
  match (Header.write ⟨.retrieve, remote⟩ s a).1 with
  | .error e => (.error e, fs)
  | .ok () => ((receiveFile settings dest t b fs).1, (receiveFile settings dest t b fs).2.2.2)

/-- A download is such a peer. -/
theorem download_eq_fetch (d : Dialer) (remote : String) (file : Path) {n n₁ n₂ : Network}
    {m m₁ : Machine} {place : Nat} {peer : String} {octets : Bytes}
    (hconnect : n.connect d.host d.port = .ok (place, peer, n₁))
    (hexchange : n₁.exchange place peer
        (Header.write ⟨.retrieve, remote⟩ .willing m.ambient).2.1.wire
        { m with ambient := (Header.write ⟨.retrieve, remote⟩ .willing m.ambient).2.2 } =
      (octets, n₂, m₁)) :
    ((d.download remote file n m).1, (d.download remote file n m).2.2.files) =
      fetch d.settings file remote .willing m.ambient (.ofBytes octets) m₁.ambient m₁.files := by
  unfold Dialer.download fetch
  rw [hconnect]
  dsimp only
  cases hwrite : Header.write ⟨.retrieve, remote⟩ .willing m.ambient with
  | mk asked rest =>
    rw [hwrite] at hexchange
    dsimp only at hexchange ⊢
    rw [hexchange]
    cases asked <;> rfl

/-- So does a receive that comes after a question to the peer. -/
theorem fetch_settled (settings : Settings) (dest : Path) (remote : String) (s : Outbound)
    (a : Ambient) (t : Inbound) (b : Ambient) {fs : Files} (ht : fs.tree.WellFormed) :
    Settled dest t.pending fs (fetch settings dest remote s a t b fs).2
      (fetch settings dest remote s a t b fs).1 := by
  unfold fetch
  cases (Header.write ⟨.retrieve, remote⟩ s a).1 with
  | error e => exact .nothing ..
  | ok => exact receive_settled settings dest t b ht

variable {ctx : Context} {peer remote : String} {c : Connection} {m : Machine}
  {calls : List WriteCall} {part : Bytes}

/-- What a session has answered a peer that asks for `remote`, when the stream has seen `calls` and
has taken `part`. It is a first part of the file that is served under this path, and all of it when
the session has ended without error; or it is nothing, and the session fails. -/
inductive Answered (ctx : Context) (peer remote : String) (c : Connection) (m : Machine)
    (calls : List WriteCall) (part : Bytes) : Prop where
  | file {d : Location} {content : Bytes}
      (hrequested : Requested ctx peer ⟨.retrieve, remote⟩ c m d content) (hpart : part <+: content)
      (hwhole : (∃ report, (run ctx peer c m).1 = .ok report) →
        calls = (run ctx peer c m).2.1.outbound.calls → part = content)
  | nothing (hpart : part = []) (hfails : ∃ e, (run ctx peer c m).1 = .error e)

/-- What a peer that asks is answered: a first part of its file, up to where the session is gone.
-/
theorem answered {s : Outbound} {a : Ambient} {asking : List WriteCall}
    (ht : m.files.tree.WellFormed)
    (hasked : Cut s (Header.write ⟨.retrieve, remote⟩ s a).2.1 asking c.inbound.pending)
    (hcut : Cut c.outbound (run ctx peer c m).2.1.outbound calls part) :
    Answered ctx peer remote c m calls part := by
  -- a header that the session reads is the one that the peer has sent
  have hheader {header : Header} {t : Inbound} {b : Ambient}
      (hread : Header.read c.inbound m.ambient = (.ok header, t, b)) :
      header = ⟨.retrieve, remote⟩ := by
    obtain ⟨made, rest, hmade, hoctets, hnever, -⟩ :=
      Header.calls_of_write (Prod.eta (Header.write ⟨.retrieve, remote⟩ s a)).symm
    cases hallowed : Header.lengthAllowed (bytes remote).length with
    | false =>
      refine absurd (hasked.part_eq_nil ?_) (Header.pending_ne_nil_of_read hread)
      rw [hmade, hnever hallowed]
      rfl
    | true =>
      have hsent : taken (Header.write ⟨.retrieve, remote⟩ s a).2.1.calls =
          taken s.calls ++ taken made := by rw [hmade, taken_append]
      obtain ⟨asked, hpart, hfirst⟩ := prefix_of_calls hasked.begun hasked.made hsent
        (hoctets ▸ List.prefix_append (taken made) rest)
      obtain rfl := List.append_cancel_left (hpart.symm.trans hasked.took)
      rw [← List.append_nil (Header.octets _)] at hfirst
      exact (Header.read_of_prefix (h := ⟨.retrieve, remote⟩) hread hallowed hfirst).1
  rcases sent_of_run ctx peer c m ht with
    ⟨header, d, content, hrequested, hsends, -⟩ | ⟨hsame, hnone⟩
  · obtain ⟨t, b, hread⟩ := hrequested.read
    obtain rfl := hheader hread
    obtain ⟨hfirst, hwhole⟩ := hsends.cut hcut
    exact .file hrequested hfirst hwhole
  · refine .nothing (hcut.part_eq_nil (by rw [hsame])) ?_
    cases hread : Header.read c.inbound m.ambient with
    | mk found rest =>
      cases found with
      | error e =>
        refine ⟨e, ?_⟩
        unfold run
        rw [hread]
      | ok header => exact hnone header rest.1 rest.2 hread (by rw [hheader hread])

/-! ## Storing -/

/-- What a session keeps that a peer has sent a first part of a header and of `content`. It keeps
nothing if it does not read the header or refuses its path; otherwise it keeps all that has arrived
after the header, or leaves the served location as it was. The lines in its log and its journal
aside. -/
inductive Keeps (ctx : Context) (peer remote : String) (content : Bytes) (c : Connection)
    (m : Machine) : Prop where
  | unread (hfails : ∃ e, (run ctx peer c m).1 = .error e)
      (hfiles : (run ctx peer c m).2.2.files = m.files)
  | refused (hfails : ∃ e, (run ctx peer c m).1 = .error e)
      (hfiles : (run ctx peer c m).2.2.files = begun ctx peer ⟨.store, remote⟩ c m)
  | served {d : Location} {rest : Bytes} {files : Files}
      (hresolved : resolve (begun ctx peer ⟨.store, remote⟩ c m) ctx.root (.of remote) = .ok d)
      (harrived : c.inbound.pending = Header.octets ⟨.store, remote⟩ ++ rest)
      (hrest : rest <+: content)
      (hkept : (∃ report mode serial, (run ctx peer c m).1 = .ok report ∧
          report.size = rest.length ∧ files.tree.get? d = some (.file mode serial rest)) ∨
        ((∃ e, (run ctx peer c m).1 = .error e) ∧
          files.tree.get? d = (begun ctx peer ⟨.store, remote⟩ c m).tree.get? d))
      (hend : Concluded ctx files (run ctx peer c m).2.2.files)

/-- What a session keeps of a peer that is gone while it stores. -/
theorem keeps {content : Bytes} (ht : m.files.tree.WellFormed)
    (hallowed : Header.lengthAllowed (bytes remote).length = false → c.inbound.pending = [])
    (hpart : c.inbound.pending <+: Header.octets ⟨.store, remote⟩ ++ content) :
    Keeps ctx peer remote content c m := by
  cases hread : Header.read c.inbound m.ambient with
  | mk found rest =>
    obtain ⟨t, b⟩ := rest
    cases found with
    | error e =>
      have hrun : run ctx peer c m =
          (.error e, { c with inbound := t }, { m with ambient := b }) := by
        unfold run
        rw [hread]
      exact .unread ⟨e, by rw [hrun]⟩ (by rw [hrun])
    -- what is read of a first part of the header and the file can only be this header
    | ok header =>
      obtain ⟨rfl, harrived, hrest⟩ :
          header = ⟨.store, remote⟩ ∧
            c.inbound.pending = Header.octets ⟨.store, remote⟩ ++ t.pending ∧
            t.pending <+: content := by
        cases hlen : Header.lengthAllowed (bytes remote).length with
        | false => exact absurd (hallowed hlen) (Header.pending_ne_nil_of_read hread)
        | true => exact Header.read_of_prefix (h := ⟨.store, remote⟩) hread hlen hpart
      obtain ⟨hrun, hbegun⟩ := run_of_read ctx peer hread
      cases hresolve : resolve (opening ctx peer ⟨.store, remote⟩ b.clock m.files) ctx.root
          (.of remote) with
      | error e =>
        rw [serve_eq_error (m := { m with ambient := b }) hresolve] at hrun
        exact .refused ⟨e, by rw [hrun]⟩ (by rw [hrun, hbegun])
      -- the location is the one that the path leads to, so the receive settles it
      | ok d =>
        obtain ⟨hresult, -⟩ := serve_result (c := { c with inbound := t })
          (m := { m with ambient := b }) hresolve
        have hend := serve_of_ok (c := { c with inbound := t }) (m := { m with ambient := b })
          hresolve
        obtain ⟨-, -, -, -, hclear, hproper, -⟩ :=
          resolve_eq_ok (ht.of_shape_eq fun _ => EventLog.shape_note ..) hresolve
        refine .served (by rw [hbegun]; exact hresolve) harrived hrest ?_ (hrun ▸ hend)
        rw [hrun, hresult, hbegun]
        exact receive_served ctx.settings t b hproper hclear

/-! ## Wherever the sender ends -/

/-- **A destination is left as it was, or what has arrived is put there.** This is a first part of
the file, and it is all of it if the sender came to its end without error. A source that fails does
not change this for a peer that has asked for it, nor for a session that it is stored with; nor does
a stream that fails, nor one of the two ends that is gone. An upload of what is no file does not
even begin. -/
theorem left_or_replaced :
    (∀ (settings : Settings) (path : Path) (source : Inbound) (s : Outbound) (a : Ambient)
        (calls : List WriteCall) (part : Bytes), source.Settles →
      Cut s (sendChunks settings path source s a.register).2.2.1 calls part →
      part <+: source.pending ∧
        ((∃ pace, (sendChunks settings path source s a.register).1 = .ok pace) →
          calls = (sendChunks settings path source s a.register).2.2.1.calls →
          part = source.pending) ∧
        (∀ (settings' : Settings) (dest : Path) (t : Inbound) (b : Ambient) (fs : Files),
          fs.tree.WellFormed → t.pending = part →
          Settled dest part fs (receiveFile settings' dest t b fs).2.2.2
            (receiveFile settings' dest t b fs).1) ∧
        ∀ (remote : String) (ctx : Context) (peer : String) (c : Connection) (m : Machine),
          m.files.tree.WellFormed → Header.lengthAllowed (bytes remote).length = true →
          c.inbound.pending = Header.octets ⟨.store, remote⟩ ++ part →
          Keeps ctx peer remote source.pending c m) ∧
    (∀ (remote : String) (s : Outbound) (a : Ambient) (asking : List WriteCall) (ctx : Context)
        (peer : String) (c : Connection) (m : Machine) (calls : List WriteCall) (part : Bytes),
      m.files.tree.WellFormed →
      Cut s (Header.write ⟨.retrieve, remote⟩ s a).2.1 asking c.inbound.pending →
      Cut c.outbound (run ctx peer c m).2.1.outbound calls part →
      Answered ctx peer remote c m calls part ∧
        ∀ (settings : Settings) (dest : Path) (t : Inbound) (b : Ambient) (fs : Files),
          fs.tree.WellFormed → t.pending = part →
          Settled dest part fs (fetch settings dest remote s a t b fs).2
            (fetch settings dest remote s a t b fs).1) ∧
    (∀ (settings : Settings) (fs : Files) (file : Path) (remote : String) (s : Outbound)
        (a : Ambient) (calls : List WriteCall) (part : Bytes),
      Cut s (push settings fs file remote s a).2.1 calls part →
      ((∃ report, (push settings fs file remote s a).1 = .ok report) →
        calls = (push settings fs file remote s a).2.1.calls →
        part = Header.octets ⟨.store, remote⟩ ++ (fs.read file).toOption.getD []) ∧
      ∀ (ctx : Context) (peer : String) (c : Connection) (m : Machine), m.files.tree.WellFormed →
        c.inbound.pending = part →
        Keeps ctx peer remote ((fs.read file).toOption.getD []) c m) ∧
    ∀ (d : Dialer) (file : Path) (remote : String) (n : Network) (m : Machine),
      m.files.isFile file = false → (d.upload file remote n m).2 = (n, m) := by
  refine ⟨fun settings path source s a calls part hsource hcut => ?_,
    fun remote s a asking ctx peer c m calls part ht hasked hcut =>
      ⟨answered ht hasked hcut, fun settings dest t b fs hfs hpart => ?_⟩,
    fun settings fs file remote s a calls part hcut => ?_, fun d file remote n m hnone => ?_⟩
  -- a source that fails: what came of it before is a first part of what it had
  · have hfaithful := sendChunks_faithful settings path s a hsource
    have hsends : Sends s (sendChunks settings path source s a.register).2.2.1 source.pending
        (∃ pace, (sendChunks settings path source s a.register).1 = .ok pace) := by
      refine ⟨hfaithful.kept, hfaithful.moments, ?_⟩
      rintro ⟨pace, hok⟩
      exact (hfaithful.whole pace.moved (by rw [hok]; rfl)).1
    obtain ⟨hpart, hwhole⟩ := hsends.cut hcut
    refine ⟨hpart, hwhole, fun settings' dest t b fs hfs harrived => ?_,
      fun remote ctx peer c m ht hallowed harrived => keeps ht (fun hnot => ?_) ?_⟩
    · rw [← harrived]
      exact receive_settled settings' dest t b hfs
    · rw [hallowed] at hnot
      cases hnot
    · rw [harrived]
      exact (List.prefix_append_right_inj _).mpr hpart
  · rw [← hpart]
    exact fetch_settled settings dest remote s a t b hfs
  -- a peer that is gone: what arrives is a first part of the header and the file
  · obtain ⟨hsends, hnever, -⟩ := sent_of_push settings fs file remote s a
    obtain ⟨hfirst, hwhole⟩ := hsends.cut hcut
    refine ⟨hwhole, fun ctx peer c m ht hpart => ?_⟩
    subst hpart
    exact keeps ht (fun hallowed => hcut.part_eq_nil (hnever hallowed)) hfirst
  · unfold Dialer.upload
    rw [if_neg (by simp [hnone])]

/-! ## Runs -/

/-- The files of both ends: the listener serves an empty folder `srv`, and the peer has a file. -/
def sharedFiles : Files :=
  { tree := ⟨[([], .folder 0o755), ([bytes "local"], .file 0o644 0 (bytes "old")),
      ([bytes "srv"], .folder 0o755)]⟩
    here := [] }

/-- `sharedFiles` is a well-formed tree. -/
theorem sharedFiles_wellFormed : sharedFiles.tree.WellFormed :=
  .of_entries (by decide) (by decide)

/-- The listener of these files. -/
def serving : Context :=
  { root := .of "srv", settings := {} }

/-- A peer that asks for a file that is not there. -/
def askMissing : Connection :=
  sending (Header.octets ⟨.retrieve, "missing"⟩)

/-- A willing stream has taken a whole header in the end. -/
theorem cut_of_write {h : Header} {s : Outbound} (hw : s.Willing)
    (hallowed : Header.lengthAllowed (bytes h.path).length = true) (a : Ambient) :
    ∃ t b, h.write s a = (.ok (), t, b) ∧ Cut s t t.calls h.octets := by
  obtain ⟨t, b, hwrite, -⟩ := Header.write_of_willing hw hallowed a
  obtain ⟨calls, rest, hcalls, hoctets, -, hok⟩ := Header.calls_of_write hwrite
  obtain ⟨rfl, -⟩ := hok rfl
  refine ⟨t, b, hwrite, ⟨calls, hcalls.symm⟩, List.suffix_refl _, ?_⟩
  rw [hcalls, taken_append, hoctets, List.append_nil]
  rfl

/-- A sender can be gone after the header. -/
theorem cut_after_header (settings : Settings) (fs : Files) (file : Path) {remote : String}
    {s : Outbound} (hw : s.Willing) (hallowed : Header.lengthAllowed (bytes remote).length = true)
    (a : Ambient) :
    ∃ calls, Cut s (push settings fs file remote s a).2.1 calls
      (Header.octets ⟨.store, remote⟩) := by
  obtain ⟨t, b, hwrite, hcut⟩ := cut_of_write (h := ⟨.store, remote⟩) hw hallowed a
  refine ⟨t.calls, hcut.begun, ?_, hcut.took⟩
  unfold push
  rw [hwrite]
  exact (sent_of_sendFile settings fs file t b).1.kept

/-- It is refused, and nothing is sent. -/
theorem askMissing_refused :
    (∃ e, (run serving "peer" askMissing ⟨sharedFiles, default, {}, none⟩).1 = .error e) ∧
      (run serving "peer" askMissing ⟨sharedFiles, default, {}, none⟩).2.1.outbound = .willing ∧
      ∀ d content, ¬ Requested serving "peer" ⟨.retrieve, "missing"⟩ askMissing
        ⟨sharedFiles, default, {}, none⟩ d content := by
  have hd : Delivers 3 (Header.octets ⟨.retrieve, "missing"⟩).length 0
      (Header.octets ⟨.retrieve, "missing"⟩ ++ []) askMissing.inbound.arrivals := by
    rw [List.append_nil]
    exact .of_bytes ..
  obtain ⟨t, b, hread, -⟩ := Header.read_of_delivers (h := ⟨.retrieve, "missing"⟩)
    askMissing.inbound default (by decide) hd
  obtain ⟨hrun, -⟩ := run_of_read serving "peer" (c := askMissing)
    (m := ⟨sharedFiles, default, {}, none⟩) hread
  have hresolve : resolve (opening serving "peer" ⟨.retrieve, "missing"⟩ b.clock sharedFiles)
      serving.root (.of "missing") = .ok [bytes "srv", bytes "missing"] := by
    show resolve sharedFiles (.of "srv") (.of "missing") = _
    cbv
  obtain ⟨hresult, hconnection⟩ := serve_result (c := { askMissing with inbound := t })
    (m := ⟨sharedFiles, b, {}, none⟩) hresolve
  -- the path is resolved, but nothing is there, and that is found out before anything is sent
  have hnone : (opening serving "peer" ⟨.retrieve, "missing"⟩ b.clock sharedFiles).isFile
      (pathOf [bytes "srv", bytes "missing"]) = false := by
    show sharedFiles.isFile (pathOf [bytes "srv", bytes "missing"]) = false
    cbv
  rw [hrun, hresult, hconnection]
  unfold transfer
  dsimp only
  rw [if_neg (by simp [hnone])]
  refine ⟨⟨_, rfl⟩, rfl, fun d content hrequested => ?_⟩
  obtain ⟨mode, serial, hfile⟩ := hrequested.file
  obtain rfl := Except.ok.inj (hresolve.symm.trans hrequested.resolved)
  have hget : sharedFiles.tree.get? [bytes "srv", bytes "missing"] = none := by decide
  cases hget.symm.trans hfile

/-- A source that fails, a session that is gone without an answer, a peer that is gone after its
header, and one that has no such file. -/
theorem left_or_replaced_gone :
    (∃ calls part, Cut haltingStream (sendChunks { baseRate := 2 } (.of "source") haltingSource
        haltingStream (default : Ambient).register).2.2.1 calls part ∧ part <+: [1, 2, 3, 4, 5] ∧
      Settled (.of "local") part sharedFiles
        (receiveFile {} (.of "local") (.ofBytes part) default sharedFiles).2.2.2
        (receiveFile {} (.of "local") (.ofBytes part) default sharedFiles).1 ∧
      Keeps serving "peer" "new" [1, 2, 3, 4, 5]
        (sending (Header.octets ⟨.store, "new"⟩ ++ part)) ⟨sharedFiles, default, {}, none⟩) ∧
    (∃ calls, Answered serving "peer" "missing" askMissing ⟨sharedFiles, default, {}, none⟩ calls
        []) ∧
    Settled (.of "local") [] sharedFiles
      (fetch {} (.of "local") "missing" .willing default (.ofBytes []) default sharedFiles).2
      (fetch {} (.of "local") "missing" .willing default (.ofBytes []) default sharedFiles).1 ∧
    Keeps serving "peer" "new" (bytes "old") (sending (Header.octets ⟨.store, "new"⟩))
      ⟨sharedFiles, default, {}, none⟩ ∧
    ∀ (d : Dialer) (n : Network),
      (d.upload (.of "srv") "new" n ⟨sharedFiles, default, {}, none⟩).2 =
        (n, ⟨sharedFiles, default, {}, none⟩) := by
  obtain ⟨hsource, hfetch, hstore, hnone⟩ := left_or_replaced
  -- the peer has asked, and the session is gone without an answer
  obtain ⟨t, b, hwrite, hasked⟩ := cut_of_write (h := ⟨.retrieve, "missing"⟩)
    Outbound.willing_willing (by decide) default
  have hcut : Cut askMissing.outbound (run serving "peer" askMissing
      ⟨sharedFiles, default, {}, none⟩).2.1.outbound [] [] := by
    rw [askMissing_refused.2.1]
    exact ⟨List.suffix_refl _, List.suffix_refl _, rfl⟩
  obtain ⟨hanswered, hsettled⟩ := hfetch "missing" .willing default t.calls serving "peer"
    askMissing ⟨sharedFiles, default, {}, none⟩ [] [] sharedFiles_wellFormed
    (by rwa [hwrite, show askMissing.inbound.pending = _ from Inbound.pending_ofBytes _]) hcut
  refine ⟨?_, ⟨[], hanswered⟩, hsettled {} (.of "local") (.ofBytes []) default sharedFiles
    sharedFiles_wellFormed rfl, ?_, fun d n => hnone d _ _ n _ (by cbv)⟩
  · have hfaithful :=
      sendChunks_faithful { baseRate := 2 } (.of "source") haltingStream default
        haltingSource_settles
    obtain ⟨part, hpart, -⟩ := hfaithful.moments _ hfaithful.kept (List.suffix_refl _)
    have hcut : Cut haltingStream (sendChunks { baseRate := 2 } (.of "source") haltingSource
        haltingStream (default : Ambient).register).2.2.1 _ part :=
      ⟨hfaithful.kept, List.suffix_refl _, hpart⟩
    obtain ⟨hfirst, -, hreceived, hkept⟩ := hsource _ _ _ _ _ _ _ haltingSource_settles hcut
    exact ⟨_, part, hcut, hfirst,
      hreceived {} (.of "local") _ default _ sharedFiles_wellFormed (Inbound.pending_ofBytes _),
      hkept "new" serving "peer" _ _ sharedFiles_wellFormed (by decide)
        (Inbound.pending_ofBytes _)⟩
  · -- a peer that stores its file is gone after the header
    obtain ⟨calls, hcut⟩ := cut_after_header {} sharedFiles (.of "local") Outbound.willing_willing
      (show Header.lengthAllowed (bytes "new").length = true by decide) default
    have hread : (sharedFiles.read (.of "local")).toOption.getD [] = bytes "old" := by cbv
    rw [← hread]
    exact (hstore {} sharedFiles (.of "local") "new" .willing default calls _ hcut).2 serving "peer"
      (sending (Header.octets ⟨.store, "new"⟩)) _ sharedFiles_wellFormed
      (Inbound.pending_ofBytes _)

/-- **To fetch what is not there empties a file**: the session ends with an error, but all that the
peer sees of it is a stream without an octet. -/
theorem fetch_missing :
    sharedFiles.tree.WellFormed ∧
      sharedFiles.tree.get? [bytes "local"] = some (.file 0o644 0 (bytes "old")) ∧
      (∃ e, (run serving "peer" askMissing ⟨sharedFiles, default, {}, none⟩).1 = .error e) ∧
      (∀ d content, ¬ Requested serving "peer" ⟨.retrieve, "missing"⟩ askMissing
        ⟨sharedFiles, default, {}, none⟩ d content) ∧
      ∃ wire, (run serving "peer" askMissing ⟨sharedFiles, default, {}, none⟩).2.1.outbound.wire =
          wire ∧
        (∃ report, (fetch {} (.of "local") "missing" .willing default (.ofBytes wire) default
          sharedFiles).1 = .ok report) ∧
        ∃ mode serial, (fetch {} (.of "local") "missing" .willing default (.ofBytes wire) default
          sharedFiles).2.tree.get? [bytes "local"] = some (.file mode serial []) := by
  obtain ⟨hfails, hsame, hnone⟩ := askMissing_refused
  have hprepare : prepareFolder (.of "local") sharedFiles = (.ok (), sharedFiles) := by cbv
  have hold : sharedFiles.tree.get? [bytes "local"] = some (.file 0o644 0 (bytes "old")) := by
    decide
  have hadmits : Admits (.of "local") ([] : Bytes).length sharedFiles [bytes "local"] :=
    { stageable := stageable_of_ok hprepare (by cbv)
      synced := rfl
      fits := by
        intro limit hlimit
        cases hlimit
      found := by cbv
      free := by simp [hprepare, hold]
      plain := by decide }
  obtain ⟨serial, elapsed, t, b, fs, hreceive, hfile, -⟩ := receiveFile_of_delivers
    (.ofBytes []) default hadmits (.of_bytes (max 1 ({} : Settings).maxRetries.toNat) 0 0 [])
    (receiveFile_ne_panicked baseRate_default _ _ _ _)
  obtain ⟨u, d, hwrite, -⟩ :=
    Header.write_of_willing (h := ⟨.retrieve, "missing"⟩) Outbound.willing_willing
      (by decide) default
  -- an end without an octet before it is the end of an empty file
  have hfetch : fetch {} (.of "local") "missing" .willing default (.ofBytes []) default
      sharedFiles = (.ok ⟨.receive, .of "local", ([] : Bytes).length, elapsed⟩, fs) := by
    unfold fetch
    rw [hwrite, hreceive]
  refine ⟨sharedFiles_wellFormed, hold, hfails, hnone, [], by rw [hsame]; rfl, ?_⟩
  rw [hfetch]
  exact ⟨⟨_, rfl⟩, _, serial, hfile⟩

end Session

end Courier
