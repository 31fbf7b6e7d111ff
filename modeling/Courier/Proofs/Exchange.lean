import Courier.Endpoint.Dialer
import Courier.Proofs.Header
import Courier.Proofs.Session

/-!
# What the two ends put on the wire

A peer that stores sends a header and then its file; a session that is asked for a file sends that
file and nothing else. At every call to write, the wire has a first part of this.

Main results:

* `Transfer.sent_of_sendFile` — what has been sent of a file.
* `Session.push`, `Session.sent_of_push` — what has been sent of a header and a file.
* `Session.sent_of_run` — what a session has sent.
-/

namespace Courier

open Files Outbound

/-! ## A file -/

/-- A filling fails at once where the first thing that arrives is a fault. -/
theorem Inbound.fill_of_fault {f : Fault} {room : Nat} (hf : f.isInterruption = false)
    (hroom : 0 < room) (a : Ambient) :
    ∃ t b, (of [.fault f]).fill room a = (.error f, t, b) := by
  have hread : (of [.fault f]).read room a = (.error f, ⟨[], [⟨room, .error f⟩]⟩, a) := rfl
  refine ⟨⟨[], [⟨room, .error f⟩]⟩, a, ?_⟩
  rw [fill, dif_pos hroom]
  split
  · rename_i h
    cases hread.symm.trans h
  · rename_i h
    cases hread.symm.trans h
  · rename_i h
    cases hread.symm.trans h
    rw [hf]
    rfl

namespace Transfer

/-- A folder is opened, but it is not sent. -/
theorem sendChunks_of_fault (settings : Settings) (path : Path) (f : Fault)
    (hf : f.isInterruption = false) (s : Outbound) (a : Ambient) :
    ∃ e, (sendChunks settings path (.of [.fault f]) s a).1 = .error e := by
  obtain ⟨t, b, hfill⟩ := Inbound.fill_of_fault hf (chunkSize_pos settings a) a
  unfold sendChunks
  rw [sendRest]
  split
  · exact ⟨_, rfl⟩
  · rename_i h
    cases hfill.symm.trans (fill_of_fillChunk h).2
  · rename_i h
    cases hfill.symm.trans (fill_of_fillChunk h).2

/-- What is known of a stream on which `data` is being sent, from the state `s` to the state `t`. At
every call it has taken a first part of the data, and all of it if it was sent. -/
structure Sends (s t : Outbound) (data : Bytes) (sent : Prop) : Prop where
  kept : s.calls <:+ t.calls
  moments : ∀ calls, s.calls <:+ calls → calls <:+ t.calls →
    ∃ part, taken calls = s.wire ++ part ∧ part <+: data
  whole : sent → t.wire = s.wire ++ data

/-- A stream that is left alone has been sent nothing. -/
theorem Sends.nothing (s : Outbound) (data : Bytes) {sent : Prop} (h : ¬ sent) :
    Sends s s data sent where
  kept := List.suffix_refl _
  moments := fun _ hs ht => prefix_of_calls hs ht (List.append_nil _).symm List.nil_prefix
  whole := fun hsent => absurd hsent h

/-- **What has been sent of a file** is a first part of it. -/
theorem sent_of_sendFile (settings : Settings) (fs : Files) (path : Path) (s : Outbound)
    (a : Ambient) :
    Sends s (sendFile settings fs path s a).2.1 ((fs.read path).toOption.getD [])
        (∃ report, (sendFile settings fs path s a).1 = .ok report) ∧
      ∀ report, (sendFile settings fs path s a).1 = .ok report →
        ∃ content, fs.read path = .ok content ∧
          ∃ elapsed, report = ⟨.send, path, content.length, elapsed⟩ := by
  unfold sendFile Files.read
  cases hstat : fs.stat path with
  | error f =>
    dsimp only
    exact ⟨.nothing s _ (fun ⟨_, h⟩ => nomatch h), fun _ h => nomatch h⟩
  | ok found =>
    obtain ⟨l, entry⟩ := found
    have hsettles := fileSource_settles fs path
    have hpending := pending_fileSource fs path
    unfold fileSource Files.read at hpending
    unfold fileSource at hsettles
    rw [hstat] at hsettles hpending
    dsimp only at hsettles hpending
    have hsends := sendChunks_faithful settings path s a hsettles
    dsimp only
    cases hresult : (sendChunks settings path (sourceOf entry) s a.register).1 with
    | error e =>
      refine ⟨⟨hsends.kept, ?_, fun ⟨_, h⟩ => nomatch h⟩, fun _ h => nomatch h⟩
      rw [← hpending]
      exact hsends.moments
    | ok pace =>
      rw [hresult] at hsends
      obtain ⟨hwire, hmoved⟩ := hsends.whole _ rfl
      -- what was sent whole is a file
      cases entry with
      | folder | link =>
        obtain ⟨e, he⟩ := sendChunks_of_fault settings path .isADirectory rfl s a.register
        cases he.symm.trans hresult
      | file mode serial content =>
        rw [show (sourceOf (.file mode serial content)).pending = content from
          Inbound.pending_ofBytes content] at hwire hmoved
        refine ⟨⟨hsends.kept, ?_, fun _ => hwire⟩, fun report hreport => ?_⟩
        · rw [← hpending]
          exact hsends.moments
        · cases hreport
          exact ⟨content, rfl, _, congrArg (Report.mk _ _ · _) hmoved⟩

end Transfer

namespace Session

open Transfer

/-! ## A header and a file -/

/-- What a peer that stores puts on a stream: a header, and then its file. -/
def push (settings : Settings) (fs : Files) (file : Path) (remote : String) (s : Outbound)
    (a : Ambient) : Except TransferError Report × Outbound × Ambient :=
  match Header.write ⟨.store, remote⟩ s a with
  | (.error e, s, a) => (.error e, s, a)
  | (.ok (), s, a) => sendFile settings fs file s a

/-- An upload is such a peer. -/
theorem deliver_eq_push (d : Dialer) (file : Path) (remote : String) (m : Machine) :
    d.deliver file remote m =
      let (result, s, ambient) := push d.settings m.files file remote .willing m.ambient
      (result, s, { m with ambient }) := by
  unfold Dialer.deliver push
  cases Header.write ⟨.store, remote⟩ .willing m.ambient with
  | mk result rest => cases result <;> rfl

/-- **What has been sent of a header and a file** is a first part of them. A header that may not be
sent is not begun. -/
theorem sent_of_push (settings : Settings) (fs : Files) (file : Path) (remote : String)
    (s : Outbound) (a : Ambient) :
    Sends s (push settings fs file remote s a).2.1
        (Header.octets ⟨.store, remote⟩ ++ (fs.read file).toOption.getD [])
        (∃ report, (push settings fs file remote s a).1 = .ok report) ∧
      (Header.lengthAllowed (bytes remote).length = false →
        (push settings fs file remote s a).2.1.calls = s.calls) ∧
      ∀ report, (push settings fs file remote s a).1 = .ok report →
        Header.lengthAllowed (bytes remote).length = true ∧
        ∃ content, fs.read file = .ok content ∧
          ∃ elapsed, report = ⟨.send, file, content.length, elapsed⟩ := by
  unfold push
  cases hwrite : Header.write ⟨.store, remote⟩ s a with
  | mk result rest =>
    obtain ⟨t, b⟩ := rest
    obtain ⟨calls, rest, hcalls, hsplit, hnever, hok⟩ := Header.calls_of_write hwrite
    have hkept : s.calls <:+ t.calls := ⟨calls, hcalls.symm⟩
    have hwire : taken t.calls = s.wire ++ taken calls := by rw [hcalls, taken_append]; rfl
    have hunsent : Header.lengthAllowed (bytes remote).length = false → t.calls = s.calls :=
      fun h => by rw [hcalls, hnever h]; rfl
    cases result with
    -- the header has failed: what came of it is a first part of it, and nothing of the file follows
    | error e =>
      refine ⟨⟨hkept, fun c hs ht => ?_, fun ⟨_, h⟩ => nomatch h⟩, hunsent, fun _ h => nomatch h⟩
      refine prefix_of_calls hs ht hwire ?_
      rw [hsplit, List.append_assoc]
      exact List.prefix_append ..
    | ok =>
      obtain ⟨rfl, hallowed⟩ := hok rfl
      rw [List.append_nil] at hsplit
      obtain ⟨hsends, hreport⟩ := sent_of_sendFile settings fs file t b
      dsimp only
      refine ⟨⟨hkept.trans hsends.kept, fun c hs ht => ?_, fun h => ?_⟩, fun h => ?_,
        fun report h => ⟨hallowed, hreport report h⟩⟩
      · -- what came of the file comes after the whole header
        obtain ⟨part, hpart, hprefix⟩ := hsends.moments _ hsends.kept (List.suffix_refl _)
        have hsent : taken (sendFile settings fs file t b).2.1.calls =
            s.wire ++ (taken calls ++ part) := by
          rw [hpart, wire_eq, hwire, List.append_assoc]
        refine prefix_of_calls hs ht hsent ?_
        rw [hsplit]
        exact (List.prefix_append_right_inj _).mpr hprefix
      · rw [hsends.whole h, wire_eq, hwire, hsplit, List.append_assoc]
      · rw [h] at hallowed
        cases hallowed

/-! ## A session -/

variable {ctx : Context} {peer : String} {header : Header} {c : Connection} {m : Machine}

/-- The files as a session finds them when it has read a header and its first line is in the log. -/
def begun (ctx : Context) (peer : String) (header : Header) (c : Connection) (m : Machine) :
    Files :=
  opening ctx peer header (Header.read c.inbound m.ambient).2.2.clock m.files

/-- A session that has read its header serves it. -/
theorem run_of_read (ctx : Context) (peer : String) {t : Inbound} {b : Ambient}
    (h : Header.read c.inbound m.ambient = (.ok header, t, b)) :
    run ctx peer c m = serve ctx peer header { c with inbound := t } { m with ambient := b } ∧
      begun ctx peer header c m = opening ctx peer header b.clock m.files := by
  unfold run begun
  rw [h]
  exact ⟨rfl, rfl⟩

/-- The line in the log that begins a session leaves the tree well formed. -/
theorem wellFormed_begun (ht : m.files.tree.WellFormed) :
    (begun ctx peer header c m).tree.WellFormed :=
  ht.of_shape_eq fun _ => EventLog.shape_note ..

/-- What follows the transfer changes neither its result nor the connection. -/
theorem serve_result {r : Location}
    (h : resolve (opening ctx peer header m.ambient.clock m.files) ctx.root (.of header.path) =
      .ok r) :
    (serve ctx peer header c m).1 = (transfer ctx header.command (pathOf r) c
        { m with files := opening ctx peer header m.ambient.clock m.files }).1 ∧
      (serve ctx peer header c m).2.1 = (transfer ctx header.command (pathOf r) c
        { m with files := opening ctx peer header m.ambient.clock m.files }).2.1 := by
  rw [serve_eq h rfl]
  exact ⟨rfl, rfl⟩

/-- A peer asks for a served file. -/
structure Requested (ctx : Context) (peer : String) (header : Header) (c : Connection) (m : Machine)
    (d : Location) (content : Bytes) : Prop where
  read : ∃ t b, Header.read c.inbound m.ambient = (.ok header, t, b)
  retrieve : header.command = .retrieve
  resolved : resolve (begun ctx peer header c m) ctx.root (.of header.path) = .ok d
  file : ∃ mode serial, (begun ctx peer header c m).tree.get? d = some (.file mode serial content)

/-- Only a file that is served is sent. -/
theorem transfer_retrieve (ctx : Context) {d : Location} (c : Connection) (m : Machine)
    (hproper : ProperLocation d) (hclear : m.files.tree.Clear d) :
    (∃ mode serial content, m.files.tree.get? d = some (.file mode serial content) ∧
      Sends c.outbound (transfer ctx .retrieve (pathOf d) c m).2.1.outbound content
        (∃ report, (transfer ctx .retrieve (pathOf d) c m).1 = .ok report) ∧
      ∀ report, (transfer ctx .retrieve (pathOf d) c m).1 = .ok report →
        ∃ elapsed, report = ⟨.send, pathOf d, content.length, elapsed⟩) ∨
    ((∃ e, (transfer ctx .retrieve (pathOf d) c m).1 = .error e) ∧
      (transfer ctx .retrieve (pathOf d) c m).2.1 = c) := by
  unfold transfer
  dsimp only
  by_cases hfile : m.files.isFile (pathOf d) = true
  · rw [if_pos hfile]
    unfold Files.isFile at hfile
    cases hstat : m.files.stat (pathOf d) with
    | error f =>
      rw [hstat] at hfile
      cases hfile
    | ok found =>
      obtain ⟨l, e⟩ := found
      rw [hstat] at hfile
      obtain ⟨rfl, hget⟩ := stat_pathOf hproper hclear hstat
      cases e with
      | folder => cases hfile
      | link => cases hfile
      -- the location has no links along it, so what is opened is what is there
      | file mode serial content =>
        obtain ⟨hsends, hreport⟩ := sent_of_sendFile ctx.settings m.files (pathOf l) c.outbound
          m.ambient
        have hread : m.files.read (pathOf l) = .ok content := by
          unfold Files.read
          rw [hstat]
        rw [hread] at hsends hreport
        refine .inl ⟨mode, serial, content, hget, hsends, fun report h => ?_⟩
        obtain ⟨_, hcontent, hreport⟩ := hreport report h
        cases hcontent
        exact hreport
  · rw [if_neg hfile]
    exact .inr ⟨⟨_, rfl⟩, rfl⟩

/-- **What a session has sent** is a first part of the file it was asked for, and nothing if it was
not asked for one that it serves. -/
theorem sent_of_run (ctx : Context) (peer : String) (c : Connection) (m : Machine)
    (ht : m.files.tree.WellFormed) :
    (∃ header d content, Requested ctx peer header c m d content ∧
      Sends c.outbound (run ctx peer c m).2.1.outbound content
        (∃ report, (run ctx peer c m).1 = .ok report) ∧
      ∀ report, (run ctx peer c m).1 = .ok report →
        ∃ elapsed, report = ⟨.send, pathOf d, content.length, elapsed⟩) ∨
    ((run ctx peer c m).2.1.outbound = c.outbound ∧
      ∀ header t b, Header.read c.inbound m.ambient = (.ok header, t, b) →
        header.command = .retrieve → ∃ e, (run ctx peer c m).1 = .error e) := by
  cases hread : Header.read c.inbound m.ambient with
  | mk found rest =>
    obtain ⟨t, b⟩ := rest
    cases found with
    | error e =>
      refine .inr ⟨?_, fun header' t' b' h => ?_⟩
      · unfold run
        rw [hread]
      · cases h
    -- the line in the log comes before the path is resolved
    | ok header =>
      obtain ⟨hrun, hbegun⟩ := run_of_read ctx peer hread
      rw [hrun]
      cases hresolve : resolve (opening ctx peer header b.clock m.files) ctx.root
          (.of header.path) with
      | error e =>
        rw [serve_eq_error (m := { m with ambient := b }) hresolve]
        exact .inr ⟨rfl, fun _ _ _ _ _ => ⟨e, rfl⟩⟩
      | ok d =>
        obtain ⟨hresult, hconnection⟩ := serve_result (c := { c with inbound := t })
          (m := { m with ambient := b }) hresolve
        rw [hresult, hconnection]
        obtain ⟨-, -, -, -, hclear, hproper, -⟩ :=
          resolve_eq_ok (ht.of_shape_eq fun _ => EventLog.shape_note ..) hresolve
        cases hcommand : header.command with
        | store =>
          refine .inr ⟨rfl, fun header' t' b' h h' => ?_⟩
          cases h
          rw [hcommand] at h'
          cases h'
        -- nothing that a session does after the transfer goes to its peer
        | retrieve =>
          rcases transfer_retrieve ctx { c with inbound := t }
              { m with files := opening ctx peer header b.clock m.files, ambient := b }
              hproper hclear with
            ⟨mode, serial, content, hget, hsends, hreport⟩ | ⟨herror, hsame⟩
          · refine .inl ⟨header, d, content, ⟨⟨t, b, hread⟩, hcommand, ?_, mode, serial, ?_⟩,
              hsends, hreport⟩
            · rw [hbegun]
              exact hresolve
            · rw [hbegun]
              exact hget
          · exact .inr ⟨by rw [hsame], fun _ _ _ _ _ => herror⟩

end Session

end Courier
