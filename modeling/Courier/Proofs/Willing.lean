import Courier.Proofs.Chunks
import Courier.Proofs.Exchange
import Courier.Proofs.Overflow

/-!
# Streams that take everything

A stream that takes all that it is offered, such as the connections of the dialers and listeners
here, never makes a send fail: what can be read is sent.

Main results:

* `Transfer.sendFile_of_willing` — a file that can be read is sent.
* `Session.push_of_willing`, `Session.run_of_willing` — so is one that is stored, and one that is
  asked for.
-/

namespace Courier

open Files Outbound

/-! ## Calls -/

namespace Outbound

/-- A stream that takes all that it is offered. -/
structure Willing (s : Outbound) : Prop where
  uptakes : s.uptakes = []
  flushFault : s.flushFault = none

/-- The stream `willing` takes all it is offered. -/
theorem willing_willing : willing.Willing :=
  ⟨rfl, rfl⟩

variable {s t : Outbound} {data : Bytes} {a b : Ambient} {r : Except Fault Nat}

/-- A willing stream flushes. -/
theorem Willing.flush (h : s.Willing) : s.flush = .ok () := by
  simp [Outbound.flush, h.flushFault]

/-- One call takes all of what it is offered. -/
theorem Willing.write (h : s.Willing) (hw : s.write data a = (r, t, b)) :
    r = .ok data.length ∧ t.Willing := by
  unfold Outbound.write at hw
  rw [h.uptakes] at hw
  cases hw
  exact ⟨rfl, rfl, h.flushFault⟩

/-- All the octets are taken. -/
theorem Willing.writeAll (h : s.Willing) (data : Bytes) (a : Ambient) :
    ∃ t b, s.writeAll data a = (.ok (), t, b) ∧ t.Willing := by
  -- the first call takes everything, so that the second round finds nothing left
  fun_induction Outbound.writeAll s data a with
  | case1 s a => exact ⟨s, a, rfl, h⟩
  | case2 s data a hne t b hwrite =>
    obtain ⟨hr, -⟩ := h.write hwrite
    exact absurd (List.length_eq_zero_iff.mp (Except.ok.inj hr).symm) hne
  | case3 s data a hne n t b hwrite ih => exact ih (h.write hwrite).2
  | case4 s data a hne f t b hwrite hf ih => exact ih (h.write hwrite).2
  | case5 s data a hne f t b hwrite hf => cases (h.write hwrite).1

end Outbound

/-- A header whose path is not too long is written. -/
theorem Header.write_of_willing {s : Outbound} {h : Header} (hw : s.Willing)
    (hallowed : Header.lengthAllowed (bytes h.path).length = true) (a : Ambient) :
    ∃ t b, h.write s a = (.ok (), t, b) ∧ t.Willing := by
  obtain ⟨t, b, hwrite, ht⟩ := hw.writeAll h.octets a
  refine ⟨t, b, ?_, ht⟩
  unfold Header.write
  dsimp only
  rw [if_pos hallowed, hwrite]
  dsimp only
  rw [ht.flush]

/-! ## Sends -/

namespace Transfer

variable {s : Outbound}

/-- A chunk is written at the first attempt. -/
theorem writeChunk_of_willing (settings : Settings) (h : s.Willing) (failures : Nat)
    {chunk : Bytes} (hne : chunk ≠ []) (a : Ambient) :
    ∃ t b, writeChunk settings failures s chunk a = (.ok (), t, b) ∧ t.Willing := by
  have hnone : ∀ u ∈ s.uptakes, Uptake.Takes chunk.length u := by simp [h.uptakes]
  obtain ⟨t, b, hwrite, -, hflush, hsuffix⟩ :=
    writeChunk_of_takes settings failures hnone hne (Nat.le_refl _) a
  rw [h.uptakes] at hsuffix
  exact ⟨t, b, hwrite, List.suffix_nil.mp hsuffix, hflush.trans h.flushFault⟩

/-- A source that only interruptions disturb is sent, at a rate that is no more than a buffer. -/
theorem sendRest_of_willing {settings : Settings} (hrate : settings.baseRate.toNat ≤ maxBuffer)
    (path : Path) (pace : Pace) (source : Inbound) (h : s.Willing)
    (hsource : Inbound.OnlyInterrupted source.arrivals) (a : Ambient) :
    ∃ p, (sendRest settings path pace source s a).1 = .ok p := by
  -- chunk by chunk: no filling and no write fails, so that only the end of the source ends the loop
  fun_induction sendRest settings path pace source s a with
  | case1 pace source s a e t b hfill =>
    rcases fillChunk_error hfill with ⟨hlt, -⟩ | ⟨-, f, -, hfailed⟩
    · exact absurd (lt_baseRate_of_lt hlt) (Nat.not_lt.mpr hrate)
    · obtain ⟨⟨octets, hoctets⟩, -⟩ := hsource.fill hfailed
      cases hoctets
  | case2 pace source s a t b hfill f hflush => cases hflush.symm.trans h.flush
  | case3 pace source s a t b hfill hflush => exact ⟨pace, rfl⟩
  | case4 pace source s a o octets t b hfill e u c hwrite =>
    obtain ⟨_, _, hwrite', -⟩ := writeChunk_of_willing settings h 0 (List.cons_ne_nil o octets) b
    cases hwrite.symm.trans hwrite'
  | case5 pace source s a o octets t b hfill u c hwrite pace' clock hrecord ih =>
    obtain ⟨-, ht⟩ := hsource.fill (fill_of_fillChunk hfill).2
    obtain ⟨_, _, hwrite', hu⟩ := writeChunk_of_willing settings h 0 (List.cons_ne_nil o octets) b
    cases hwrite.symm.trans hwrite'
    exact ih hu ht

/-- A file that can be read is sent to a willing stream. -/
theorem sendFile_of_willing {settings : Settings} (hrate : settings.baseRate.toNat ≤ maxBuffer)
    {fs : Files} {path : Path} {content : Bytes} (h : s.Willing)
    (hread : fs.read path = .ok content) (a : Ambient) :
    ∃ report, (sendFile settings fs path s a).1 = .ok report := by
  unfold Files.read at hread
  unfold sendFile
  cases hstat : fs.stat path with
  | error f =>
    rw [hstat] at hread
    cases hread
  | ok found =>
    obtain ⟨l, entry⟩ := found
    rw [hstat] at hread
    cases entry with
    | folder => cases hread
    | link => cases hread
    | file mode serial content =>
      obtain ⟨p, hp⟩ := sendRest_of_willing hrate path
        (Pace.begin settings.baseRate.toNat a.register.clock)
        (sourceOf (.file mode serial content)) h
        (by simp [Inbound.OnlyInterrupted, sourceOf, Inbound.ofBytes, Inbound.of]) a.register
      dsimp only [sendChunks]
      rw [hp]
      exact ⟨_, rfl⟩

end Transfer

namespace Session

open Transfer

/-- A file that can be read is pushed onto a willing stream, under a path that may be sent. -/
theorem push_of_willing {settings : Settings} (hrate : settings.baseRate.toNat ≤ maxBuffer)
    {fs : Files} {file : Path} {remote : String} {content : Bytes} {s : Outbound} (h : s.Willing)
    (hread : fs.read file = .ok content)
    (hallowed : Header.lengthAllowed (bytes remote).length = true) (a : Ambient) :
    ∃ report, (push settings fs file remote s a).1 = .ok report := by
  obtain ⟨t, b, hheader, ht⟩ := Header.write_of_willing h (h := ⟨.store, remote⟩) hallowed a
  unfold push
  rw [hheader]
  exact sendFile_of_willing hrate ht hread b

/-- A served file is sent to a peer that asks for it and takes it. -/
theorem run_of_willing {ctx : Context} {peer : String} {header : Header} {c : Connection}
    {m : Machine} {d : Location} {t : Inbound} {b : Ambient}
    (hrate : ctx.settings.baseRate.toNat ≤ maxBuffer)
    (hread : Header.read c.inbound m.ambient = (.ok header, t, b))
    (hcommand : header.command = .retrieve)
    (hresolve : resolve (begun ctx peer header c m) ctx.root (.of header.path) = .ok d)
    (hfile : (begun ctx peer header c m).isFile (pathOf d) = true) (hw : c.outbound.Willing) :
    ∃ report, (run ctx peer c m).1 = .ok report := by
  obtain ⟨hrun, hbegun⟩ := run_of_read ctx peer hread
  rw [hbegun] at hresolve hfile
  obtain ⟨hresult, -⟩ := serve_result (c := { c with inbound := t }) (m := { m with ambient := b })
    hresolve
  rw [hrun, hresult, hcommand]
  unfold transfer
  dsimp only
  rw [if_pos hfile]
  -- a file that is there can be read
  obtain ⟨content, hcontent⟩ : ∃ content,
      (opening ctx peer header b.clock m.files).read (pathOf d) = .ok content := by
    unfold Files.isFile at hfile
    unfold Files.read
    cases hstat : (opening ctx peer header b.clock m.files).stat (pathOf d) with
    | error f =>
      rw [hstat] at hfile
      cases hfile
    | ok found =>
      obtain ⟨l, e⟩ := found
      rw [hstat] at hfile
      cases e with
      | file mode serial content => exact ⟨content, rfl⟩
      | folder => cases hfile
      | link => cases hfile
  exact sendFile_of_willing hrate hw hcontent b

end Session

end Courier
