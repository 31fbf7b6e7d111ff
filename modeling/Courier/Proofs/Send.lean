import Mathlib.Logic.Relation
import Courier.Proofs.Stream
import Courier.Transfer.Send

/-!
# Sending loses, repeats and reorders nothing

A send goes round by round: a chunk is filled from the source and written whole. Each round
moves what the chunk holds from what the source still brings to what the stream has taken, so
at every call to write the stream has taken a first part of the source. The send ends in the
first round that does not get through.

Main results:

* `Transfer.calls_of_writeChunk` — a chunk goes out in order, and a call given up is the last.
* `Transfer.Round.advance` — what one round keeps true; `Transfer.advance_of_run` — what any
  number of rounds do.
* `Transfer.sendRest_run` — a send is a run of rounds and one of five ends.
* `Transfer.send_faithful` — at every moment a prefix, all of it in the end, and no call after
  an attempt is given up.
-/

namespace Courier.Transfer

open Outbound Relation

/-! ## One chunk -/

/-- A call in front of those that write what it did not take. -/
theorem calls_after_write {s u t : Outbound} {chunk rest : Bytes} {a b : Ambient}
    {outcome : Except Fault Nat} {calls : List WriteCall}
    (hwrite : s.write chunk a = (outcome, u, b)) (hcalls : t.calls = calls ++ u.calls)
    (hrest : remaining chunk outcome = taken calls ++ rest) :
    t.calls = (calls ++ [⟨chunk, outcome⟩]) ++ s.calls ∧
      chunk = taken (calls ++ [⟨chunk, outcome⟩]) ++ rest := by
  obtain ⟨hfirst, hsplit⟩ := taken_of_write hwrite
  refine ⟨?_, ?_⟩
  · rw [hcalls, hfirst, List.append_assoc]
    rfl
  · rw [taken_append, List.append_assoc, ← hrest, hsplit]

/-- The calls made for a chunk take a first part of it, in order. All of it is taken unless
the last call failed as often as the settings allow. -/
theorem calls_of_writeChunk {settings : Settings} {failures : Nat} {s t : Outbound}
    {chunk : Bytes} {a b : Ambient} {r : Except TransferError Unit}
    (h : writeChunk settings failures s chunk a = (r, t, b)) :
    ∃ calls rest, t.calls = calls ++ s.calls ∧ chunk = taken calls ++ rest ∧
      (r = .ok () → rest = []) ∧
      ∀ e, r = .error e → ∃ c earlier f, calls = c :: earlier ∧ writeFault? c.outcome = some f ∧
        e = .retriesExhausted .write (max (failures + 1) settings.maxRetries.toNat) f := by
  -- by the recursion of the tries: each call is put in front of the later ones
  fun_induction writeChunk settings failures s chunk a with
  | case1 =>
    cases h
    exact ⟨[], [], rfl, rfl, fun _ => rfl, (fun _ he => nomatch he)⟩
  | case2 failures s chunk a hne outcome u c hwrite hfault ih
  | case3 failures s chunk a hne outcome u c hwrite f hfault hinterrupted ih =>
    obtain ⟨calls, rest, hmore, hrest, hok, herror⟩ := ih h
    obtain ⟨hcalls, hsplit⟩ := calls_after_write hwrite hmore hrest
    refine ⟨_, rest, hcalls, hsplit, hok, ?_⟩
    intro e he
    obtain ⟨c, earlier, f, hc, hf, hexhausted⟩ := herror e he
    exact ⟨c, earlier ++ [⟨chunk, outcome⟩], f, by rw [hc]; rfl, hf, hexhausted⟩
  | case4 failures s chunk a hne outcome u c hwrite f hfault _ hretries =>
    -- this failure is the last one that the settings allow
    obtain ⟨hcalls, hsplit⟩ := taken_of_write hwrite
    cases h
    refine ⟨[⟨chunk, outcome⟩], remaining chunk outcome, hcalls, hsplit.symm,
      (fun hr => nomatch hr), ?_⟩
    intro e he
    cases he
    exact ⟨_, [], f, rfl, hfault, by rw [Nat.max_eq_left hretries]⟩
  | case5 failures s chunk a hne outcome u c hwrite f hfault _ hretries ih =>
    obtain ⟨calls, rest, hmore, hrest, hok, herror⟩ := ih h
    obtain ⟨hcalls, hsplit⟩ := calls_after_write hwrite hmore hrest
    refine ⟨_, rest, hcalls, hsplit, hok, ?_⟩
    intro e he
    obtain ⟨c, earlier, g, hc, hg, hexhausted⟩ := herror e he
    -- the failures counted before do not bring the number past what the settings allow
    have hmax : max (failures + 1 + 1) settings.maxRetries.toNat =
        max (failures + 1) settings.maxRetries.toNat := by omega
    exact ⟨c, earlier ++ [⟨chunk, outcome⟩], g, by rw [hc]; rfl, hg, hmax ▸ hexhausted⟩

/-- A chunk is given up with one kind of error only. -/
theorem error_of_writeChunk {settings : Settings} {failures : Nat} {s t : Outbound}
    {chunk : Bytes} {a b : Ambient} {e : TransferError}
    (h : writeChunk settings failures s chunk a = (.error e, t, b)) :
    ∃ n f, e = .retriesExhausted .write n f := by
  obtain ⟨calls, rest, -, -, -, herror⟩ := calls_of_writeChunk h
  obtain ⟨c, earlier, f, -, -, hexhausted⟩ := herror e rfl
  exact ⟨_, f, hexhausted⟩

/-! ## Rounds -/

/-- Where a send stands between two rounds. -/
structure Sending where
  pace : Pace
  source : Inbound
  stream : Outbound
  ambient : Ambient

/-- One round: a chunk is filled, written whole and counted. -/
inductive Round (settings : Settings) : Sending → Sending → Prop where
  | chunk {p : Sending} {octets : Bytes} {source : Inbound} {stream : Outbound} {a b : Ambient}
      (hroom : chunkSize settings p.ambient ≤ maxBuffer)
      (hfill : p.source.fill (chunkSize settings p.ambient) p.ambient = (.ok octets, source, a))
      (hne : octets ≠ [])
      (hwrite : writeChunk settings 0 p.stream octets a = (.ok (), stream, b)) :
      Round settings p
        ⟨(p.pace.record octets.length b.clock).1, source, stream,
          { b with clock := (p.pace.record octets.length b.clock).2 }⟩

/-- How a send ends in the round that begins at `p`: its result, and the stream as it is left. -/
inductive Ends (settings : Settings) (path : Path) (p : Sending) :
    Except TransferError Pace → Outbound → Prop where
  | overflowed (hroom : maxBuffer < chunkSize settings p.ambient) :
      Ends settings path p (.error .panicked) p.stream
  | unread {f : Fault} {source : Inbound} {a : Ambient}
      (hfill : p.source.fill (chunkSize settings p.ambient) p.ambient = (.error f, source, a)) :
      Ends settings path p (.error (.filesystem .readSource path f)) p.stream
  | unflushed {f : Fault} {source : Inbound} {a : Ambient}
      (hfill : p.source.fill (chunkSize settings p.ambient) p.ambient = (.ok [], source, a))
      (hflush : p.stream.flush = .error f) :
      Ends settings path p (.error (.transport .flushStream f)) p.stream
  | finished {source : Inbound} {a : Ambient}
      (hfill : p.source.fill (chunkSize settings p.ambient) p.ambient = (.ok [], source, a)) :
      Ends settings path p (.ok p.pace) p.stream
  | unwritten {octets : Bytes} {source : Inbound} {stream : Outbound} {a b : Ambient}
      {e : TransferError}
      (hfill : p.source.fill (chunkSize settings p.ambient) p.ambient = (.ok octets, source, a))
      (hwrite : writeChunk settings 0 p.stream octets a = (.error e, stream, b)) :
      Ends settings path p (.error e) stream

/-- **A send is a run of rounds** with an end. -/
theorem sendRest_run (settings : Settings) (path : Path) (pace : Pace) (source : Inbound)
    (s : Outbound) (a : Ambient) :
    ∃ q, ReflTransGen (Round settings) ⟨pace, source, s, a⟩ q ∧
      Ends settings path q (sendRest settings path pace source s a).1
        (sendRest settings path pace source s a).2.2.1 := by
  -- by the recursion of the send; only its last case goes on to another round
  fun_induction sendRest settings path pace source s a with
  | case1 pace source s a e t b hfill =>
    rcases fillChunk_error hfill with ⟨hroom, rfl, rfl, rfl⟩ | ⟨-, f, rfl, hunread⟩
    · exact ⟨_, .refl, .overflowed hroom⟩
    · exact ⟨_, .refl, .unread hunread⟩
  | case2 pace source s a t b hfill f hflush =>
    exact ⟨_, .refl, .unflushed (fill_of_fillChunk hfill).2 hflush⟩
  | case3 pace source s a t b hfill hflush =>
    exact ⟨_, .refl, .finished (fill_of_fillChunk hfill).2⟩
  | case4 pace source s a o octets t b hfill e u c hwrite =>
    exact ⟨_, .refl, .unwritten (fill_of_fillChunk hfill).2 hwrite⟩
  | case5 pace source s a o octets t b hfill u c hwrite pace' clock hrecord ih =>
    obtain ⟨q, hrun, hends⟩ := ih
    obtain ⟨hroom, hfilled⟩ := fill_of_fillChunk hfill
    -- a whole chunk went out: one round, and the run goes on from where it led
    have hround := Round.chunk (p := ⟨pace, source, s, a⟩) hroom hfilled (by simp) hwrite
    rw [show pace.record _ c.clock = _ from hrecord] at hround
    exact ⟨q, .head hround hrun, hends⟩

/-- What has moved from the source to the stream between `p` and `q`. -/
structure Advance (p q : Sending) (calls : List WriteCall) : Prop where
  made : q.stream.calls = calls ++ p.stream.calls
  moved : p.source.pending = taken calls ++ q.source.pending
  counted : q.pace.moved = p.pace.moved + (taken calls).length
  settles : q.source.Settles

/-- Progress adds up. -/
theorem Advance.trans {p q r : Sending} {first later : List WriteCall} (h : Advance p q first)
    (h' : Advance q r later) : Advance p r (later ++ first) where
  made := by rw [h'.made, h.made, List.append_assoc]
  moved := by rw [h.moved, h'.moved, taken_append, List.append_assoc]
  counted := by rw [h'.counted, h.counted, taken_append, List.length_append, Nat.add_assoc]
  settles := h'.settles

variable {settings : Settings} {path : Path} {p q : Sending}

/-- A round takes a chunk off the source and puts it on the wire. -/
theorem Round.advance (h : Round settings p q) (hp : p.source.Settles) :
    ∃ calls, Advance p q calls := by
  obtain ⟨-, hfill, hne, hwrite⟩ := h
  obtain ⟨hpending, hsettles, -⟩ := Inbound.pending_of_fill hp hfill
  obtain ⟨calls, rest, hcalls, hsplit, hok, -⟩ := calls_of_writeChunk hwrite
  -- the chunk was taken whole
  rw [hok rfl, List.append_nil] at hsplit
  exact ⟨calls, hcalls, hsplit ▸ hpending, by rw [← hsplit]; rfl, hsettles⟩

/-- So do any number of rounds, chunk after chunk. -/
theorem advance_of_run (h : ReflTransGen (Round settings) p q) (hp : p.source.Settles) :
    ∃ calls, Advance p q calls := by
  -- by induction on the rounds
  induction h with
  | refl => exact ⟨[], rfl, rfl, rfl, hp⟩
  | tail _ hround ih =>
    obtain ⟨first, hfirst⟩ := ih
    obtain ⟨later, hlater⟩ := hround.advance hfirst.settles
    exact ⟨later ++ first, hfirst.trans hlater⟩

/-- The last round adds nothing to the stream unless it writes. -/
theorem Ends.calls {result : Except TransferError Pace} {t : Outbound}
    (h : Ends settings path p result t) (hp : p.source.Settles) :
    ∃ calls, t.calls = calls ++ p.stream.calls ∧ taken calls <+: p.source.pending := by
  cases h with
  | overflowed => exact ⟨[], rfl, List.nil_prefix⟩
  | unread => exact ⟨[], rfl, List.nil_prefix⟩
  | unflushed => exact ⟨[], rfl, List.nil_prefix⟩
  | finished => exact ⟨[], rfl, List.nil_prefix⟩
  | unwritten hfill hwrite =>
    obtain ⟨hpending, -⟩ := Inbound.pending_of_fill hp hfill
    obtain ⟨calls, rest, hcalls, hsplit, -⟩ := calls_of_writeChunk hwrite
    refine ⟨calls, hcalls, ?_⟩
    rw [hpending, hsplit, List.append_assoc]
    exact List.prefix_append ..

/-! ## A whole send -/

/-- What is true of a send that began at `p`, had `data` to send, and came to a result with
the stream left as `t`. -/
structure Faithful (settings : Settings) (p : Sending) (data : Bytes)
    (result : Except TransferError Nat) (t : Outbound) : Prop where
  kept : p.stream.calls <:+ t.calls
  /-- After each call, what was taken since the beginning is a first part of the data. -/
  moments : ∀ calls, p.stream.calls <:+ calls → calls <:+ t.calls →
    ∃ sent, taken calls = p.stream.wire ++ sent ∧ sent <+: data
  whole : ∀ n, result = .ok n → t.wire = p.stream.wire ++ data ∧ n = data.length
  /-- The call that was given up is the last one. -/
  exhausted : ∀ call n f, result = .error (.retriesExhausted call n f) →
    ∃ c earlier, t.calls = c :: earlier ∧ p.stream.calls <:+ earlier ∧
      writeFault? c.outcome = some f ∧ call = .write ∧ n = max 1 settings.maxRetries.toNat
  /-- The stream stays as it was when the source failed. -/
  unread : ∀ path f, result = .error (.filesystem .readSource path f) →
    ∃ q source a, ReflTransGen (Round settings) p q ∧
      q.source.fill (chunkSize settings q.ambient) q.ambient = (.error f, source, a) ∧
      t = q.stream
  /-- And so it does when a chunk is too large to be held. -/
  overflowed : result = .error .panicked →
    ∃ q, ReflTransGen (Round settings) p q ∧ maxBuffer < chunkSize settings q.ambient ∧
      t = q.stream

/-- What is taken only grows, so what is a prefix in the end was one all the time. -/
theorem prefix_of_calls {s t calls : List WriteCall} {sent data : Bytes} (hs : s <:+ calls)
    (ht : calls <:+ t) (hsent : taken t = taken s ++ sent) (hdata : sent <+: data) :
    ∃ sent, taken calls = taken s ++ sent ∧ sent <+: data := by
  obtain ⟨first, rfl⟩ := hs
  obtain ⟨later, rfl⟩ := ht
  refine ⟨taken first, taken_append .., List.IsPrefix.trans ?_ hdata⟩
  rw [taken_append, taken_append, List.append_assoc] at hsent
  rw [← List.append_cancel_left hsent]
  exact List.prefix_append ..

/-- What is true of a send, from the rounds that it is made of. -/
theorem faithful_of_run {result : Except TransferError Pace} {t : Outbound}
    (hp : p.source.Settles) (hmoved : p.pace.moved = 0)
    (hrun : ReflTransGen (Round settings) p q) (hends : Ends settings path q result t) :
    Faithful settings p p.source.pending (result.map Pace.moved) t := by
  obtain ⟨calls, hadvance⟩ := advance_of_run hrun hp
  obtain ⟨last, hlast, hprefix⟩ := hends.calls hadvance.settles
  -- the calls of the whole run, and what they took
  have hcalls : t.calls = last ++ (calls ++ p.stream.calls) := by rw [hlast, hadvance.made]
  have hsent : taken t.calls = taken p.stream.calls ++ (taken calls ++ taken last) := by
    rw [hcalls, taken_append, taken_append, List.append_assoc]
  refine ⟨⟨last ++ calls, by rw [hcalls, List.append_assoc]⟩, ?_, ?_, ?_, ?_, ?_⟩
  · intro c hs ht
    -- it is enough to look at the end, where a last round may have sent a part of its chunk
    refine prefix_of_calls hs ht hsent ?_
    rw [hadvance.moved]
    exact (List.prefix_append_right_inj _).mpr hprefix
  · intro n hn
    cases hends with
    | finished hfill =>
      -- the source had nothing more to bring, so the rounds brought all of it
      have hroom := chunkSize_pos settings q.ambient
      obtain ⟨hnil, -, hend⟩ := Inbound.pending_of_fill hadvance.settles hfill
      have hpending : q.source.pending = [] := by rw [hnil, hend hroom]; rfl
      have hdata : p.source.pending = taken calls := by
        rw [hadvance.moved, hpending, List.append_nil]
      have hcount : n = q.pace.moved := (Except.ok.inj hn).symm
      refine ⟨?_, ?_⟩
      · rw [wire_eq, wire_eq, hadvance.made, taken_append, hdata]
      · rw [hcount, hadvance.counted, hmoved, Nat.zero_add, hdata]
    | overflowed => cases hn
    | unread => cases hn
    | unflushed => cases hn
    | unwritten => cases hn
  · intro call n f he
    cases hends with
    | unwritten hfill hwrite =>
      -- the last call for the chunk is the last call of the send
      obtain ⟨new, -, hnew, -, -, herror⟩ := calls_of_writeChunk hwrite
      obtain ⟨c, earlier, g, hc, hg, hexhausted⟩ := herror _ rfl
      cases hexhausted
      cases he
      refine ⟨c, earlier ++ q.stream.calls, by rw [hnew, hc]; rfl, ?_, hg, rfl, by simp⟩
      rw [hadvance.made, ← List.append_assoc]
      exact List.suffix_append ..
    | overflowed => cases he
    | unread => cases he
    | unflushed => cases he
    | finished => cases he
  · intro path' f he
    cases hends with
    | unread hfill =>
      cases he
      exact ⟨q, _, _, hrun, hfill, rfl⟩
    | unwritten hfill hwrite =>
      -- a chunk is given up with an error of another kind
      obtain ⟨n, g, rfl⟩ := error_of_writeChunk hwrite
      cases he
    | overflowed => cases he
    | unflushed => cases he
    | finished => cases he
  · intro he
    cases hends with
    | overflowed hroom => exact ⟨q, hrun, hroom, rfl⟩
    | unwritten hfill hwrite =>
      obtain ⟨n, g, rfl⟩ := error_of_writeChunk hwrite
      cases he
    | unread => cases he
    | unflushed => cases he
    | finished => cases he

/-- How a send begins. -/
def Sending.begin (settings : Settings) (source : Inbound) (s : Outbound) (a : Ambient) : Sending :=
  ⟨.begin settings.baseRate.toNat a.register.clock, source, s, a.register⟩

/-- The chunks of any source are sent faithfully. -/
theorem sendChunks_faithful (settings : Settings) (path : Path) {source : Inbound}
    (s : Outbound) (a : Ambient) (hsource : source.Settles) :
    Faithful settings (.begin settings source s a) source.pending
      ((sendChunks settings path source s a.register).1.map Pace.moved)
      (sendChunks settings path source s a.register).2.2.1 := by
  obtain ⟨q, hrun, hends⟩ := sendRest_run settings path
    (.begin settings.baseRate.toNat a.register.clock) source s a.register
  exact faithful_of_run (p := .begin settings source s a) hsource rfl hrun hends

/-- What there is to read of the file at a path; nothing if it cannot be opened. -/
def fileSource (fs : Files) (path : Path) : Inbound :=
  match fs.stat path with
  | .ok (_, entry) => sourceOf entry
  | .error _ => .of []

/-- A file that is read to its end stays at its end. -/
theorem fileSource_settles (fs : Files) (path : Path) : (fileSource fs path).Settles := by
  refine Inbound.settles_of_not_mem ?_
  unfold fileSource sourceOf
  split
  · split <;> simp [Inbound.ofBytes, Inbound.of]
  · simp [Inbound.of]

/-- It brings what is in it, or nothing if it cannot be read. -/
theorem pending_fileSource (fs : Files) (path : Path) :
    (fileSource fs path).pending = (fs.read path).toOption.getD [] := by
  unfold fileSource Files.read
  cases fs.stat path with
  | error f => rfl
  | ok found =>
    obtain ⟨l, entry⟩ := found
    cases entry with
    | file => exact Inbound.pending_ofBytes _
    | folder => rfl
    | link => rfl

/-- **Sending loses, repeats and reorders nothing.** After every call the stream has taken a
first part of what the source holds. A send that succeeds has sent all of it and reports its
length. One that gives up makes no further call, and one whose source fails, or whose chunk is too
large to be held, leaves the stream as it was. -/
theorem send_faithful (settings : Settings) (s : Outbound) (a : Ambient) :
    (∀ source : Inbound, source.Settles →
      Faithful settings (.begin settings source s a) source.pending
        (sendReader settings source s a).1 (sendReader settings source s a).2.2.1) ∧
    ∀ (fs : Files) (path : Path),
      Faithful settings (.begin settings (fileSource fs path) s a)
        ((fs.read path).toOption.getD [])
        ((sendFile settings fs path s a).1.map Report.size)
        (sendFile settings fs path s a).2.1 := by
  refine ⟨fun source hsource => sendChunks_faithful settings _ s a hsource, fun fs path => ?_⟩
  have hsettles := fileSource_settles fs path
  rw [← pending_fileSource]
  unfold fileSource at hsettles ⊢
  unfold sendFile
  -- a file that is not found is not opened, and nothing is sent
  cases hstat : fs.stat path with
  | error f =>
    refine ⟨List.suffix_refl _, ?_, (fun _ h => nomatch h), (fun _ _ _ h => nomatch h),
      (fun _ _ h => nomatch h), (fun h => nomatch h)⟩
    intro calls hs ht
    exact prefix_of_calls hs ht (List.append_nil _).symm List.nil_prefix
  | ok found =>
    rw [hstat] at hsettles
    -- a file that is found is sent as its content, and only the result is put in a report
    have h := sendChunks_faithful settings path s a hsettles
    dsimp only at h ⊢
    cases hresult : (sendChunks settings path (sourceOf found.2) s a.register).1 with
    | ok pace => rw [hresult] at h; exact h
    | error e => rw [hresult] at h; exact h

/-- A source that is interrupted between two pieces and then finds its end again and again. -/
def haltingSource : Inbound :=
  .of [.data [1, 2, 3], .fault (.bare .interrupted), .aside (.join 1), .data [4, 5], .pause, .pause]

/-- A stream that takes little or nothing at first. -/
def haltingStream : Outbound :=
  ⟨[.take 1, .fault (.bare .interrupted), .take 0, .aside (.leave 1), .fault (.bare .timedOut)],
    none, []⟩

/-- This source has faults in it, but no end before its end. -/
theorem haltingSource_settles : haltingSource.Settles := by
  intro after hafter
  simp only [haltingSource, Inbound.of, List.suffix_cons_iff, List.cons.injEq, reduceCtorEq,
    List.suffix_nil, false_and, true_and, false_or, or_false] at hafter
  rcases hafter with rfl | rfl
  · rfl
  · rfl

/-- Such a source is sent on a stream that halts, and what is on the wire is the first part of it.
-/
theorem send_faithful_halting :
    haltingSource.Settles ∧
      Faithful { baseRate := 2 } (.begin { baseRate := 2 } haltingSource haltingStream default)
        [1, 2, 3, 4, 5] (sendReader { baseRate := 2 } haltingSource haltingStream default).1
        (sendReader { baseRate := 2 } haltingSource haltingStream default).2.2.1 :=
  ⟨haltingSource_settles,
    (send_faithful { baseRate := 2 } haltingStream default).1 haltingSource haltingSource_settles⟩

end Courier.Transfer
