import Mathlib.Algebra.Order.Floor.Div
import Courier.Proofs.Header
import Courier.Proofs.Send
import Courier.Proofs.Surroundings

/-!
# The chunks of a send

A send whose share does not change cuts what it sends at the multiples of that share. The
pieces in which the source comes, and the interruptions between them, do not show: a chunk is
filled up before it is written. With more transfers the share gets smaller, and the same octets
take at least as many chunks.

Main results:

* `Inbound.fill_of_interruptions` — a filling that is only interrupted brings all that there is
  room for.
* `Transfer.sendRest_in_chunks` — by induction on the rounds, the chunks are the cut content.
* `Transfer.Alone.constant` — the count stays where nobody else comes or goes.
* `Transfer.send_in_chunks` — a send at a constant count.
-/

namespace Courier

open Relation

/-! ## Cutting -/

/-- `data` cut at the multiples of `size`. -/
def cut (size : Nat) (data : Bytes) : List Bytes :=
  (List.range ((data.length + size - 1) / size)).map fun i => (data.drop (i * size)).take size

section Cut

variable {size : Nat} {data : Bytes}

/-- Nothing is cut into no pieces. -/
@[simp]
theorem cut_nil (size : Nat) : cut size [] = [] := by
  have hnone : size = 0 ∨ size - 1 < size := by omega
  simpa [cut] using hnone

/-- There are as many pieces as it takes to hold all of the data. -/
@[simp]
theorem length_cut (size : Nat) (data : Bytes) :
    (cut size data).length = (data.length + size - 1) / size := by
  simp [cut]

/-- The first piece, and the others cut from what follows it. -/
theorem cut_eq_cons (hsize : 0 < size) (hne : data ≠ []) :
    cut size data = data.take size :: cut size (data.drop size) := by
  have hlength := List.length_pos_iff.mpr hne
  have hnumber : (data.length + size - 1) / size =
      ((data.drop size).length + size - 1) / size + 1 := by
    rw [← Nat.add_div_right _ hsize, List.length_drop]
    rcases Nat.le_total size data.length with hle | hle
    · congr 1
      omega
    · -- a single piece
      rw [Nat.sub_eq_zero_of_le hle, Nat.zero_add, Nat.div_eq_of_lt_le (k := 1) (by omega)
        (by omega), Nat.div_eq_of_lt_le (k := 1) (by omega) (by omega)]
  unfold cut
  rw [hnumber, List.range_succ_eq_map, List.map_cons, List.map_map, Nat.zero_mul, List.drop_zero]
  congr 1
  -- the piece `i + 1` of the data is the piece `i` of what follows the first one
  refine List.map_congr_left fun i _ => ?_
  simp only [Function.comp_apply]
  rw [List.drop_drop, Nat.succ_mul, Nat.add_comm]

/-- Cutting goes on with what follows the first piece. -/
theorem cut_induction {motive : Bytes → Prop} (hsize : 0 < size) (nil : motive [])
    (cons : ∀ data, data ≠ [] → motive (data.drop size) → motive data) (data : Bytes) :
    motive data := by
  induction hlength : data.length using Nat.strongRecOn generalizing data with
  | ind n ih =>
    by_cases hne : data = []
    · exact hne ▸ nil
    · have hpos := List.length_pos_iff.mpr hne
      have hless : (data.drop size).length < n := by
        rw [List.length_drop]
        omega
      exact cons data hne (ih _ hless _ rfl)

/-- Put together again, the pieces are what was cut. -/
theorem flatten_cut (hsize : 0 < size) (data : Bytes) : (cut size data).flatten = data := by
  induction data using cut_induction hsize with
  | nil => simp
  | cons data hne ih => rw [cut_eq_cons hsize hne, List.flatten_cons, ih, List.take_append_drop]

/-- No piece is empty or too long. -/
theorem length_of_mem_cut (hsize : 0 < size) (data : Bytes) :
    ∀ piece ∈ cut size data, 0 < piece.length ∧ piece.length ≤ size := by
  induction data using cut_induction hsize with
  | nil => simp
  | cons data hne ih =>
    rw [cut_eq_cons hsize hne]
    have hlength := List.length_pos_iff.mpr hne
    refine List.forall_mem_cons.mpr ⟨?_, ih⟩
    rw [List.length_take]
    omega

/-- Only the last piece may be short. -/
theorem length_of_mem_dropLast_cut (hsize : 0 < size) (data : Bytes) :
    ∀ piece ∈ (cut size data).dropLast, piece.length = size := by
  induction data using cut_induction hsize with
  | nil => simp
  | cons data hne ih =>
    rw [cut_eq_cons hsize hne]
    by_cases hlast : data.drop size = []
    · simp [hlast]
    · -- what follows the first piece begins after a whole one
      have hmore : size < data.length := by simpa using hlast
      have hrest : cut size (data.drop size) ≠ [] := by
        rw [cut_eq_cons hsize hlast]
        exact List.cons_ne_nil _ _
      rw [List.dropLast_cons_of_ne_nil hrest]
      refine List.forall_mem_cons.mpr ⟨?_, ih⟩
      rw [List.length_take]
      omega

/-- Smaller pieces are not fewer. -/
theorem length_cut_le {small large : Nat} (hsmall : 0 < small) (hle : small ≤ large)
    (data : Bytes) : (cut large data).length ≤ (cut small data).length := by
  -- both numbers of pieces are rounded up, so they are compared as such
  have hlarge := Nat.lt_of_lt_of_le hsmall hle
  rw [length_cut, length_cut, ← Nat.ceilDiv_eq_add_pred_div, ← Nat.ceilDiv_eq_add_pred_div,
    ceilDiv_le_iff_le_mul hlarge]
  -- as many small pieces hold all of it, and large ones hold more
  calc data.length ≤ small * (data.length ⌈/⌉ small) := (ceilDiv_le_iff_le_mul hsmall).mp le_rfl
    _ ≤ large * (data.length ⌈/⌉ small) := Nat.mul_le_mul_right _ hle

end Cut

/-! ## Fillings that are only interrupted -/

namespace Inbound

/-- Nothing comes in between but interruptions. -/
def OnlyInterrupted (l : List Arrival) : Prop :=
  ∀ f, .fault f ∈ l → f.isInterruption = true

variable {s t : Inbound} {room : Nat} {a b : Ambient}

/-- A stream that only interrupts does so after any call. -/
theorem OnlyInterrupted.read {r : Except Fault Bytes} (h : OnlyInterrupted s.arrivals)
    (hread : s.read room a = (r, t, b)) : OnlyInterrupted t.arrivals :=
  fun f hf => h f (leaves_of_read hread _ hf (by simp))

/-- A filling that is only interrupted does not fail. -/
theorem OnlyInterrupted.fill {r : Except Fault Bytes} (h : OnlyInterrupted s.arrivals)
    (hfill : s.fill room a = (r, t, b)) :
    (∃ octets, r = .ok octets) ∧ OnlyInterrupted t.arrivals := by
  -- by the recursion of the filling; only a fault that is no interruption would end it, and there
  -- is none
  fun_induction Inbound.fill s room a generalizing r t b with
  | case1 s room a hroom u c hread =>
    cases hfill
    exact ⟨⟨_, rfl⟩, h.read hread⟩
  | case2 s room a hroom o first u c hread more v d hmore ih =>
    cases hfill
    exact ⟨⟨_, rfl⟩, (ih (h.read hread) hmore).2⟩
  | case3 s room a hroom o first u c hread f v d hmore ih =>
    obtain ⟨⟨octets, hoctets⟩, -⟩ := ih (h.read hread) hmore
    cases hoctets
  | case4 s room a hroom f u c hread hf ih => exact ih (h.read hread) hfill
  | case5 s room a hroom f u c hread hf => exact absurd (h f (fault_of_read hread)) hf
  | case6 s room a hroom =>
    cases hfill
    exact ⟨⟨_, rfl⟩, h⟩

/-- It brings all that there is room for, however it comes in. -/
theorem fill_of_interruptions (hs : s.Settles) (h : OnlyInterrupted s.arrivals) (room : Nat)
    (a : Ambient) :
    ∃ t b, s.fill room a = (.ok (s.pending.take room), t, b) ∧
      t.pending = s.pending.drop room ∧ t.Settles ∧ OnlyInterrupted t.arrivals := by
  obtain ⟨r, t, b, hfill⟩ : ∃ r t b, s.fill room a = (r, t, b) := ⟨_, _, _, rfl⟩
  obtain ⟨⟨octets, rfl⟩, ht⟩ := h.fill hfill
  obtain ⟨hpending, hsettles, hshort⟩ := pending_of_fill hs hfill
  have hlength := length_fill_le hfill
  -- a filling that leaves room has brought all there is
  have hsplit : s.pending.take room = octets ∧ s.pending.drop room = t.pending := by
    rcases Nat.lt_or_eq_of_le hlength with hlt | heq
    · rw [hpending, hshort hlt, List.append_nil]
      exact ⟨List.take_of_length_le hlength, List.drop_of_length_le hlength⟩
    · rw [hpending, ← heq]
      exact ⟨List.take_left, List.drop_left⟩
  exact ⟨t, b, by rw [hsplit.1, hfill], hsplit.2.symm, hsettles, ht⟩

end Inbound

/-! ## Chunks that are taken whole -/

namespace Outbound

/-- A call to write so many octets is let pass, and takes them all. -/
def Uptake.Takes (n : Nat) : Uptake → Prop
  | .take m => n ≤ m
  | .fault _ => False
  | .aside _ => True

/-- The call that writes a chunk whole. -/
def whole (chunk : Bytes) : WriteCall :=
  ⟨chunk, .ok chunk.length⟩

/-- The calls that were made between `s` and `t`, in order. -/
def since (s t : Outbound) : List WriteCall :=
  (t.calls.take (t.calls.length - s.calls.length)).reverse

/-- The calls in between are those that came on top. -/
theorem since_eq {s t : Outbound} {later : List WriteCall}
    (h : t.calls = later.reverse ++ s.calls) : since s t = later := by
  unfold since
  rw [h, List.length_append, Nat.add_sub_cancel, List.take_left, List.reverse_reverse]

variable {n : Nat} {s : Outbound}

/-- Such a stream takes what it is offered whole. -/
theorem accept_of_takes {l : List Uptake} {offered : Nat} (hl : ∀ u ∈ l, Uptake.Takes n u)
    (hoffered : offered ≤ n) (a : Ambient) :
    ∃ l' b, accept offered l a = (.ok offered, l', b) ∧ l' <:+ l := by
  -- by the recursion of the call: time may pass, and then an uptake takes it all
  fun_induction accept offered l a with
  | case1 a => exact ⟨[], a, rfl, List.suffix_refl _⟩
  | case2 a r rest ih =>
    obtain ⟨l', b, haccept, hsuffix⟩ := ih fun u hu => hl u (List.mem_cons_of_mem _ hu)
    exact ⟨l', b, haccept, hsuffix.trans (List.suffix_cons ..)⟩
  | case3 f rest a => exact (hl _ (List.mem_cons_self ..)).elim
  | case4 m rest a =>
    have hm : n ≤ m := hl _ (List.mem_cons_self ..)
    refine ⟨rest, a, ?_, List.suffix_cons ..⟩
    rw [Nat.min_eq_right (Nat.le_trans hoffered hm)]

end Outbound

namespace Transfer

open Outbound Inbound

/-- A chunk that is taken whole takes one call. -/
theorem writeChunk_of_takes (settings : Settings) (failures : Nat) {n : Nat} {s : Outbound}
    {chunk : Bytes} (hs : ∀ u ∈ s.uptakes, Uptake.Takes n u) (hne : chunk ≠ [])
    (hchunk : chunk.length ≤ n) (a : Ambient) :
    ∃ t b, writeChunk settings failures s chunk a = (.ok (), t, b) ∧
      t.calls = whole chunk :: s.calls ∧ t.flushFault = s.flushFault ∧ t.uptakes <:+ s.uptakes := by
  obtain ⟨l, b, haccept, hsuffix⟩ := accept_of_takes hs hchunk a
  have hwrite : s.write chunk a =
      (.ok chunk.length, { s with uptakes := l, calls := whole chunk :: s.calls }, b) := by
    rw [Outbound.write, haccept]
    rfl
  refine ⟨{ s with uptakes := l, calls := whole chunk :: s.calls }, b, ?_, rfl, rfl, hsuffix⟩
  rw [writeChunk, dif_neg hne]
  -- nothing of the chunk is left to be written
  obtain ⟨o, rest, rfl⟩ := List.exists_cons_of_ne_nil hne
  simp only [hwrite, writeFault?, List.length_cons, remaining]
  rw [writeChunk, dif_pos (by simp)]

/-! ## The count -/

/-- What the counter of transfers shows is `count` whenever a send from `p` on looks at it. -/
def Constant (settings : Settings) (count : Nat) (p : Sending) : Prop :=
  ∀ q, ReflTransGen (Round settings) p q → q.ambient.active = count

/-- Nobody else comes or goes while a send goes on from `p`; only time passes. -/
structure Alone (p : Sending) : Prop where
  reading : ∀ r, Inbound.Ripples p.source.arrivals r → ∃ nanos, r = .tick nanos
  writing : ∀ r, Outbound.Ripples p.stream.uptakes r → ∃ nanos, r = .tick nanos

/-- One round leaves a send alone, and the count as it was. -/
theorem Alone.round {settings : Settings} {p q : Sending} (h : Alone p)
    (hround : Round settings p q) : Alone q ∧ q.ambient.active = p.ambient.active := by
  obtain ⟨hreading, hwriting⟩ := h
  cases hround with
  | chunk hroom hfill hne hwrite =>
    obtain ⟨hfilled, hleaves⟩ := Inbound.passes_of_fill hfill
    obtain ⟨hwritten, hsuffix⟩ := passes_of_writeChunk hwrite
    refine ⟨⟨fun r hr => hreading r (hleaves _ hr (by simp)),
      fun r hr => hwriting r (hsuffix.subset hr)⟩, ?_⟩
    rw [Ambient.active_setClock, hwritten.active_eq hwriting, hfilled.active_eq hreading]

/-- **Where nobody else comes or goes the count stays**, for all rounds of a send. -/
theorem Alone.constant {settings : Settings} {p : Sending} (h : Alone p) :
    Constant settings p.ambient.active p := by
  intro q hrun
  -- by induction on the rounds, with what is left alone kept along
  suffices hq : Alone q ∧ q.ambient.active = p.ambient.active from hq.2
  induction hrun with
  | refl => exact ⟨h, rfl⟩
  | tail _ hround ih =>
    obtain ⟨halone, hactive⟩ := ih
    obtain ⟨hnext, hsame⟩ := halone.round hround
    exact ⟨hnext, hsame.trans hactive⟩

/-! ## Shares -/

/-- The share of one of `count` transfers. -/
def share (settings : Settings) (count : Nat) : Nat :=
  max 1 (settings.baseRate.toNat / count)

/-- A share is never nothing. -/
theorem share_pos (settings : Settings) (count : Nat) : 0 < share settings count :=
  Nat.le_max_left ..

/-- All shares together are no more than the rate, or one octet for each transfer. -/
theorem mul_share_le (settings : Settings) (count : Nat) :
    count * share settings count ≤ max settings.baseRate.toNat count := by
  have hmul := Nat.mul_div_le settings.baseRate.toNat count
  -- a share of at least one octet is the quotient, otherwise it is one octet
  rcases Nat.le_total 1 (settings.baseRate.toNat / count) with h | h
  · rw [share, Nat.max_eq_right h]
    exact Nat.le_trans hmul (Nat.le_max_left ..)
  · rw [share, Nat.max_eq_left h, Nat.mul_one]
    exact Nat.le_max_right ..

/-- With more transfers the share of each of them is no larger. -/
theorem share_anti (settings : Settings) {few many : Nat} (hfew : 0 < few) (hle : few ≤ many) :
    share settings many ≤ share settings few :=
  max_le_max_left 1 (Nat.div_le_div_left hle hfew)

/-- A transfer's chunk is its share, while the count is one that the program can hold. -/
theorem chunkSize_eq_share (settings : Settings) {count : Nat} {a : Ambient}
    (hactive : a.active = count) (hpos : 0 < count) (hcount : count < UInt64.size / 2) :
    chunkSize settings a = share settings count := by
  have hsize : UInt64.size = 18446744073709551616 := rfl
  have hmin : min (a.active : Int) (UInt64.size / 2 - 1) = count := by omega
  unfold chunkSize fairChunkSize share
  rw [hmin, if_neg (by omega), Int.toNat_natCast]

/-- **The chunks of what is left to send** are cut from it at the multiples of the share. -/
theorem sendRest_in_chunks {settings : Settings} {count : Nat} {pace : Pace} {source : Inbound}
    {s : Outbound} {a : Ambient} (path : Path) (hsource : source.Settles)
    (hinterrupted : OnlyInterrupted source.arrivals)
    (htakes : ∀ u ∈ s.uptakes, Uptake.Takes (share settings count) u) (hpos : 0 < count)
    (hcount : count < UInt64.size / 2) (hheld : share settings count ≤ maxBuffer)
    (hconstant : Constant settings count ⟨pace, source, s, a⟩) :
    (sendRest settings path pace source s a).2.2.1.calls =
        ((cut (share settings count) source.pending).map whole).reverse ++ s.calls ∧
      (sendRest settings path pace source s a).1.map Pace.moved =
        (s.flush.mapError (.transport .flushStream)).map fun () =>
          pace.moved + source.pending.length := by
  have hshare := share_pos settings count
  -- what the next filling brings, and leaves
  have hnext {pace : Pace} {source u : Inbound} {s : Outbound} {a b : Ambient}
      {r : Except TransferError Bytes} (hsource : source.Settles)
      (hinterrupted : OnlyInterrupted source.arrivals)
      (hconstant : Constant settings count ⟨pace, source, s, a⟩)
      (hfill : fillChunk settings path source a = (r, u, b)) :
      r = .ok (source.pending.take (share settings count)) ∧
        u.pending = source.pending.drop (share settings count) ∧ u.Settles ∧
        OnlyInterrupted u.arrivals := by
    obtain ⟨u', b', hfill', hpending, hu⟩ :=
      fill_of_interruptions hsource hinterrupted (chunkSize settings a) a
    have hsize := chunkSize_eq_share settings (hconstant _ .refl) hpos hcount
    dsimp only at hsize
    rw [fillChunk_of_le (hsize.symm ▸ hheld), hfill'] at hfill
    cases hfill
    exact ⟨by rw [hsize], by rw [hpending, hsize], hu⟩
  have hend {data : Bytes} (h : data.take (share settings count) = []) : data = [] :=
    (List.take_eq_nil_iff.mp h).resolve_left (Nat.ne_of_gt hshare)
  -- by the rounds of the send: the source is at its end, or a chunk is filled, written and cut off
  -- the front
  fun_induction sendRest settings path pace source s a with
  | case1 pace source s a f u b hfill =>
    obtain ⟨hr, -⟩ := hnext hsource hinterrupted hconstant hfill
    cases hr
  | case2 pace source s a u b hfill f hflush =>
    obtain ⟨hr, -⟩ := hnext hsource hinterrupted hconstant hfill
    have hnil : source.pending = [] := hend (Except.ok.inj hr).symm
    rw [hnil, hflush]
    exact ⟨by simp, rfl⟩
  | case3 pace source s a u b hfill hflush =>
    obtain ⟨hr, -⟩ := hnext hsource hinterrupted hconstant hfill
    have hnil : source.pending = [] := hend (Except.ok.inj hr).symm
    rw [hnil, hflush]
    exact ⟨by simp, rfl⟩
  | case4 pace source s a o octets u b hfill e v c hwrite =>
    obtain ⟨hr, -⟩ := hnext hsource hinterrupted hconstant hfill
    have hlength : (o :: octets).length ≤ share settings count := by
      rw [Except.ok.inj hr]
      exact List.length_take_le ..
    obtain ⟨_, _, hwhole, -⟩ := writeChunk_of_takes settings 0 htakes (by simp) hlength b
    cases hwrite.symm.trans hwhole
  | case5 pace source s a o octets u b hfill v c hwrite pace' clock hrecord ih =>
    obtain ⟨hr, hpending, hsettles, hu⟩ := hnext hsource hinterrupted hconstant hfill
    have hchunk : o :: octets = source.pending.take (share settings count) := Except.ok.inj hr
    have hlength : (o :: octets).length ≤ share settings count := by
      rw [hchunk]
      exact List.length_take_le ..
    have hne : source.pending ≠ [] := by
      intro hnil
      rw [hnil, List.take_nil] at hchunk
      cases hchunk
    obtain ⟨_, _, hwhole, hcalls, hflush, hsuffix⟩ :=
      writeChunk_of_takes settings 0 htakes (by simp) hlength b
    cases hwrite.symm.trans hwhole
    -- the send goes on from where this round led
    obtain ⟨hroom, hfilled⟩ := fill_of_fillChunk hfill
    have hround := Round.chunk (p := ⟨pace, source, s, a⟩) hroom hfilled (by simp) hwrite
    rw [show pace.record _ c.clock = _ from hrecord] at hround
    obtain ⟨hrest, hresult⟩ := ih hsettles hu (fun x hx => htakes x (hsuffix.subset hx))
      fun q hq => hconstant q (.head hround hq)
    -- this chunk is the first piece of the cut, and its octets are the first of the total
    refine ⟨?_, ?_⟩
    · rw [hrest, hpending, hcalls, cut_eq_cons hshare hne, ← hchunk, List.map_cons,
        List.reverse_cons, List.append_assoc]
      rfl
    · have hmoved : pace'.moved = pace.moved + (o :: octets).length :=
        congrArg (fun x => x.1.moved) hrecord.symm
      have htotal : (o :: octets).length + u.pending.length = source.pending.length := by
        rw [hchunk, hpending, ← List.length_append, List.take_append_drop]
      rw [hresult, hmoved, Nat.add_assoc, htotal, Outbound.flush, Outbound.flush, hflush]

/-- A send whose first chunk is too large to be held sends nothing. -/
theorem sendRest_of_lt {settings : Settings} {a : Ambient} (h : maxBuffer < chunkSize settings a)
    (path : Path) (pace : Pace) (source : Inbound) (s : Outbound) :
    sendRest settings path pace source s a = (.error .panicked, source, s, a) := by
  have hfill := fillChunk_of_lt h path source
  rw [sendRest]
  split
  · rename_i h
    cases hfill.symm.trans h
    rfl
  · rename_i h
    cases hfill.symm.trans h
  · rename_i h
    cases hfill.symm.trans h

/-! ## A whole send -/

/-- The ways to send `data` on `s`: its source, its result, and the stream as it is left. -/
inductive Conveys (settings : Settings) (data : Bytes) (s : Outbound) (a : Ambient) :
    Inbound → Except TransferError Nat → Outbound → Prop where
  | reader {source : Inbound} (hdata : source.pending = data) :
      Conveys settings data s a source (sendReader settings source s a).1
        (sendReader settings source s a).2.2.1
  | file {fs : Files} {path : Path} (hread : fs.read path = .ok data) :
      Conveys settings data s a (fileSource fs path)
        ((sendFile settings fs path s a).1.map Report.size) (sendFile settings fs path s a).2.1

/-- What a send meets with when nobody disturbs it: a source that is only interrupted and then
stays at its end, a stream that takes every chunk whole, and a constant count of transfers. -/
structure Undisturbed (settings : Settings) (count : Nat) (source : Inbound) (s : Outbound)
    (a : Ambient) : Prop where
  settles : source.Settles
  interrupted : OnlyInterrupted source.arrivals
  takes : ∀ u ∈ s.uptakes, Uptake.Takes (share settings count) u
  constant : Constant settings count (.begin settings source s a)
  count_lt : count < UInt64.size / 2

variable {settings : Settings} {data : Bytes} {count : Nat} {source : Inbound} {s t : Outbound}
  {a : Ambient} {result : Except TransferError Nat}

/-- A send counts itself. -/
theorem Undisturbed.count_pos (h : Undisturbed settings count source s a) : 0 < count := by
  have hactive : a.register.active = count := h.constant _ .refl
  rw [← hactive]
  exact Nat.succ_pos _

/-- Octets that are at hand, and a stream that takes everything. -/
theorem undisturbed_ofBytes (settings : Settings) (data : Bytes)
    (hcount : a.register.active < UInt64.size / 2) :
    Undisturbed settings a.register.active (.ofBytes data) .willing a where
  settles := Inbound.settles_of_not_mem (by simp [Inbound.ofBytes, Inbound.of])
  interrupted := by simp [OnlyInterrupted, Inbound.ofBytes, Inbound.of]
  takes := by simp [Outbound.willing]
  constant := Alone.constant
    ⟨by simp [Inbound.Ripples, Sending.begin, Inbound.ofBytes, Inbound.of],
      by simp [Outbound.Ripples, Sending.begin, Outbound.willing]⟩
  count_lt := hcount

/-- A send whose chunks can be held writes what it sends, cut at the multiples of its share. -/
theorem Conveys.in_chunks (hconveys : Conveys settings data s a source result t)
    (h : Undisturbed settings count source s a) (hheld : share settings count ≤ maxBuffer) :
    since s t = (cut (share settings count) data).map whole ∧
      result = (s.flush.mapError (.transport .flushStream)).map fun () => data.length := by
  obtain ⟨hsettles, hinterrupted, htakes, hconstant, hcount⟩ := h
  have hpos := Undisturbed.count_pos ⟨hsettles, hinterrupted, htakes, hconstant, hcount⟩
  cases hconveys with
  | reader hdata =>
    obtain ⟨hcalls, hresult⟩ := sendRest_in_chunks (.of "<reader>") hsettles hinterrupted htakes
      hpos hcount hheld hconstant
    refine ⟨since_eq ?_, ?_⟩
    · rw [← hdata]
      exact hcalls
    · rw [← hdata, ← Nat.zero_add source.pending.length]
      exact hresult
  | @file fs path hread =>
    obtain ⟨hcalls, hresult⟩ := sendRest_in_chunks path hsettles hinterrupted htakes hpos hcount
      hheld hconstant
    have hdata : (fileSource fs path).pending = data := by
      rw [pending_fileSource, hread]
      rfl
    rw [hdata] at hcalls hresult
    unfold fileSource at hcalls hresult
    unfold sendFile
    unfold Files.read at hread
    cases hstat : fs.stat path with
    | error f =>
      rw [hstat] at hread
      cases hread
    | ok found =>
      -- a file that is found is sent as its content, and only the result is put in a report
      rw [hstat] at hcalls hresult
      refine ⟨since_eq hcalls, ?_⟩
      dsimp only [sendChunks] at hresult ⊢
      rw [← Nat.zero_add data.length]
      refine Eq.trans ?_ hresult
      cases (sendRest settings path (Pace.begin settings.baseRate.toNat a.register.clock)
        (sourceOf found.2) s a.register).1 with
      | ok pace => rfl
      | error e => rfl

/-- A send whose chunks cannot be held panics, and writes nothing. -/
theorem Conveys.overflows (hconveys : Conveys settings data s a source result t)
    (h : Undisturbed settings count source s a) (hlarge : maxBuffer < share settings count) :
    since s t = [] ∧ result = .error .panicked := by
  have hsize : maxBuffer < chunkSize settings a.register := by
    have hactive : a.register.active = count := h.constant _ .refl
    rw [chunkSize_eq_share settings hactive h.count_pos h.count_lt]
    exact hlarge
  -- the first filling asks for a whole chunk, whichever way the data comes in
  cases hconveys with
  | reader hdata =>
    have hpanic : sendReader settings source s a =
        (.error .panicked, source, s, a.register.deregister) := by
      unfold sendReader sendChunks
      rw [sendRest_of_lt hsize]
      rfl
    rw [hpanic]
    exact ⟨since_eq rfl, rfl⟩
  | @file fs path hread =>
    unfold Files.read at hread
    cases hstat : fs.stat path with
    | error f =>
      rw [hstat] at hread
      cases hread
    | ok found =>
      have hpanic : sendFile settings fs path s a =
          (.error .panicked, s, a.register.deregister) := by
        unfold sendFile sendChunks
        rw [hstat]
        dsimp only
        rw [sendRest_of_lt hsize]
        rfl
      rw [hpanic]
      exact ⟨since_eq rfl, rfl⟩

/-- What the calls of a send come to: `data` cut at the multiples of `size`. -/
structure InChunks (size : Nat) (data : Bytes) (calls : List WriteCall) : Prop where
  pieces : calls = (cut size data).map whole
  number : calls.length = (data.length + size - 1) / size
  sizes : ∀ c ∈ calls, 0 < c.offered.length ∧ c.offered.length ≤ size
  full : ∀ c ∈ calls.dropLast, c.offered.length = size
  content : (calls.map WriteCall.offered).flatten = data

/-- The calls that write the pieces of a cut are in chunks of that size. -/
theorem inChunks_cut {size : Nat} (hsize : 0 < size) (data : Bytes) :
    InChunks size data ((cut size data).map whole) where
  pieces := rfl
  number := by simp
  sizes := by
    intro c hc
    obtain ⟨piece, hpiece, rfl⟩ := List.mem_map.mp hc
    exact length_of_mem_cut hsize data piece hpiece
  full := by
    rw [← List.map_dropLast]
    intro c hc
    obtain ⟨piece, hpiece, rfl⟩ := List.mem_map.mp hc
    exact length_of_mem_dropLast_cut hsize data piece hpiece
  content := by
    rw [List.map_map]
    exact (congrArg List.flatten (List.map_id _)).trans (flatten_cut hsize data)

/-- **A send at a constant count of transfers.** If chunks of its share can be held, its calls write
what it sends, cut at the multiples of that share, however it comes in; if they cannot, the send
panics before its first call. All shares together stay within the budget. A send of the same octets
at the same count makes the same calls, and one at a higher count no fewer. -/
theorem send_in_chunks (hconveys : Conveys settings data s a source result t)
    (h : Undisturbed settings count source s a) :
    (share settings count ≤ maxBuffer → InChunks (share settings count) data (since s t) ∧
      result = (s.flush.mapError (.transport .flushStream)).map (fun () => data.length)) ∧
      (maxBuffer < share settings count → since s t = [] ∧ result = .error .panicked) ∧
      count * share settings count ≤ max settings.baseRate.toNat count ∧
      ∀ (count' : Nat) (source' : Inbound) (s' t' : Outbound) (a' : Ambient)
        (result' : Except TransferError Nat), Conveys settings data s' a' source' result' t' →
        Undisturbed settings count' source' s' a' →
          (count' = count → since s' t' = since s t) ∧
          (count ≤ count' → (since s t).length ≤ (since s' t').length) := by
  refine ⟨fun hheld => ?_, fun hlarge => hconveys.overflows h hlarge, mul_share_le .., ?_⟩
  · obtain ⟨hcalls, hresult⟩ := hconveys.in_chunks h hheld
    refine ⟨?_, hresult⟩
    rw [hcalls]
    exact inChunks_cut (share_pos ..) data
  · intro count' source' s' t' a' result' hconveys' h'
    rcases Nat.lt_or_ge maxBuffer (share settings count) with hlarge | hheld
    · -- a send that panics makes no calls, and at the same count it panics again
      rw [(hconveys.overflows h hlarge).1]
      refine ⟨fun hcount => ?_, fun _ => Nat.zero_le _⟩
      exact (hconveys'.overflows h' (hcount.symm ▸ hlarge)).1
    · obtain ⟨hcalls, -⟩ := hconveys.in_chunks h hheld
      -- the calls are determined by the data and the share, and a higher count has a smaller share
      refine ⟨fun hcount => ?_, fun hle => ?_⟩
      · obtain ⟨hcalls', -⟩ := hconveys'.in_chunks h' (hcount.symm ▸ hheld)
        rw [hcalls, hcalls', hcount]
      · have hanti := share_anti settings h.count_pos hle
        obtain ⟨hcalls', -⟩ := hconveys'.in_chunks h' (Nat.le_trans hanti hheld)
        rw [hcalls, hcalls', List.length_map, List.length_map]
        exact length_cut_le (share_pos ..) hanti data

/-- Five octets in two pieces, with an interruption and a pause of time between them. -/
def piecemealSource : Inbound :=
  .of [.data [1, 2, 3, 4], .fault (.bare .interrupted), .aside (.tick 5), .data [5], .pause]

/-- A stream that takes at least three octets in each call. -/
def roomyStream : Outbound :=
  ⟨[.take 3, .aside (.tick 1), .take 9], none, []⟩

/-- So many transfers run elsewhere. -/
def beside (others : Nat) : Ambient :=
  { (default : Ambient) with others }

/-- This source is interrupted, and the stream takes more than it is offered at first. -/
theorem undisturbed_piecemeal :
    Undisturbed { baseRate := 7 } 2 piecemealSource roomyStream (beside 1) where
  settles := by
    intro after hafter
    simp only [piecemealSource, Inbound.of, List.suffix_cons_iff, List.cons.injEq, reduceCtorEq,
      List.suffix_nil, false_and, true_and, false_or, or_false] at hafter
    rw [hafter]
    rfl
  interrupted := by
    intro f hf
    have heq : f = .bare .interrupted := by simpa [piecemealSource, Inbound.of] using hf
    rw [heq]
    rfl
  takes := by simp [roomyStream, Uptake.Takes, share]
  -- the ripples are ticks, so the count stays as it was
  constant := by
    refine Alone.constant ⟨fun r hr => ⟨5, ?_⟩, fun r hr => ⟨1, ?_⟩⟩
    · simpa [Inbound.Ripples, Sending.begin, piecemealSource, Inbound.of] using hr
    · simpa [Outbound.Ripples, Sending.begin, roomyStream] using hr
  count_lt := by decide

/-- Five octets that come piece by piece leave in chunks of three, the share of one of two
transfers; one of four needs as many calls or more. -/
theorem send_in_chunks_piecemeal :
    InChunks 3 [1, 2, 3, 4, 5]
        (since roomyStream
          (sendReader { baseRate := 7 } piecemealSource roomyStream (beside 1)).2.2.1) ∧
      (since roomyStream
          (sendReader { baseRate := 7 } piecemealSource roomyStream (beside 1)).2.2.1).length ≤
        (since willing (sendReader { baseRate := 7 } (.ofBytes [1, 2, 3, 4, 5]) willing
          (beside 3)).2.2.1).length := by
  have hpieces : piecemealSource.pending = [1, 2, 3, 4, 5] := rfl
  have hwhole : (ofBytes [1, 2, 3, 4, 5]).pending = [1, 2, 3, 4, 5] := rfl
  obtain ⟨hchunks, -, -, hothers⟩ := send_in_chunks (.reader hpieces) undisturbed_piecemeal
  have hheld : share { baseRate := 7 } 2 ≤ maxBuffer := by decide
  -- with four transfers the share is a single octet
  have hcount : (beside 3).register.active < UInt64.size / 2 := by decide
  have hcrowded : Undisturbed { baseRate := 7 } 4 (ofBytes [1, 2, 3, 4, 5]) willing (beside 3) :=
    undisturbed_ofBytes _ _ hcount
  obtain ⟨-, hmore⟩ := hothers 4 _ _ _ _ _ (.reader hwhole) hcrowded
  exact ⟨(hchunks hheld).1, hmore (by decide)⟩

/-- At a rate of so many octets a second a send makes no calls at all. -/
theorem send_not_in_chunks :
    Undisturbed { baseRate := 9223372036854775808 } 1 (ofBytes [1]) willing (beside 0) ∧
      Conveys { baseRate := 9223372036854775808 } [1] willing (beside 0) (ofBytes [1])
        (sendReader { baseRate := 9223372036854775808 } (ofBytes [1]) willing (beside 0)).1
        (sendReader { baseRate := 9223372036854775808 } (ofBytes [1]) willing (beside 0)).2.2.1 ∧
      ¬ InChunks (share { baseRate := 9223372036854775808 } 1) [1] (since willing (sendReader
        { baseRate := 9223372036854775808 } (ofBytes [1]) willing (beside 0)).2.2.1) := by
  have hcount : (beside 0).register.active < UInt64.size / 2 := by decide
  have halone : Undisturbed { baseRate := 9223372036854775808 } 1 (ofBytes [1]) willing
      (beside 0) := undisturbed_ofBytes _ _ hcount
  have hconveys : Conveys { baseRate := 9223372036854775808 } [1] willing (beside 0) (ofBytes [1])
      (sendReader { baseRate := 9223372036854775808 } (ofBytes [1]) willing (beside 0)).1
      (sendReader { baseRate := 9223372036854775808 } (ofBytes [1]) willing (beside 0)).2.2.1 :=
    .reader rfl
  refine ⟨halone, hconveys, fun h => ?_⟩
  -- the octet is in none of the calls
  have hcontent := h.content
  rw [(hconveys.overflows halone (by decide)).1] at hcontent
  cases hcontent

end Transfer

end Courier
