import Mathlib.Logic.Relation
import Courier.Proofs.Stream
import Courier.Transfer.Receive
import Courier.Transfer.Send

/-!
# What calls do to the surroundings

A call to read or to write lets what happens meanwhile be felt, and nothing else touches the
surroundings but the pauses between the tries for a chunk. So the clock never goes back, and the
count stays where nobody comes or goes.

Main results:

* `Ambient.Passes` — what may happen during a call, and what follows for the clock and the count.
* `Transfer.passes_of_fillChunk`, `Transfer.passes_of_nextChunk`, `Transfer.passes_of_writeChunk` —
  what happens during the calls for a chunk.
* `Inbound.mem_of_take`, `Inbound.fault_of_take` — what a call leaves, and where a fault comes from.
-/

namespace Courier

open Relation

/-! ## The surroundings -/

namespace Ambient

/-- The count does not depend on the time. -/
theorem active_setClock (a : Ambient) (clock : Clock) : active { a with clock } = a.active :=
  rfl

/-- One thing that happens: a ripple that is felt, or a pause. -/
inductive Event (felt : Ripple → Prop) (paused : Nat → Prop) : Ambient → Ambient → Prop where
  | feel {a : Ambient} {r : Ripple} (hr : felt r) : Event felt paused a (a.feel r)
  | pause {a : Ambient} {nanos : Nat} (hnanos : paused nanos) :
      Event felt paused a (a.pause nanos)

/-- Between `a` and `b` only such things happen. -/
abbrev Passes (felt : Ripple → Prop) (paused : Nat → Prop) : Ambient → Ambient → Prop :=
  ReflTransGen (Event felt paused)

variable {felt felt' : Ripple → Prop} {paused paused' : Nat → Prop} {a b : Ambient}

/-- What may happen may happen where more may. -/
theorem Passes.mono (h : Passes felt paused a b) (hfelt : ∀ r, felt r → felt' r)
    (hpaused : ∀ n, paused n → paused' n) : Passes felt' paused' a b := by
  refine ReflTransGen.mono ?_ _ _ h
  rintro _ _ (hr | hn)
  · exact .feel (hfelt _ hr)
  · exact .pause (hpaused _ hn)

/-- The steady clock only runs. -/
theorem Passes.steady_le (h : Passes felt paused a b) : a.clock.steady ≤ b.clock.steady := by
  -- by induction on what happens; a ripple may be a tick, and a pause takes time
  induction h with
  | refl => exact Nat.le_refl _
  | tail _ hevent ih =>
    refine Nat.le_trans ih ?_
    cases hevent with
    | @feel r => cases r <;> simp [Ambient.feel]
    | pause => simp [Ambient.pause]

/-- The steady clock stands still where neither ticks nor pauses take time. -/
theorem Passes.steady_eq (h : Passes felt paused a b) (hfelt : ∀ n, felt (.tick n) → n = 0)
    (hpaused : ∀ n, paused n → n = 0) : b.clock.steady = a.clock.steady := by
  induction h with
  | refl => rfl
  | tail _ hevent ih =>
    refine Eq.trans ?_ ih
    cases hevent with
    | @feel r hr =>
      cases r with
      | join => rfl
      | leave => rfl
      | tick n => simp [Ambient.feel, hfelt n hr]
    | @pause n hn => simp [Ambient.pause, hpaused n hn]

/-- Whatever happens meanwhile, the own count stays. -/
theorem Passes.own_eq (h : Passes felt paused a b) : b.own = a.own := by
  -- others come and go, but not as one of the own transfers
  induction h with
  | refl => rfl
  | tail _ hevent ih =>
    refine Eq.trans ?_ ih
    cases hevent with
    | @feel r => cases r <;> rfl
    | pause => rfl

/-- The count stays where others only let time pass. -/
theorem Passes.active_eq (h : Passes felt paused a b) (hfelt : ∀ r, felt r → ∃ n, r = .tick n) :
    b.active = a.active := by
  induction h with
  | refl => rfl
  | tail _ hevent ih =>
    refine Eq.trans ?_ ih
    cases hevent with
    | @feel r hr =>
      obtain ⟨n, rfl⟩ := hfelt r hr
      rfl
    | pause => rfl

end Ambient

open Ambient

/-- No pauses are taken. -/
def Unpaused (_ : Nat) : Prop :=
  False

/-! ## Reading -/

namespace Inbound

/-- The ripples that come with arrivals. -/
def Ripples (l : List Arrival) (r : Ripple) : Prop :=
  .aside r ∈ l

variable {room : Nat} {l l' : List Arrival} {a b : Ambient} {r : Except Fault Bytes}

/-- What is left was there before, but for a piece taken in part. -/
theorem mem_of_take {x : Arrival} (h : take room l a = (r, l', b)) (hx : x ∈ l')
    (hdata : ∀ octets, x ≠ .data octets) : x ∈ l := by
  -- by the recursion of a call over what arrives; only the last case puts something back, and that
  -- is data
  fun_induction take room l a with
  | case1 =>
    cases h
    exact hx
  | case2 a r rest ih => exact List.mem_cons_of_mem _ (ih h)
  | case3 f' rest a =>
    cases h
    exact List.mem_cons_of_mem _ hx
  | case4 rest a =>
    cases h
    exact List.mem_cons_of_mem _ hx
  | case5 a octets rest hempty ih => exact List.mem_cons_of_mem _ (ih h)
  | case6 octets rest a hempty later =>
    cases h
    refine List.mem_cons_of_mem _ ?_
    split at hx
    · exact hx
    · exact (List.mem_cons.mp hx).resolve_left (hdata _)

/-- A fault that a call meets with has arrived. -/
theorem fault_of_take {f : Fault} (h : take room l a = (.error f, l', b)) : .fault f ∈ l := by
  fun_induction take room l a with
  | case1 => cases h
  | case2 a r rest ih => exact List.mem_cons_of_mem _ (ih h)
  | case3 f' rest a =>
    cases h
    exact List.mem_cons_self ..
  | case4 => cases h
  | case5 a octets rest hempty ih => exact List.mem_cons_of_mem _ (ih h)
  | case6 => cases h

/-- Only the ripples among the arrivals are felt, and no pause is taken. -/
theorem passes_of_take (h : take room l a = (r, l', b)) : Passes (Ripples l) Unpaused a b := by
  -- by the same recursion: it passes a ripple on the way, or nothing
  fun_induction take room l a with
  | case1 =>
    cases h
    exact .refl
  | case2 a r rest ih =>
    refine .head (.feel (List.mem_cons_self ..)) ?_
    exact (ih h).mono (fun _ hr => List.mem_cons_of_mem _ hr) (fun _ hn => hn)
  | case3 =>
    cases h
    exact .refl
  | case4 =>
    cases h
    exact .refl
  | case5 a octets rest hempty ih =>
    exact (ih h).mono (fun _ hr => List.mem_cons_of_mem _ hr) (fun _ hn => hn)
  | case6 =>
    cases h
    exact .refl

variable {s t : Inbound}

/-- What a call to read, or several, leave of what is not data was there before. -/
def Leaves (s t : Inbound) : Prop :=
  ∀ x ∈ t.arrivals, (∀ octets, x ≠ .data octets) → x ∈ s.arrivals

/-- Without a call everything is left. -/
theorem Leaves.refl (s : Inbound) : s.Leaves s :=
  fun _ hx _ => hx

/-- Calls one after the other leave what each of them leaves. -/
theorem Leaves.trans {u : Inbound} (h : s.Leaves t) (h' : t.Leaves u) : s.Leaves u :=
  fun x hx hdata => h x (h' x hx hdata) hdata

/-- What happens during later calls came in front of the earlier ones. -/
theorem Leaves.passes {paused : Nat → Prop} {b c : Ambient} (h : s.Leaves t)
    (hpasses : Passes (Ripples t.arrivals) paused b c) :
    Passes (Ripples s.arrivals) paused b c :=
  hpasses.mono (fun _ hr => h _ hr (by simp)) fun _ hn => hn

/-- A call leaves what was there, but for a piece that it has taken. -/
theorem leaves_of_read (h : s.read room a = (r, t, b)) : s.Leaves t :=
  fun _ hx hdata => mem_of_take (take_of_read h) hx hdata

/-- A call that fails has met with a fault that arrived. -/
theorem fault_of_read {f : Fault} (h : s.read room a = (.error f, t, b)) :
    .fault f ∈ s.arrivals :=
  fault_of_take (take_of_read h)

/-- During a call to read what arrived with it is felt. -/
theorem passes_of_read (h : s.read room a = (r, t, b)) :
    Passes (Ripples s.arrivals) Unpaused a b :=
  passes_of_take (take_of_read h)

/-- So it is for the calls that fill a chunk. -/
theorem passes_of_fill (h : s.fill room a = (r, t, b)) :
    Passes (Ripples s.arrivals) Unpaused a b ∧ s.Leaves t := by
  -- by the recursion of the filling, call by call; the later calls come behind what the first one
  -- leaves
  fun_induction Inbound.fill s room a generalizing r t b with
  | case1 s room a hroom u c hread =>
    cases h
    exact ⟨passes_of_read hread, leaves_of_read hread⟩
  | case2 s room a hroom o first u c hread more v d hmore ih
  | case3 s room a hroom o first u c hread f v d hmore ih =>
    cases h
    obtain ⟨hpasses, hleaves⟩ := ih hmore
    have hfirst := leaves_of_read hread
    exact ⟨(passes_of_read hread).trans (hfirst.passes hpasses), hfirst.trans hleaves⟩
  | case4 s room a hroom f u c hread hf ih =>
    obtain ⟨hpasses, hleaves⟩ := ih h
    have hfirst := leaves_of_read hread
    exact ⟨(passes_of_read hread).trans (hfirst.passes hpasses), hfirst.trans hleaves⟩
  | case5 s room a hroom f u c hread hf =>
    cases h
    exact ⟨passes_of_read hread, leaves_of_read hread⟩
  | case6 s room a hroom =>
    cases h
    exact ⟨.refl, .refl _⟩

/-- Whether something arrives after which a read is tried again. -/
def Fails (s : Inbound) : Prop :=
  ∃ f, .fault f ∈ s.arrivals ∧ f.isInterruption = false

/-- A fault that is left was there before. -/
theorem Leaves.fails (h : s.Leaves t) (ht : t.Fails) : s.Fails := by
  obtain ⟨f, hf, hinterruption⟩ := ht
  exact ⟨f, h _ hf (by simp), hinterruption⟩

end Inbound

/-! ## Writing -/

namespace Outbound

/-- The ripples that come with uptakes. -/
def Ripples (l : List Uptake) (r : Ripple) : Prop :=
  .aside r ∈ l

/-- Whether a call to write that meets with this is a failed one. -/
def Uptake.Fails : Uptake → Prop
  | .take n => n = 0
  | .fault f => f.isInterruption = false
  | .aside _ => False

def Fails (s : Outbound) : Prop :=
  ∃ u ∈ s.uptakes, Uptake.Fails u

variable {offered : Nat} {l l' : List Uptake} {a b : Ambient} {r : Except Fault Nat}

/-- Only the ripples in front of an uptake are felt by the call that meets with it. -/
theorem passes_of_accept (h : accept offered l a = (r, l', b)) :
    Passes (Ripples l) Unpaused a b ∧ l' <:+ l := by
  fun_induction accept offered l a with
  | case1 =>
    cases h
    exact ⟨.refl, List.suffix_refl _⟩
  -- a ripple is felt, and the call goes on to what comes after it
  | case2 a r rest ih =>
    obtain ⟨hpasses, hsuffix⟩ := ih h
    refine ⟨.head (.feel (List.mem_cons_self ..)) ?_, hsuffix.trans (List.suffix_cons ..)⟩
    exact hpasses.mono (fun _ hr => List.mem_cons_of_mem _ hr) (fun _ hn => hn)
  | case3 =>
    cases h
    exact ⟨.refl, List.suffix_cons ..⟩
  | case4 =>
    cases h
    exact ⟨.refl, List.suffix_cons ..⟩

/-- A call that fails does so because of what it meets with. -/
theorem fails_of_accept {f : Fault} (h : accept offered l a = (r, l', b)) (hoffered : 0 < offered)
    (hfault : Transfer.writeFault? r = some f) (hf : f.isInterruption = false) :
    ∃ u ∈ l, Uptake.Fails u := by
  -- by the recursion of the call over the uptakes
  fun_induction accept offered l a with
  | case1 =>
    -- a call that takes all of something does not fail
    cases h
    obtain ⟨n, rfl⟩ := Nat.exists_eq_add_of_lt hoffered
    rw [Nat.zero_add] at hfault
    cases hfault
  | case2 a r rest ih =>
    obtain ⟨u, hu, hfails⟩ := ih h
    exact ⟨u, List.mem_cons_of_mem _ hu, hfails⟩
  | case3 f' rest a =>
    cases h
    cases hfault
    exact ⟨_, List.mem_cons_self .., hf⟩
  | case4 n rest a =>
    cases h
    refine ⟨_, List.mem_cons_self .., ?_⟩
    cases hmin : min n offered with
    | zero => exact (Nat.min_eq_zero_iff.mp hmin).resolve_right (Nat.ne_of_gt hoffered)
    | succ =>
      rw [hmin] at hfault
      cases hfault

variable {s t : Outbound} {data : Bytes}

/-- So it is for a call to write. -/
theorem passes_of_write (h : s.write data a = (r, t, b)) :
    Passes (Ripples s.uptakes) Unpaused a b ∧ t.uptakes <:+ s.uptakes := by
  cases h
  exact passes_of_accept (r := (accept data.length s.uptakes a).1) rfl

/-- And a call to write something fails only where the stream does. -/
theorem fails_of_write {f : Fault} (h : s.write data a = (r, t, b)) (hne : data ≠ [])
    (hfault : Transfer.writeFault? r = some f) (hf : f.isInterruption = false) : s.Fails := by
  cases h
  exact fails_of_accept (r := (accept data.length s.uptakes a).1) rfl
    (List.length_pos_iff.mpr hne) hfault hf

end Outbound

/-! ## The calls for a chunk -/

namespace Transfer

/-- A chunk of a source is filled by reads, or by none at all if it is too large to be held. -/
theorem passes_of_fillChunk {settings : Settings} {path : Path} {s t : Inbound} {a b : Ambient}
    {r : Except TransferError Bytes} (h : fillChunk settings path s a = (r, t, b)) :
    Passes (Inbound.Ripples s.arrivals) Unpaused a b ∧ s.Leaves t := by
  rcases Nat.lt_or_ge maxBuffer (chunkSize settings a) with hlt | hle
  · rw [fillChunk_of_lt hlt] at h
    cases h
    exact ⟨.refl, .refl _⟩
  · rw [fillChunk_of_le hle] at h
    split at h <;> (rename_i hfill; cases h; exact Inbound.passes_of_fill hfill)

/-- The pauses between the tries for a chunk, which only failed tries take. -/
def Between (settings : Settings) (fails : Prop) (n : Nat) : Prop :=
  fails ∧ n = settings.retryDelay

variable {settings : Settings} {failures : Nat} {a b : Ambient}

/-- Between the tries for a chunk there are pauses, but only after one that failed. -/
theorem passes_of_readChunk {room : Nat} {s t : Inbound} {r : Except TransferError Bytes}
    (h : readChunk settings failures room s a = (r, t, b)) :
    Passes (Inbound.Ripples s.arrivals) (Between settings s.Fails) a b ∧ s.Leaves t := by
  -- one call takes no pause
  have hcall {room : Nat} {s t : Inbound} {a b : Ambient} {r : Except Fault Bytes}
      (hread : s.read room a = (r, t, b)) :
      Passes (Inbound.Ripples s.arrivals) (Between settings s.Fails) a b ∧ s.Leaves t :=
    ⟨(Inbound.passes_of_read hread).mono (fun _ hr => hr) (fun _ hn => hn.elim),
      Inbound.leaves_of_read hread⟩
  -- by the recursion of the tries: the last one, an interruption, a failure too many, or one with a
  -- pause behind it
  fun_induction readChunk settings failures room s a generalizing r t b with
  | case1 failures s a hroom octets u c hread =>
    cases h
    exact hcall hread
  | case2 failures s a hroom f u c hread hf ih =>
    obtain ⟨hfirst, hleaves⟩ := hcall hread
    obtain ⟨hpasses, hrest⟩ := ih h
    refine ⟨hfirst.trans (hleaves.passes (hpasses.mono (fun _ hr => hr) ?_)), hleaves.trans hrest⟩
    exact fun n hn => ⟨hleaves.fails hn.1, hn.2⟩
  | case3 failures s a hroom f u c hread hf =>
    cases h
    exact hcall hread
  | case4 failures s a hroom f u c hread hf hretries ih =>
    obtain ⟨hfirst, hleaves⟩ := hcall hread
    obtain ⟨hpasses, hrest⟩ := ih h
    -- the failed try is followed by a pause
    have hpause : Between settings s.Fails settings.retryDelay :=
      ⟨⟨f, Inbound.fault_of_read hread, by simpa using hf⟩, rfl⟩
    refine ⟨(hfirst.tail (.pause hpause)).trans
      (hleaves.passes (hpasses.mono (fun _ hr => hr) ?_)), hleaves.trans hrest⟩
    exact fun n hn => ⟨hleaves.fails hn.1, hn.2⟩
  | case5 =>
    cases h
    exact ⟨.refl, .refl _⟩

/-- So it is for the chunks of a stream. -/
theorem passes_of_nextChunk {s t : Inbound} {r : Except TransferError Bytes}
    (h : nextChunk settings s a = (r, t, b)) :
    Passes (Inbound.Ripples s.arrivals) (Between settings s.Fails) a b ∧ s.Leaves t := by
  rcases Nat.lt_or_ge maxBuffer (chunkSize settings a) with hlt | hle
  · rw [nextChunk_of_lt hlt] at h
    cases h
    exact ⟨.refl, .refl _⟩
  · rw [nextChunk_of_le hle] at h
    exact passes_of_readChunk h

/-- **The tries for a chunk that is written** let what comes with them be felt, and pause after
those that fail. -/
theorem passes_of_writeChunk {s t : Outbound} {chunk : Bytes} {r : Except TransferError Unit}
    (h : writeChunk settings failures s chunk a = (r, t, b)) :
    Passes (Outbound.Ripples s.uptakes) (Between settings s.Fails) a b ∧
      t.uptakes <:+ s.uptakes := by
  -- one call takes no pause
  have hcall {s t : Outbound} {chunk : Bytes} {a b : Ambient} {r : Except Fault Nat}
      (hwrite : s.write chunk a = (r, t, b)) :
      Passes (Outbound.Ripples s.uptakes) (Between settings s.Fails) a b ∧
        t.uptakes <:+ s.uptakes := by
    obtain ⟨hpasses, hsuffix⟩ := Outbound.passes_of_write hwrite
    exact ⟨hpasses.mono (fun _ hr => hr) (fun _ hn => hn.elim), hsuffix⟩
  -- what happens during later calls came in front of the earlier ones
  have hlater {s t : Outbound} {b c : Ambient} (hsuffix : t.uptakes <:+ s.uptakes)
      (hpasses : Passes (Outbound.Ripples t.uptakes) (Between settings t.Fails) b c) :
      Passes (Outbound.Ripples s.uptakes) (Between settings s.Fails) b c := by
    refine hpasses.mono (fun _ hr => hsuffix.subset hr) ?_
    rintro n ⟨⟨u, hu, hfails⟩, hn⟩
    exact ⟨⟨u, hsuffix.subset hu, hfails⟩, hn⟩
  -- by the recursion of the tries, as for reading; a call that takes a part is followed by the next
  -- at once
  fun_induction writeChunk settings failures s chunk a generalizing r t b with
  | case1 =>
    cases h
    exact ⟨.refl, List.suffix_refl _⟩
  | case2 failures s chunk a hne outcome u c hwrite hfault ih
  | case3 failures s chunk a hne outcome u c hwrite f hfault hf ih =>
    obtain ⟨hfirst, hsuffix⟩ := hcall hwrite
    obtain ⟨hpasses, hrest⟩ := ih h
    exact ⟨hfirst.trans (hlater hsuffix hpasses), hrest.trans hsuffix⟩
  | case4 failures s chunk a hne outcome u c hwrite f hfault hf =>
    cases h
    exact hcall hwrite
  | case5 failures s chunk a hne outcome u c hwrite f hfault hf hretries ih =>
    obtain ⟨hfirst, hsuffix⟩ := hcall hwrite
    obtain ⟨hpasses, hrest⟩ := ih h
    have hpause : Between settings s.Fails settings.retryDelay :=
      ⟨Outbound.fails_of_write hwrite hne hfault (by simpa using hf), rfl⟩
    exact ⟨(hfirst.tail (.pause hpause)).trans (hlater hsuffix hpasses), hrest.trans hsuffix⟩

end Transfer

end Courier
