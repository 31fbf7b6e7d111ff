import Courier.Stream.Inbound
import Courier.Stream.Outbound

/-!
# What streams bring and take

The octets that a stream still brings are those that arrive before a read first finds the end.
Reading takes them off the front, whatever faults and short pieces come between. What a stream
has taken is read off its calls, so it only grows, call by call.

Main results:

* `Inbound.pending_of_read`, `Inbound.pending_of_read_end` — what one call to read takes off.
* `Inbound.pending_of_fill` — what a filling takes off, and that only the end leaves room.
* `Outbound.taken_of_write` — what one call to write adds.
-/

namespace Courier

/-! ## Incoming -/

namespace Inbound

/-- What arrives before a read first finds the end. -/
def pendingOf : List Arrival → Bytes
  | [] => []
  | .data octets :: rest => octets ++ pendingOf rest
  | .pause :: _ => []
  | .fault _ :: rest => pendingOf rest
  | .aside _ :: rest => pendingOf rest

/-- What the stream still brings. -/
def pending (s : Inbound) : Bytes :=
  pendingOf s.arrivals

/-- Once a read has found the end, none brings anything any more. -/
def Settles (s : Inbound) : Prop :=
  ∀ after, .pause :: after <:+ s.arrivals → pendingOf after = []

/-- What a call to read brought. -/
def gained : Except Fault Bytes → Bytes
  | .ok octets => octets
  | .error _ => []

/-- A piece comes before what follows it. -/
@[simp]
theorem pendingOf_data (octets : Bytes) (rest : List Arrival) :
    pendingOf (.data octets :: rest) = octets ++ pendingOf rest :=
  rfl

/-- A stream of given octets brings those. -/
@[simp]
theorem pending_ofBytes (octets : Bytes) : (ofBytes octets).pending = octets := by
  simp [pending, ofBytes, of, pendingOf]

/-- A stream that never pauses settles: its end is where nothing follows. -/
theorem settles_of_not_mem {s : Inbound} (h : .pause ∉ s.arrivals) : s.Settles := by
  intro after hafter
  exact absurd (hafter.subset (List.mem_cons_self ..)) h

/-- What a call brings is taken off the front. -/
theorem pendingOf_take {room : Nat} {l l' : List Arrival} {a b : Ambient} {r : Except Fault Bytes}
    (h : take room l a = (r, l', b)) (hr : r ≠ .ok []) :
    pendingOf l = gained r ++ pendingOf l' := by
  -- by the recursion of the call: ripples and empty pieces are passed, a fault stops it, and a
  -- piece is taken or cut
  fun_induction take room l a with
  | case1 => cases h; exact absurd rfl hr
  | case2 _ _ _ ih => exact ih h
  | case3 => cases h; rfl
  | case4 => cases h; exact absurd rfl hr
  | case5 octets rest _ hempty ih =>
    rw [List.isEmpty_iff.mp hempty]
    exact ih h
  | case6 octets rest a hempty later =>
    -- what is left of a piece stays in front
    cases h
    have hsplit : octets = octets.take room ++ later := (List.take_append_drop ..).symm
    rw [pendingOf_data]
    split
    · rename_i hlater
      rw [List.isEmpty_iff.mp hlater, List.append_nil] at hsplit
      rw [gained, ← hsplit]
    · rw [pendingOf_data, ← List.append_assoc, gained, ← hsplit]

/-- A call that had room and brought nothing has found the end. -/
theorem pendingOf_take_end {room : Nat} {l l' : List Arrival} {a b : Ambient} (hroom : 0 < room)
    (h : take room l a = (.ok [], l', b)) :
    pendingOf l = [] ∧ (l' = [] ∨ .pause :: l' <:+ l) := by
  -- by the same recursion; it comes to nothing only at the end, or where the stream pauses
  fun_induction take room l a with
  | case1 => cases h; exact ⟨rfl, .inl rfl⟩
  | case2 _ _ _ ih =>
    obtain ⟨hnil, hend⟩ := ih h
    exact ⟨hnil, hend.imp id fun hend => hend.trans (List.suffix_cons ..)⟩
  | case3 => cases h
  | case4 rest => cases h; exact ⟨rfl, .inr (List.suffix_refl _)⟩
  | case5 octets rest _ hempty ih =>
    obtain ⟨hnil, hend⟩ := ih h
    rw [pendingOf_data, List.isEmpty_iff.mp hempty]
    exact ⟨hnil, hend.imp id fun hend => hend.trans (List.suffix_cons ..)⟩
  | case6 octets rest a hempty later =>
    -- a piece with something in it is not taken as nothing
    obtain ⟨hnil, _⟩ := Prod.mk.inj h
    cases octets with
    | nil => simp at hempty
    | cons => simp [Nat.ne_of_gt hroom] at hnil

/-- A call leaves an end of what there was, but for a piece it took only in part. -/
theorem suffix_of_take {room : Nat} {l l' after : List Arrival} {a b : Ambient}
    {r : Except Fault Bytes} (h : take room l a = (r, l', b)) (hafter : .pause :: after <:+ l') :
    .pause :: after <:+ l := by
  -- by the recursion of the call; all cases but the last leave an end of the list
  fun_induction take room l a with
  | case1 => cases h; exact hafter
  | case2 _ _ _ ih => exact (ih h).trans (List.suffix_cons ..)
  | case3 => cases h; exact hafter.trans (List.suffix_cons ..)
  | case4 => cases h; exact hafter.trans (List.suffix_cons ..)
  | case5 _ _ _ _ ih => exact (ih h).trans (List.suffix_cons ..)
  | case6 octets rest a hempty later =>
    cases h
    -- what is left of the piece is put back in front, and is no end
    refine List.IsSuffix.trans ?_ (List.suffix_cons ..)
    split at hafter
    · exact hafter
    · rcases List.suffix_cons_iff.mp hafter with heq | hrest
      · cases heq
      · exact hrest

section Read

variable {s t : Inbound} {room : Nat} {a b : Ambient} {r : Except Fault Bytes} {octets : Bytes}

/-- A call to read is one look at what arrives. -/
theorem take_of_read (h : s.read room a = (r, t, b)) :
    take room s.arrivals a = (r, t.arrivals, b) := by
  unfold read at h
  cases h
  rfl

/-- **One call takes its octets off the front** of what the stream still brings. -/
theorem pending_of_read (h : s.read room a = (r, t, b)) (hr : r ≠ .ok []) :
    s.pending = gained r ++ t.pending :=
  pendingOf_take (take_of_read h) hr

/-- If it finds the end, nothing was left. -/
theorem pending_of_read_end (hroom : 0 < room) (h : s.read room a = (.ok [], t, b)) :
    s.pending = [] :=
  (pendingOf_take_end hroom (take_of_read h)).1

/-- A stream that settles does so after any call. -/
theorem Settles.read (hs : s.Settles) (h : s.read room a = (r, t, b)) : t.Settles :=
  fun after hafter => hs after (suffix_of_take (take_of_read h) hafter)

/-- And once a call has found the end, nothing comes any more. -/
theorem Settles.pending_of_end (hs : s.Settles) (hroom : 0 < room)
    (h : s.read room a = (.ok [], t, b)) : t.pending = [] := by
  rcases (pendingOf_take_end hroom (take_of_read h)).2 with hnil | hpause
  · rw [pending, hnil]
    rfl
  · exact hs _ hpause

/-- A filling brings what comes next, and as much as there is room for unless that is all. -/
theorem pending_of_fill (hs : s.Settles) (h : s.fill room a = (.ok octets, t, b)) :
    s.pending = octets ++ t.pending ∧ t.Settles ∧ (octets.length < room → t.pending = []) := by
  -- by the recursion of the filling: each call takes off the front, and only the end leaves room
  fun_induction fill s room a generalizing octets t b with
  | case1 s room a hroom u c hread =>
    cases h
    -- the end was found, and the source stays at its end
    have hnil := hs.pending_of_end hroom hread
    refine ⟨?_, hs.read hread, fun _ => hnil⟩
    rw [pending_of_read_end hroom hread, hnil]
    rfl
  | case2 s room a hroom o first u c hread more v d hmore ih =>
    -- a short piece: the rest of the room is filled from what comes after it
    cases h
    obtain ⟨hpending, hsettles, hroom⟩ := ih (hs.read hread) hmore
    refine ⟨?_, hsettles, fun hlt => hroom ?_⟩
    · rw [pending_of_read hread (by simp), hpending, List.append_assoc]
      rfl
    · rw [List.length_append] at hlt
      omega
  | case3 => cases h
  | case4 s room a hroom f u c hread hf ih =>
    obtain ⟨hpending, hsettles, hroom⟩ := ih (hs.read hread) h
    refine ⟨?_, hsettles, hroom⟩
    rw [pending_of_read hread (by simp)]
    exact hpending
  | case5 => cases h
  | case6 s room a hroom =>
    cases h
    exact ⟨rfl, hs, fun hlt => absurd hlt hroom⟩

end Read

end Inbound

/-! ## Outgoing -/

namespace Outbound

/-- What has been taken in some calls, latest in front. -/
def taken (calls : List WriteCall) : Bytes :=
  calls.reverse.flatMap WriteCall.accepted

/-- What was taken is on the wire. -/
theorem wire_eq (s : Outbound) : s.wire = taken s.calls :=
  rfl

/-- Nothing is taken without a call. -/
@[simp]
theorem taken_nil : taken [] = [] :=
  rfl

/-- What the latest call has taken comes last. -/
@[simp]
theorem taken_cons (c : WriteCall) (calls : List WriteCall) :
    taken (c :: calls) = taken calls ++ c.accepted := by
  simp [taken]

/-- Earlier calls come first. -/
@[simp]
theorem taken_append (later earlier : List WriteCall) :
    taken (later ++ earlier) = taken earlier ++ taken later := by
  simp [taken]

/-- What a call takes and what it leaves make up what it was offered. -/
theorem accepted_append_remaining (data : Bytes) (outcome : Except Fault Nat) :
    WriteCall.accepted ⟨data, outcome⟩ ++ remaining data outcome = data := by
  cases outcome with
  | ok n => exact List.take_append_drop n data
  | error f => rfl

/-- One call adds what it took, and the octets it did not take are the rest. -/
theorem taken_of_write {s t : Outbound} {data : Bytes} {a b : Ambient} {r : Except Fault Nat}
    (h : s.write data a = (r, t, b)) :
    t.calls = ⟨data, r⟩ :: s.calls ∧ taken [⟨data, r⟩] ++ remaining data r = data := by
  unfold write at h
  cases h
  refine ⟨rfl, ?_⟩
  rw [taken_cons, taken_nil, List.nil_append]
  exact accepted_append_remaining data _

end Outbound

end Courier
