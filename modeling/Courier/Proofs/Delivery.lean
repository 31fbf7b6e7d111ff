import Courier.Proofs.Header
import Courier.Proofs.Limits

/-!
# Deliveries that get through

What one end has sent reaches the other one cut into pieces, with faults in between. A header bears
no fault but interruptions; what follows it bears runs of other faults that are shorter than the
settings allow. A delivery of this kind is read to its end, however it is cut.

Main results:

* `Delivers` — how octets come in.
* `Header.read_of_delivers` — a header that is delivered is read.
* `Transfer.receiveRest_of_delivers` — content that is delivered is received, if it fits.
-/

namespace Courier

open Files

/-- `octets` come in by some arrivals, after `failures` calls in a row have failed. Faults other
than interruptions come only when the first `quiet` octets are over, and fewer than `limit` of them
from one piece to the next. -/
inductive Delivers (limit : Nat) : (quiet failures : Nat) → Bytes → List Arrival → Prop where
  | finished {quiet failures : Nat} : Delivers limit quiet failures [] []
  | ended {quiet failures : Nat} (rest : List Arrival) :
      Delivers limit quiet failures [] (.pause :: rest)
  | aside {quiet failures : Nat} {octets : Bytes} {rest : List Arrival} (ripple : Ripple)
      (h : Delivers limit quiet failures octets rest) :
      Delivers limit quiet failures octets (.aside ripple :: rest)
  | nothing {quiet failures : Nat} {octets : Bytes} {rest : List Arrival}
      (h : Delivers limit quiet failures octets rest) :
      Delivers limit quiet failures octets (.data [] :: rest)
  | piece {quiet failures : Nat} {piece octets : Bytes} {rest : List Arrival} (hne : piece ≠ [])
      (h : Delivers limit (quiet - piece.length) 0 octets rest) :
      Delivers limit quiet failures (piece ++ octets) (.data piece :: rest)
  | interrupted {quiet failures : Nat} {octets : Bytes} {rest : List Arrival} {fault : Fault}
      (hfault : fault.isInterruption = true) (h : Delivers limit quiet failures octets rest) :
      Delivers limit quiet failures octets (.fault fault :: rest)
  | failed {failures : Nat} {octets : Bytes} {rest : List Arrival} {fault : Fault}
      (hfault : fault.isInterruption = false) (hlimit : failures + 1 < limit)
      (h : Delivers limit 0 (failures + 1) octets rest) :
      Delivers limit 0 failures octets (.fault fault :: rest)

namespace Delivers

variable {limit quiet failures : Nat} {octets : Bytes} {l : List Arrival}

/-- A delivery bears fewer failures before it, too. -/
theorem mono {fewer : Nat} (h : Delivers limit quiet failures octets l) (hle : fewer ≤ failures) :
    Delivers limit quiet fewer octets l := by
  -- a piece starts the counting afresh, so only the failures before it matter
  induction h generalizing fewer with
  | finished => exact .finished
  | ended rest => exact .ended rest
  | aside ripple _ ih => exact .aside ripple (ih hle)
  | nothing _ ih => exact .nothing (ih hle)
  | piece hne h => exact .piece hne h
  | interrupted hfault _ ih => exact .interrupted hfault (ih hle)
  | failed hfault hlimit _ ih => exact .failed hfault (by omega) (ih (by omega))

/-- A delivery of some octets has exactly these to bring. -/
theorem pendingOf_eq (h : Delivers limit quiet failures octets l) :
    Inbound.pendingOf l = octets := by
  induction h with
  | finished => rfl
  | ended => rfl
  | aside _ _ ih => exact ih
  | nothing _ ih => exact ih
  | piece _ _ ih => rw [Inbound.pendingOf_data, ih]
  | interrupted _ _ ih => exact ih
  | failed _ _ _ ih => exact ih

/-- What comes in one piece is delivered. -/
theorem of_bytes (limit quiet failures : Nat) (octets : Bytes) :
    Delivers limit quiet failures octets (Inbound.ofBytes octets).arrivals := by
  cases octets with
  | nil => exact .nothing .finished
  | cons o octets =>
    have h : Delivers limit quiet failures ((o :: octets) ++ []) [.data (o :: octets)] :=
      .piece (by simp) .finished
    rwa [List.append_nil] at h

/-- What a call to read finds of a delivery, and what is left of it. -/
inductive Found (limit : Nat) : (quiet failures : Nat) → Bytes → Except Fault Bytes →
    List Arrival → Prop where
  | ended {quiet failures : Nat} {l : List Arrival} : Found limit quiet failures [] (.ok []) l
  | piece {quiet failures : Nat} {piece octets : Bytes} {l : List Arrival} (hne : piece ≠ [])
      (h : Delivers limit (quiet - piece.length) 0 octets l) :
      Found limit quiet failures (piece ++ octets) (.ok piece) l
  | interrupted {quiet failures : Nat} {octets : Bytes} {l : List Arrival} {fault : Fault}
      (hfault : fault.isInterruption = true) (h : Delivers limit quiet failures octets l) :
      Found limit quiet failures octets (.error fault) l
  | failed {failures : Nat} {octets : Bytes} {l : List Arrival} {fault : Fault}
      (hfault : fault.isInterruption = false) (hlimit : failures + 1 < limit)
      (h : Delivers limit 0 (failures + 1) octets l) :
      Found limit 0 failures octets (.error fault) l

/-- What one call finds of a delivery. -/
theorem found_of_take {room : Nat} {l' : List Arrival} {a b : Ambient} {r : Except Fault Bytes}
    (h : Delivers limit quiet failures octets l) (hroom : 0 < room)
    (htake : Inbound.take room l a = (r, l', b)) : Found limit quiet failures octets r l' := by
  -- asides and empty pieces are stepped over, and are nothing of the delivery
  fun_induction Inbound.take room l a with
  | case1 =>
    cases htake
    cases h
    exact .ended
  | case2 _ _ _ ih =>
    cases h with
    | aside _ h => exact ih h htake
  | case3 =>
    cases htake
    cases h with
    | interrupted hfault h => exact .interrupted hfault h
    | failed hfault hlimit h => exact .failed hfault hlimit h
  | case4 =>
    cases htake
    cases h
    exact .ended
  | case5 found rest _ hempty ih =>
    cases h with
    | nothing h => exact ih h htake
    | piece hne => exact absurd (List.isEmpty_iff.mp hempty) hne
  | case6 found rest a hempty later =>
    cases htake
    cases h with
    | nothing => exact absurd rfl hempty
    | @piece _ _ _ octets _ hne h =>
      -- the piece may be longer than the room, and then the rest of it is the next piece
      have hsplit : found ++ octets = found.take room ++ (later ++ octets) := by
        rw [← List.append_assoc, List.take_append_drop]
      have hfirst : found.take room ≠ [] := by simp [hne, Nat.ne_of_gt hroom]
      have hlength : (found.take room).length + later.length = found.length := by
        rw [← List.length_append, List.take_append_drop]
      rw [hsplit]
      refine .piece hfirst ?_
      split
      · rename_i hlater
        rw [List.isEmpty_iff.mp hlater] at hlength ⊢
        rw [show (found.take room).length = found.length from hlength]
        exact h
      · rename_i hlater
        refine .piece (by simpa using hlater) ?_
        rw [Nat.sub_sub, hlength]
        exact h

section Read

variable {s t : Inbound} {room : Nat} {a b : Ambient}

/-- A call that brings nothing has found the end of the delivery. -/
theorem of_read {piece : Bytes} (h : Delivers limit quiet failures octets s.arrivals)
    (hroom : 0 < room) (hread : s.read room a = (.ok piece, t, b)) :
    piece = [] ∧ octets = [] ∨ piece ≠ [] ∧ ∃ rest, octets = piece ++ rest ∧
      Delivers limit (quiet - piece.length) 0 rest t.arrivals := by
  cases h.found_of_take hroom (Inbound.take_of_read hread) with
  | ended => exact .inl ⟨rfl, rfl⟩
  | piece hne h => exact .inr ⟨hne, _, rfl, h⟩

/-- A call that fails was interrupted, or there may be more such calls. -/
theorem of_read_error {f : Fault} (h : Delivers limit quiet failures octets s.arrivals)
    (hroom : 0 < room) (hread : s.read room a = (.error f, t, b)) :
    f.isInterruption = true ∧ Delivers limit quiet failures octets t.arrivals ∨
      f.isInterruption = false ∧ quiet = 0 ∧ failures + 1 < limit ∧
        Delivers limit 0 (failures + 1) octets t.arrivals := by
  cases h.found_of_take hroom (Inbound.take_of_read hread) with
  | interrupted hfault h => exact .inl ⟨hfault, h⟩
  | failed hfault hlimit h => exact .inr ⟨hfault, rfl, hlimit, h⟩

/-- A piece that fits into the room for some octets is a first part of them. -/
theorem of_read_front {piece front rest : Bytes}
    (h : Delivers limit quiet failures (front ++ rest) s.arrivals) (hroom : 0 < front.length)
    (hread : s.read front.length a = (.ok piece, t, b)) :
    ∃ front', front = piece ++ front' ∧ piece ≠ [] ∧
      Delivers limit (quiet - piece.length) 0 (front' ++ rest) t.arrivals := by
  rcases h.of_read hroom hread with ⟨-, hnil⟩ | ⟨hne, after, hsplit, hafter⟩
  · rw [(List.append_eq_nil_iff.mp hnil).1] at hroom
    exact absurd hroom (Nat.lt_irrefl 0)
  · have hle := Inbound.length_read_le hread
    have hprefix : piece <+: front ++ rest := ⟨after, hsplit.symm⟩
    obtain ⟨front', rfl⟩ :=
      List.prefix_of_prefix_length_le hprefix (List.prefix_append front rest) hle
    rw [List.append_assoc] at hsplit
    obtain rfl := List.append_cancel_left hsplit
    exact ⟨front', rfl, hne, hafter⟩

/-- A filling gets the octets that it has room for, where no fault stands in the way. -/
theorem fill {front rest : Bytes} (s : Inbound) (a : Ambient)
    (h : Delivers limit quiet failures (front ++ rest) s.arrivals)
    (hroom : room = front.length) (hquiet : room ≤ quiet) :
    ∃ t b, s.fill room a = (.ok front, t, b) ∧
      Delivers limit (quiet - room) 0 rest t.arrivals := by
  -- by the calls of the filling; `quiet` says how many octets come before a failure is possible
  fun_induction Inbound.fill s room a generalizing front quiet failures with
  | case1 s room a hpos t b hread =>
    subst hroom
    obtain ⟨_, _, hne, _⟩ := h.of_read_front hpos hread
    exact absurd rfl hne
  | case2 s room a hpos o octets t b hread more u c hmore ih =>
    -- the rest of the room is filled from what is left of the delivery
    subst hroom
    obtain ⟨front', hfront, -, hrest⟩ := h.of_read_front hpos hread
    have hlength : front.length = (o :: octets).length + front'.length := by
      rw [← List.length_append, ← hfront]
    obtain ⟨u', c', hfill, hafter⟩ := ih hrest (by omega) (by omega)
    rw [hmore] at hfill
    cases hfill
    refine ⟨u, c, by rw [hfront], ?_⟩
    rwa [Nat.sub_sub, Nat.add_sub_cancel' (by omega)] at hafter
  | case3 s room a hpos o octets t b hread f u c hmore ih =>
    subst hroom
    obtain ⟨front', hfront, -, hrest⟩ := h.of_read_front hpos hread
    have hlength : front.length = (o :: octets).length + front'.length := by
      rw [← List.length_append, ← hfront]
    obtain ⟨u', c', hfill, -⟩ := ih hrest (by omega) (by omega)
    rw [hmore] at hfill
    cases hfill
  | case4 s room a hpos f t b hread hf ih =>
    rcases h.of_read_error hpos hread with ⟨-, h⟩ | ⟨hfault, -⟩
    · exact ih h hroom hquiet
    · rw [hf] at hfault
      cases hfault
  | case5 s room a hpos f t b hread hf =>
    rcases h.of_read_error hpos hread with ⟨hfault, -⟩ | ⟨-, rfl, -⟩
    · exact absurd hfault hf
    · exact absurd hquiet (Nat.not_le.mpr hpos)
  | case6 s room a hpos =>
    obtain rfl : front = [] := List.length_eq_zero_iff.mp (by omega)
    refine ⟨s, a, rfl, ?_⟩
    rw [show quiet - room = quiet by omega]
    exact h.mono (Nat.zero_le _)

end Read

end Delivers

/-! ## Headers -/

namespace Header

open Delivers

variable {limit quiet failures : Nat}

/-- A field of the header is read off the front of a delivery that does not fail within it. -/
theorem readField_of_delivers (field : HeaderField) {n : Nat} {front rest : Bytes} (s : Inbound)
    (a : Ambient) (h : Delivers limit quiet failures (front ++ rest) s.arrivals)
    (hn : n = front.length) (hquiet : n ≤ quiet) :
    ∃ t b, readField field n s a = (.ok front, t, b) ∧
      Delivers limit (quiet - n) 0 rest t.arrivals := by
  obtain ⟨t, b, hfill, hrest⟩ := h.fill s a hn hquiet
  refine ⟨t, b, ?_, hrest⟩
  unfold readField
  rw [hfill]
  exact if_neg (Nat.not_lt.mpr (Nat.le_of_eq hn))

/-- **A header that is delivered is read.** What comes after it is delivered still. -/
theorem read_of_delivers {h : Header} {content : Bytes} (s : Inbound) (a : Ambient)
    (hallowed : lengthAllowed (bytes h.path).length = true)
    (hd : Delivers limit h.octets.length failures (h.octets ++ content) s.arrivals) :
    ∃ t b, read s a = (.ok h, t, b) ∧ Delivers limit 0 0 content t.arrivals := by
  have hlength := h.length_octets
  have hfields : h.octets ++ content = [h.command.octet] ++
      (lowFirst 8 (bytes h.path).length ++ (bytes h.path ++ content)) := by
    rw [octets_eq]
    simp
  rw [hfields, hlength] at hd
  -- the three fields, one after the other
  obtain ⟨t, b, hcommand, hd⟩ :=
    readField_of_delivers .command s a hd rfl (by simp; omega)
  obtain ⟨u, c, hnumber, hd⟩ := readField_of_delivers .pathLength t b hd
    (length_lowFirst ..).symm (by simp)
  obtain ⟨v, d, hpath, hd⟩ := readField_of_delivers .path u c hd rfl (by simp)
  refine ⟨v, d, ?_, ?_⟩
  · have htext : Utf8.decode? (bytes h.path) = some h.path := Utf8.decode?_eq_some_iff.mpr rfl
    have hread : readCommand s a = (.ok h.command, t, b) := by
      unfold readCommand
      rw [show (1 : Nat) = [h.command.octet].length from rfl, hcommand]
      simp [Command.ofOctet?_octet]
    have hread' : readPath t b = (.ok h.path, v, d) := by
      unfold readPath
      rw [hnumber]
      dsimp only
      rw [ofLowFirst_lowFirst hallowed, if_pos hallowed, hpath]
      dsimp only
      rw [htext]
    unfold read
    rw [hread]
    dsimp only
    rw [hread']
  · -- no octet of the header is left
    have hquiet : 1 + 8 + (bytes h.path).length - [h.command.octet].length - 8 -
        (bytes h.path).length = 0 := by simp
    rwa [hquiet] at hd

end Header

/-! ## Content -/

namespace Transfer

variable {settings : Settings} {failures room : Nat} {octets : Bytes}

/-- A chunk of a delivery gets through, and only the end of the delivery looks like an end. -/
theorem readChunk_of_delivers (s : Inbound) (a : Ambient) (hroom : 0 < room)
    (h : Delivers (max 1 settings.maxRetries.toNat) 0 failures octets s.arrivals) :
    ∃ piece t b, readChunk settings failures room s a = (.ok piece, t, b) ∧
      (piece = [] ∨ ∃ rest, octets = piece ++ rest ∧
        Delivers (max 1 settings.maxRetries.toNat) 0 0 rest t.arrivals) := by
  -- each failed call adds one to `failures`, on both sides
  fun_induction readChunk settings failures room s a with
  | case1 failures s a hpos piece t b hread =>
    refine ⟨piece, t, b, rfl, ?_⟩
    rcases h.of_read hpos hread with ⟨hnil, -⟩ | ⟨-, rest, hsplit, hrest⟩
    · exact .inl hnil
    · exact .inr ⟨rest, hsplit, by simpa using hrest⟩
  | case2 failures s a hpos f t b hread hf ih =>
    rcases h.of_read_error hpos hread with ⟨-, h⟩ | ⟨hfault, -⟩
    · exact ih h
    · rw [hf] at hfault
      cases hfault
  | case3 failures s a hpos f t b hread hf hretries =>
    -- a delivery does not fail as often as this
    rcases h.of_read_error hpos hread with ⟨hfault, -⟩ | ⟨-, -, hlimit, -⟩
    · exact absurd hfault hf
    · omega
  | case4 failures s a hpos f t b hread hf hretries ih =>
    rcases h.of_read_error hpos hread with ⟨hfault, -⟩ | ⟨-, -, -, h⟩
    · exact absurd hfault hf
    · exact ih h
  | case5 _ _ _ hpos => exact absurd hroom hpos

/-- So does the next one, unless it is too large to be held. -/
theorem nextChunk_of_delivers (s : Inbound) (a : Ambient)
    (hheld : (nextChunk settings s a).1 ≠ .error .panicked)
    (h : Delivers (max 1 settings.maxRetries.toNat) 0 0 octets s.arrivals) :
    ∃ piece t b, nextChunk settings s a = (.ok piece, t, b) ∧
      (piece = [] ∨ ∃ rest, octets = piece ++ rest ∧
        Delivers (max 1 settings.maxRetries.toNat) 0 0 rest t.arrivals) := by
  rcases Nat.lt_or_ge maxBuffer (chunkSize settings a) with hlt | hle
  · rw [nextChunk_of_lt hlt] at hheld
    exact absurd rfl hheld
  · rw [nextChunk_of_le hle]
    exact readChunk_of_delivers s a (chunkSize_pos settings a) h

/-- **Content that is delivered is received**, if it fits into a file and the receive does not
panic. -/
theorem receiveRest_of_delivers {staged : Staged} {mode : Nat} {content : Bytes} (pace : Pace)
    (s : Inbound) (a : Ambient) (fs : Files) (hholds : fs.Holds staged.handle mode content)
    (h : Delivers (max 1 settings.maxRetries.toNat) 0 0 octets s.arrivals)
    (hfits : ∀ limit, fs.sizeLimit = some limit → content.length + octets.length ≤ limit)
    (hheld : (receiveRest settings staged pace s a fs).1 ≠ .error .panicked) :
    ∃ p t b fs', receiveRest settings staged pace s a fs = (.ok p, t, b, fs') := by
  -- chunk by chunk: `octets` is what is to come and `content` what is written
  fun_induction receiveRest settings staged pace s a fs generalizing octets content with
  | case1 pace s a fs e t b hread =>
    have hnext : (nextChunk settings s a).1 ≠ .error .panicked := by
      rw [hread]
      exact fun he => hheld (congrArg _ (Except.error.inj he))
    obtain ⟨piece, t', b', hread', -⟩ := nextChunk_of_delivers s a hnext h
    rw [hread] at hread'
    cases hread'
  | case2 pace s a fs t b hread => exact ⟨pace, t, b, fs, rfl⟩
  | case3 pace s a fs o piece t b hread f fs₁ happend
  | case4 pace s a fs o piece t b hread fs₁ happend pace' clock hrecord ih =>
    have hnext : (nextChunk settings s a).1 ≠ .error .panicked := by
      rw [hread]
      intro he
      cases he
    obtain ⟨piece', t', b', hread', hrest⟩ := nextChunk_of_delivers s a hnext h
    rw [hread] at hread'
    cases hread'
    obtain ⟨rest, rfl, hlater⟩ := hrest.resolve_left (by simp)
    rw [List.length_append] at hfits
    -- there is room for the whole chunk
    have hwritten := append_of_fits (o :: piece) hholds fun limit hlimit => by
      have := hfits limit hlimit
      omega
    rw [happend] at hwritten
    cases hwritten
    all_goals
      refine ih (hholds.append _) hlater (fun limit hlimit => ?_) hheld
      have := hfits limit hlimit
      rw [List.length_append]
      omega

end Transfer

end Courier
