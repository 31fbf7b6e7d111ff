import Courier.Proofs.Send
import Courier.Proofs.Utf8
import Courier.Wire.Header

/-!
# Headers on the wire

A header goes out as one run of octets and is read field by field. No other header begins with the
same octets, so what is read is what was written, and what comes after it is the content.

Main results:

* `Header.calls_of_write` — what a stream has taken of a header.
* `Header.pending_of_read` — what reading a header takes off the front of a stream.
* `Header.eq_of_octets_append` — no header is the beginning of another one.
-/

namespace Courier

/-! ## Writing -/

namespace Outbound

/-- The calls made for some octets take a first part of them, and all of them if there is no
fault. -/
theorem calls_of_writeAll {s t : Outbound} {data : Bytes} {a b : Ambient} {r : Except Fault Unit}
    (h : s.writeAll data a = (r, t, b)) :
    ∃ calls rest, t.calls = calls ++ s.calls ∧ data = taken calls ++ rest ∧
      (r = .ok () → rest = []) := by
  -- by the recursion of the writing: each call takes a part and leaves the rest to the next one
  fun_induction writeAll s data a with
  | case1 s a =>
    cases h
    exact ⟨[], [], rfl, rfl, fun _ => rfl⟩
  | case2 s data a hne u c hwrite =>
    cases h
    obtain ⟨hcalls, hsplit⟩ := taken_of_write hwrite
    exact ⟨[_], _, hcalls, hsplit.symm, nofun⟩
  | case3 s data a hne n u c hwrite ih =>
    obtain ⟨calls, rest, hmore, hrest, hok⟩ := ih h
    obtain ⟨hcalls, hsplit⟩ := Transfer.calls_after_write hwrite hmore hrest
    exact ⟨_, rest, hcalls, hsplit, hok⟩
  | case4 s data a hne f u c hwrite hf ih =>
    obtain ⟨calls, rest, hmore, hrest, hok⟩ := ih h
    obtain ⟨hcalls, hsplit⟩ := Transfer.calls_after_write hwrite hmore hrest
    exact ⟨_, rest, hcalls, hsplit, hok⟩
  | case5 s data a hne f u c hwrite hf =>
    cases h
    obtain ⟨hcalls, hsplit⟩ := taken_of_write hwrite
    exact ⟨[_], _, hcalls, hsplit.symm, nofun⟩

end Outbound

/-! ## Reading -/

namespace Inbound

/-- A call brings no more than there is room for. -/
theorem length_take_le {room : Nat} {l l' : List Arrival} {a b : Ambient} {octets : Bytes}
    (h : take room l a = (.ok octets, l', b)) : octets.length ≤ room := by
  -- by the recursion of the call; a piece that is longer is cut
  fun_induction take room l a with
  | case1 => cases h; exact Nat.zero_le _
  | case2 _ _ _ ih => exact ih h
  | case3 => cases h
  | case4 => cases h; exact Nat.zero_le _
  | case5 _ _ _ _ ih => exact ih h
  | case6 => cases h; exact List.length_take_le ..

variable {s t : Inbound} {room : Nat} {a b : Ambient} {octets : Bytes}

/-- So does a read. -/
theorem length_read_le (h : s.read room a = (.ok octets, t, b)) : octets.length ≤ room :=
  length_take_le (take_of_read h)

/-- And a filling. -/
theorem length_fill_le (h : s.fill room a = (.ok octets, t, b)) : octets.length ≤ room := by
  -- by the recursion of the filling: the later calls have less room
  fun_induction fill s room a generalizing octets t b with
  | case1 => cases h; exact Nat.zero_le _
  | case2 s room a hroom o first u c hread more v d hmore ih =>
    cases h
    have hfirst := length_read_le hread
    have hrest := ih hmore
    rw [List.length_append]
    omega
  | case3 => cases h
  | case4 _ _ _ _ _ _ _ _ _ ih => exact ih h
  | case5 => cases h
  | case6 => cases h; exact Nat.zero_le _

/-- A filling that leaves no room has not met the end, whatever comes after it. -/
theorem pending_of_full (h : s.fill room a = (.ok octets, t, b)) (hfull : room ≤ octets.length) :
    s.pending = octets ++ t.pending := by
  -- by the same recursion, with what each call takes off the front
  fun_induction fill s room a generalizing octets t b with
  | case1 s room a hroom =>
    cases h
    exact absurd hfull (Nat.not_le.mpr hroom)
  | case2 s room a hroom o first u c hread more v d hmore ih =>
    cases h
    rw [List.length_append] at hfull
    rw [pending_of_read hread (by simp), ih hmore (by omega), List.append_assoc]
    rfl
  | case3 => cases h
  | case4 s room a hroom f u c hread hf ih =>
    rw [pending_of_read hread (by simp)]
    exact ih h hfull
  | case5 => cases h
  | case6 => cases h; rfl

end Inbound

namespace Header

/-! ## Numbers -/

/-- A number is written in as many octets as it is given. -/
theorem length_lowFirst (width n : Nat) : (lowFirst width n).length = width := by
  -- by induction on the octets; the number is divided on the way
  induction width generalizing n with
  | zero => rfl
  | succ width ih => rw [lowFirst, List.length_cons, ih]

/-- Octets are written again for the number that was read from them. -/
theorem lowFirst_ofLowFirst (bs : Bytes) : lowFirst bs.length (ofLowFirst bs) = bs := by
  -- by induction on the octets, the lowest first
  induction bs with
  | nil => rfl
  | cons b bs ih =>
    have hb := b.toNat_lt
    rw [List.length_cons, ofLowFirst, lowFirst, Nat.add_mul_mod_self_left,
      Nat.mod_eq_of_lt hb, Nat.add_mul_div_left _ _ (by omega), Nat.div_eq_of_lt hb, Nat.zero_add,
      ih, UInt8.ofNat_toNat]

/-- A path has at least one octet and no more than the bound. -/
theorem lengthAllowed_iff {n : Nat} : lengthAllowed n = true ↔ 0 < n ∧ n ≤ maxPathLength := by
  simp [lengthAllowed]

/-- A length that is allowed fits into eight octets, so it is read as it was written. -/
theorem ofLowFirst_lowFirst {n : Nat} (h : lengthAllowed n = true) :
    ofLowFirst (lowFirst 8 n) = n := by
  have hn := (lengthAllowed_iff.mp h).2
  unfold maxPathLength at hn
  -- such a number needs no more than two of the eight octets
  have hhigh : n / 256 / 256 = 0 := by omega
  simp only [lowFirst, ofLowFirst, UInt8.toNat_ofNat', hhigh]
  omega

/-! ## Both ends -/

variable {h h' : Header}

/-- A header is its command, the length of its path and the path. -/
theorem octets_eq (h : Header) :
    h.octets = h.command.octet :: (lowFirst 8 (bytes h.path).length ++ bytes h.path) :=
  rfl

/-- So it is nine octets longer than the path. -/
theorem length_octets (h : Header) : h.octets.length = 1 + 8 + (bytes h.path).length := by
  rw [octets_eq, List.length_cons, List.length_append, length_lowFirst]
  omega

/-- Texts with the same octets are the same. -/
theorem bytes_inj {s s' : String} (h : bytes s = bytes s') : s = s' :=
  Option.some.inj <|
    (Utf8.decode?_eq_some_iff.mpr h).symm.trans (Utf8.decode?_eq_some_iff.mpr rfl) |>.symm

/-- **No header is the beginning of another one.** -/
theorem eq_of_octets_append {x y : Bytes} (hlen : lengthAllowed (bytes h.path).length = true)
    (hlen' : lengthAllowed (bytes h'.path).length = true)
    (heq : h.octets ++ x = h'.octets ++ y) : h = h' ∧ x = y := by
  rw [octets_eq, octets_eq, List.cons_append, List.cons_append, List.append_assoc,
    List.append_assoc] at heq
  obtain ⟨hcommand, hrest⟩ := List.cons.inj heq
  -- the fields come one after the other, and the length says where the path ends
  obtain ⟨hlength, hpath⟩ := List.append_inj hrest (by rw [length_lowFirst, length_lowFirst])
  have hn : (bytes h.path).length = (bytes h'.path).length := by
    rw [← ofLowFirst_lowFirst hlen, hlength, ofLowFirst_lowFirst hlen']
  obtain ⟨hbytes, hxy⟩ := List.append_inj hpath hn
  have hcommand' : h.command = h'.command :=
    Option.some.inj <| by
      rw [← Command.ofOctet?_octet, hcommand, Command.ofOctet?_octet]
  refine ⟨?_, hxy⟩
  cases h
  cases h'
  rw [Header.mk.injEq]
  exact ⟨hcommand', bytes_inj hbytes⟩

/-- The calls made for a header take a first part of it, and all of it if there is no error. A
header that may not be sent is not begun. -/
theorem calls_of_write {s t : Outbound} {a b : Ambient} {r : Except TransferError Unit}
    (hw : h.write s a = (r, t, b)) :
    ∃ calls rest, t.calls = calls ++ s.calls ∧ h.octets = Outbound.taken calls ++ rest ∧
      (lengthAllowed (bytes h.path).length = false → calls = []) ∧
      (r = .ok () → rest = [] ∧ lengthAllowed (bytes h.path).length = true) := by
  unfold write at hw
  dsimp only at hw
  split at hw
  · rename_i hlen
    cases hall : s.writeAll h.octets a with
    | mk found rest =>
      obtain ⟨u, c⟩ := rest
      obtain ⟨calls, rest, hcalls, hsplit, hok⟩ := Outbound.calls_of_writeAll hall
      have hnever : lengthAllowed (bytes h.path).length = false → calls = [] := fun hnot => by
        rw [hlen] at hnot
        cases hnot
      rw [hall] at hw
      cases found with
      | error f =>
        cases hw
        refine ⟨calls, rest, hcalls, hsplit, hnever, fun hr => ?_⟩
        cases hr
      | ok =>
        -- a flush takes nothing
        dsimp only at hw
        split at hw
        · cases hw
          refine ⟨calls, rest, hcalls, hsplit, hnever, fun hr => ?_⟩
          cases hr
        · cases hw
          exact ⟨calls, rest, hcalls, hsplit, hnever, fun _ => ⟨hok rfl, hlen⟩⟩
  · cases hw
    refine ⟨[], h.octets, rfl, rfl, fun _ => rfl, fun hr => ?_⟩
    cases hr

section Read

variable {s t : Inbound} {a b : Ambient}

/-- A field takes as many octets as it has off the front. -/
theorem pending_of_readField {field : HeaderField} {n : Nat} {octets : Bytes}
    (hr : readField field n s a = (.ok octets, t, b)) :
    octets.length = n ∧ s.pending = octets ++ t.pending := by
  unfold readField at hr
  cases hfill : s.fill n a with
  | mk found rest =>
    obtain ⟨u, c⟩ := rest
    rw [hfill] at hr
    cases found with
    | error f =>
      dsimp only at hr
      split at hr <;> cases hr
    | ok found =>
      dsimp only at hr
      split at hr
      · cases hr
      · rename_i hfull
        cases hr
        have hle := Inbound.length_fill_le hfill
        exact ⟨by omega, Inbound.pending_of_full hfill (by omega)⟩

/-- A command takes one. -/
theorem pending_of_readCommand {c : Command} (hr : readCommand s a = (.ok c, t, b)) :
    s.pending = c.octet :: t.pending := by
  unfold readCommand at hr
  cases hfield : readField .command 1 s a with
  | mk found rest =>
    obtain ⟨u, d⟩ := rest
    rw [hfield] at hr
    cases found with
    | error e => cases hr
    -- a single octet, and only that of the command is read as it
    | ok octets =>
      obtain ⟨hlength, hpending⟩ := pending_of_readField hfield
      obtain ⟨o, rfl⟩ := List.length_eq_one_iff.mp hlength
      dsimp only [List.headD_cons] at hr
      split at hr
      · rename_i c' hc
        cases hr
        rw [hpending, Command.ofOctet?_eq_some hc]
        rfl
      · cases hr

/-- A path takes its length and itself, and its length is allowed. -/
theorem pending_of_readPath {path : String} (hr : readPath s a = (.ok path, t, b)) :
    s.pending = lowFirst 8 (bytes path).length ++ bytes path ++ t.pending ∧
      lengthAllowed (bytes path).length = true := by
  unfold readPath at hr
  cases hfield : readField .pathLength 8 s a with
  | mk found rest =>
    obtain ⟨u, c⟩ := rest
    rw [hfield] at hr
    cases found with
    | error e => cases hr
    | ok number =>
      obtain ⟨hwidth, hnumber⟩ := pending_of_readField hfield
      dsimp only at hr
      split at hr
      · rename_i hallowed
        cases hpath : readField .path (ofLowFirst number) u c with
        | mk found' rest' =>
          obtain ⟨v, d⟩ := rest'
          rw [hpath] at hr
          cases found' with
          | error e => cases hr
          | ok octets =>
            obtain ⟨hlength, hoctets⟩ := pending_of_readField hpath
            dsimp only at hr
            split at hr
            · rename_i text htext
              cases hr
              -- the octets of the path are the text, and their number is the one read before
              obtain rfl := Utf8.decode?_eq_some_iff.mp htext
              rw [hlength]
              refine ⟨?_, hallowed⟩
              rw [hnumber, hoctets, ← hwidth, lowFirst_ofLowFirst, List.append_assoc]
            · cases hr
      · cases hr

/-- Reading a header takes it off the front. -/
theorem pending_of_read (hr : read s a = (.ok h, t, b)) :
    s.pending = h.octets ++ t.pending ∧ lengthAllowed (bytes h.path).length = true := by
  unfold read at hr
  cases hcommand : readCommand s a with
  | mk found rest =>
    obtain ⟨u, c⟩ := rest
    rw [hcommand] at hr
    cases found with
    | error e => cases hr
    | ok command =>
      cases hpath : readPath u c with
      | mk found' rest' =>
        obtain ⟨v, d⟩ := rest'
        dsimp only at hr
        rw [hpath] at hr
        cases found' with
        | error e => cases hr
        | ok path =>
          cases hr
          obtain ⟨hrest, hallowed⟩ := pending_of_readPath hpath
          refine ⟨?_, hallowed⟩
          rw [pending_of_readCommand hcommand, hrest, octets_eq, List.cons_append]

end Read

end Header

end Courier
