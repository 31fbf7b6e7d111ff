import Courier.Proofs.Codec
import Courier.Proofs.Limits

/-!
# Octets cut into pieces

The same octets can come in cut into pieces in many ways, with interruptions anywhere. A reader
gets the same out of each of them: the header is the same or fails the same way, what follows it is
cut in its turn, and a receive of that takes as long as its octets take at the pace of the settings,
since the pauses after its chunks add up.

Main results:

* `Cuts` — how octets come in when nothing else happens.
* `Header.read_of_cuts` — a header that is cut is read like one that is not.
* `Transfer.receiveRest_of_cuts` — what comes of a receive whose chunks can be held, and when it is
  over.
-/

namespace Courier

open Files

/-- `octets` come in, cut into pieces and with interruptions anywhere, and then the stream is at its
end. -/
inductive Cuts : Bytes → List Arrival → Prop where
  | ended : Cuts [] []
  | piece {piece octets : Bytes} {rest : List Arrival} (hne : piece ≠ []) (h : Cuts octets rest) :
      Cuts (piece ++ octets) (.data piece :: rest)
  | interrupted {octets : Bytes} {rest : List Arrival} {f : Fault}
      (hf : f.isInterruption = true) (h : Cuts octets rest) : Cuts octets (.fault f :: rest)

/-! ## One call -/

namespace Cuts

variable {octets : Bytes} {l l' : List Arrival} {room : Nat} {a b : Ambient}
  {r : Except Fault Bytes}

/-- However octets are cut, they are what a stream brings that is not interrupted. -/
theorem clearOf_eq (h : Cuts octets l) : Inbound.clearOf l = octets := by
  -- by induction on the cuts
  induction h with
  | ended => rfl
  | piece _ _ ih => rw [Inbound.clearOf_data, ih]
  | interrupted hf _ ih => rw [Inbound.clearOf, if_pos hf, ih]

/-- And nothing stops it. -/
theorem stopOf_eq (h : Cuts octets l) : Inbound.stopOf l = none := by
  -- a stream that is only cut has no fault and no pause in it
  induction h with
  | ended => rfl
  | piece _ _ ih => exact ih
  | interrupted hf _ ih => rw [Inbound.stopOf, if_pos hf, ih]

/-- What a call to read finds: the end, the first octets, or an interruption. -/
inductive Found : Bytes → Except Fault Bytes → List Arrival → Prop where
  | ended {l : List Arrival} (h : Cuts [] l) : Found [] (.ok []) l
  | piece {piece octets : Bytes} {l : List Arrival} (hne : piece ≠ []) (h : Cuts octets l) :
      Found (piece ++ octets) (.ok piece) l
  | interrupted {octets : Bytes} {l : List Arrival} {f : Fault} (hf : f.isInterruption = true)
      (h : Cuts octets l) : Found octets (.error f) l

/-- Nothing happens meanwhile. -/
theorem found_of_take (h : Cuts octets l) (hroom : 0 < room)
    (htake : Inbound.take room l a = (r, l', b)) : b = a ∧ Found octets r l' := by
  cases h with
  | ended =>
    cases htake
    exact ⟨rfl, .ended .ended⟩
  | @piece piece octets rest hne h =>
    rw [Inbound.take, if_neg (by simpa using hne)] at htake
    cases htake
    have hfirst : piece.take room ≠ [] := by simp [hne, Nat.ne_of_gt hroom]
    have hsplit : piece ++ octets = piece.take room ++ (piece.drop room ++ octets) := by
      rw [← List.append_assoc, List.take_append_drop]
    refine ⟨rfl, ?_⟩
    rw [hsplit]
    refine .piece hfirst ?_
    -- what there was no room for is a piece of its own
    split
    · rename_i hlater
      rw [List.isEmpty_iff.mp hlater]
      exact h
    · rename_i hlater
      exact .piece (by simpa using hlater) h
  | interrupted hf h =>
    cases htake
    exact ⟨rfl, .interrupted hf h⟩

end Cuts

/-! ## Headers -/

section Header

variable {octets : Bytes} {s t : Inbound} {room : Nat} {a b : Ambient}

/-- A filling from cut octets takes no time, and leaves octets that are cut. -/
theorem Inbound.fill_of_cuts {r : Except Fault Bytes} (h : Cuts octets s.arrivals)
    (hfill : s.fill room a = (r, t, b)) : b = a ∧ ∃ rest, Cuts rest t.arrivals := by
  -- by the recursion of the filling, for whatever octets are left
  fun_induction Inbound.fill s room a generalizing octets r t b with
  | case1 s room a hroom u c hread =>
    cases hfill
    obtain ⟨hambient, hfound⟩ := h.found_of_take hroom (Inbound.take_of_read hread)
    cases hfound with
    | ended h => exact ⟨hambient, [], h⟩
    | piece hne => exact absurd rfl hne
  | case2 s room a hroom o first u c hread more v d hmore ih =>
    cases hfill
    obtain ⟨rfl, hfound⟩ := h.found_of_take hroom (Inbound.take_of_read hread)
    cases hfound with
    | piece _ h => exact ih h hmore
  | case3 s room a hroom o first u c hread f v d hmore ih =>
    cases hfill
    obtain ⟨rfl, hfound⟩ := h.found_of_take hroom (Inbound.take_of_read hread)
    cases hfound with
    | piece _ h => exact ih h hmore
  | case4 s room a hroom f u c hread hf ih =>
    obtain ⟨rfl, hfound⟩ := h.found_of_take hroom (Inbound.take_of_read hread)
    cases hfound with
    | interrupted _ h => exact ih h hfill
  | case5 s room a hroom f u c hread hf =>
    obtain ⟨-, hfound⟩ := h.found_of_take hroom (Inbound.take_of_read hread)
    cases hfound with
    | interrupted hinterrupted => exact absurd hinterrupted hf
  | case6 =>
    cases hfill
    exact ⟨rfl, octets, h⟩

/-- A step of reading a header lets nothing happen, and leaves octets that are cut. -/
def Steady (a : Ambient) (x : Inbound × Ambient) : Prop :=
  x.2 = a ∧ ∃ rest, Cuts rest x.1.arrivals

/-- Reading a field of cut octets takes no time. -/
theorem Header.readField_of_cuts (h : Cuts octets s.arrivals) (field : HeaderField) (n : Nat)
    (a : Ambient) : Steady a (readField field n s a).2 := by
  obtain ⟨r, t, b, hfill⟩ : ∃ r t b, s.fill n a = (r, t, b) := ⟨_, _, _, rfl⟩
  have hsteady : Steady a (t, b) := Inbound.fill_of_cuts h hfill
  rw [readField, hfill]
  cases r with
  | ok octets =>
    dsimp only
    split <;> exact hsteady
  | error f =>
    dsimp only
    split <;> exact hsteady

/-- Nor does reading a command. -/
theorem Header.readCommand_of_cuts (h : Cuts octets s.arrivals) (a : Ambient) :
    Steady a (readCommand s a).2 := by
  have hfield := readField_of_cuts h .command 1 a
  unfold readCommand
  split
  · rename_i hread
    rwa [hread] at hfield
  · rename_i hread
    rw [hread] at hfield
    dsimp only
    split <;> exact hfield

/-- Nor a path. -/
theorem Header.readPath_of_cuts (h : Cuts octets s.arrivals) (a : Ambient) :
    Steady a (readPath s a).2 := by
  have hnumber := readField_of_cuts h .pathLength 8 a
  unfold readPath
  split
  · rename_i hread
    rwa [hread] at hnumber
  · rename_i number t b hread
    rw [hread] at hnumber
    obtain ⟨rfl, rest, hrest⟩ := hnumber
    dsimp only
    split
    · have hpath := readField_of_cuts hrest .path (ofLowFirst number) b
      split
      · rename_i hread
        rwa [hread] at hpath
      · rename_i hread
        rw [hread] at hpath
        split <;> exact hpath
    · exact ⟨rfl, rest, hrest⟩

/-- Reading a header of cut octets takes no time, wherever they are cut. -/
theorem Header.steady_read (h : Cuts octets s.arrivals) (a : Ambient) :
    Steady a (read s a).2 := by
  have hcommand := readCommand_of_cuts h a
  unfold read
  split
  · rename_i hread
    rwa [hread] at hcommand
  · rename_i command t b hread
    rw [hread] at hcommand
    obtain ⟨rfl, rest, hrest⟩ := hcommand
    have hpath := readPath_of_cuts hrest b
    split
    · rename_i hread
      rwa [hread] at hpath
    · rename_i hread
      rwa [hread] at hpath

/-- **A header that is cut is read like one that is not**, and what comes after it is cut, too. -/
theorem Header.read_of_cuts {v : Verdict} (h : Cuts octets s.arrivals) (hv : Judged octets v)
    (a : Ambient) :
    ∃ t, read s a = (v.result none, t, a) ∧ ∀ header, v = .header header →
      ∃ rest, octets = header.octets ++ rest ∧ Cuts rest t.arrivals := by
  have hclear : s.clear = octets := h.clearOf_eq
  have hstop : s.stop = none := h.stopOf_eq
  have hresult := read_of_judged (s := s) (hclear ▸ hv) a
  -- after the octets comes the end, and never a fault
  rw [hstop] at hresult
  obtain ⟨hambient, rest, hrest⟩ := steady_read h a
  refine ⟨(read s a).2.1, Prod.ext hresult (Prod.ext rfl hambient), ?_⟩
  rintro header rfl
  obtain ⟨-, hsplit, -⟩ := (read_exact s a).consumed header hresult
  refine ⟨rest, ?_, hrest⟩
  rw [← hclear, hsplit, Inbound.clear, hrest.clearOf_eq]

end Header

/-! ## Content -/

/-- A pause moves the wall clock on by its length. -/
theorem Clock.wall_pause (c : Clock) (nanos : Nat) : (c.pause nanos).wall = c.wall + nanos := by
  unfold Clock.pause
  split
  · rename_i h
    rw [h]
    exact (Int.add_zero _).symm
  · rfl

namespace Pace

/-- The pace after so many more octets. -/
def on (p : Pace) (n : Nat) : Pace :=
  { p with moved := p.moved + n }

/-- Octets that come one after the other count as those that come at once. -/
theorem on_on (p : Pace) (m n : Nat) : (p.on m).on n = p.on (m + n) := by
  rw [on, on, on, Nat.add_assoc]

/-- More octets take no less time. -/
theorem expected_le_on (p : Pace) (n : Nat) : p.expected ≤ (p.on n).expected :=
  Nat.mul_le_mul_right _ (Nat.div_le_div_right (Nat.le_add_right ..))

/-- A transfer that is as far as it should be, on a clock. -/
def InTime (p : Pace) (c : Clock) : Prop :=
  c.steady = p.start + p.expected

/-- At the beginning nothing is expected yet. -/
theorem inTime_begin (rate : Nat) (c : Clock) : (begin rate c).InTime c := by
  simp [InTime, begin, expected]

/-- A transfer that is in time pauses until it is in time again. -/
theorem InTime.record {p p' : Pace} {c c' : Clock} {n : Nat} (h : p.InTime c)
    (hrecord : p.record n c = (p', c')) :
    p' = p.on n ∧ p'.InTime c' ∧ c'.wall + c.steady = c.wall + c'.steady := by
  unfold Pace.record at hrecord
  cases hrecord
  have hle := p.expected_le_on n
  have hdue : c.steady + (p.on n).due c = (p.on n).start + (p.on n).expected := by
    show c.steady + ((p.on n).expected - (c.steady - p.start)) = p.start + (p.on n).expected
    rw [h]
    omega
  refine ⟨rfl, ?_, ?_⟩
  · rw [InTime, Clock.pause_steady]
    exact hdue
  · rw [Clock.wall_pause, Clock.pause_steady]
    push_cast
    omega

end Pace

namespace Files

/-- So many octets are no more than any file may hold. -/
def Fits (fs : Files) (n : Nat) : Prop :=
  ∀ limit, fs.sizeLimit = some limit → n ≤ limit

/-- Where more fits, less does. -/
theorem Fits.mono {fs : Files} {m n : Nat} (h : fs.Fits n) (hle : m ≤ n) : fs.Fits m :=
  fun limit hlimit => Nat.le_trans hle (h limit hlimit)

/-- What is added to a file fits, or it is refused. -/
theorem append_fits {fs : Files} {handle : FileHandle} {mode : Nat} {content : Bytes}
    (hholds : fs.Holds handle mode content) (hwithin : fs.Fits content.length) (octets : Bytes) :
    fs.Fits (content.length + octets.length) ∧
        fs.append handle octets = (.ok (), fs.commit (.append handle.location octets)) ∨
      ¬ fs.Fits (content.length + octets.length) ∧
        (fs.append handle octets).1 = .error .tooLarge := by
  by_cases hfits : fs.Fits (content.length + octets.length)
  · exact .inl ⟨hfits, append_of_fits octets hholds hfits⟩
  · refine .inr ⟨hfits, ?_⟩
    unfold Fits at hfits
    push Not at hfits
    obtain ⟨limit, hlimit, hlarge⟩ := hfits
    have hroom := hwithin limit hlimit
    have hsize : fs.sizeOf? handle = some content.length := by
      unfold sizeOf?
      rw [hholds]
      simp
    unfold Files.append
    rw [hsize, hlimit]
    dsimp only
    rw [if_neg (by omega)]

end Files

namespace Transfer

variable {settings : Settings} {octets : Bytes} {s t : Inbound} {a b : Ambient}

/-- A chunk of cut octets is read in one try and brings some of them, unless there are none. -/
theorem readChunk_of_cuts {failures room : Nat} {r : Except TransferError Bytes}
    (h : Cuts octets s.arrivals) (hroom : 0 < room)
    (hread : readChunk settings failures room s a = (r, t, b)) :
    b = a ∧ ∃ piece rest, r = .ok piece ∧ octets = piece ++ rest ∧ Cuts rest t.arrivals ∧
      (piece = [] → octets = []) := by
  -- the first try does it, as no fault comes with cut octets
  fun_induction readChunk settings failures room s a with
  | case1 failures s a hpos piece u c hcall =>
    cases hread
    obtain ⟨hambient, hfound⟩ := h.found_of_take hpos (Inbound.take_of_read hcall)
    refine ⟨hambient, ?_⟩
    cases hfound with
    | ended h => exact ⟨[], [], rfl, rfl, h, fun _ => rfl⟩
    | piece hne h => exact ⟨_, _, rfl, rfl, h, fun hnil => absurd hnil hne⟩
  | case2 failures s a hpos f u c hcall hf ih =>
    obtain ⟨rfl, hfound⟩ := h.found_of_take hpos (Inbound.take_of_read hcall)
    cases hfound with
    | interrupted _ h => exact ih h hread
  | case3 failures s a hpos f u c hcall hf
  | case4 failures s a hpos f u c hcall hf =>
    -- there are no other faults
    obtain ⟨-, hfound⟩ := h.found_of_take hpos (Inbound.take_of_read hcall)
    cases hfound with
    | interrupted hinterrupted => exact absurd hinterrupted hf
  | case5 _ _ _ hpos => exact absurd hroom hpos

/-- The next chunk of octets that are cut is one call, if it can be held. -/
theorem nextChunk_of_cuts {r : Except TransferError Bytes} (h : Cuts octets s.arrivals)
    (hheld : chunkSize settings a ≤ maxBuffer) (hnext : nextChunk settings s a = (r, t, b)) :
    b = a ∧ ∃ piece rest, r = .ok piece ∧ octets = piece ++ rest ∧ Cuts rest t.arrivals ∧
      (piece = [] → octets = []) := by
  rw [nextChunk_of_le hheld] at hnext
  exact readChunk_of_cuts h (chunkSize_pos settings a) hnext

/-- **What comes of a receive depends on the octets only**, where a chunk can be held. If they fit
into a file they are all received, and the clock shows what it has to show after so many; otherwise
the file is too large at some point, and it depends on the pieces how late that is noticed. -/
theorem receiveRest_of_cuts {staged : Staged} {pace : Pace} {fs fs' : Files} {mode : Nat}
    {content : Bytes} {r : Except TransferError Pace} (hcuts : Cuts octets s.arrivals)
    (hholds : fs.Holds staged.handle mode content) (hwithin : fs.Fits content.length)
    (htime : pace.InTime a.clock) (hheld : chunkSize settings a ≤ maxBuffer)
    (h : receiveRest settings staged pace s a fs = (r, t, b, fs')) :
    b.own = a.own ∧ b.others = a.others ∧
      (fs.Fits (content.length + octets.length) → r = .ok (pace.on octets.length) ∧
        (pace.on octets.length).InTime b.clock ∧
        b.clock.wall + a.clock.steady = a.clock.wall + b.clock.steady) ∧
      (¬ fs.Fits (content.length + octets.length) →
        r = .error (.filesystem .writeStaged staged.path .tooLarge)) := by
  -- the induction is on the chunks; `content` is what the staged file holds before the next one
  fun_induction receiveRest settings staged pace s a fs generalizing octets content with
  | case1 pace s a fs e u c hread =>
    obtain ⟨-, piece, rest, hpiece, -⟩ := nextChunk_of_cuts hcuts hheld hread
    cases hpiece
  | case2 pace s a fs u c hread =>
    cases h
    obtain ⟨rfl, piece, rest, hpiece, -, -, hnil⟩ := nextChunk_of_cuts hcuts hheld hread
    cases hpiece
    rw [hnil rfl]
    exact ⟨rfl, rfl, fun _ => ⟨rfl, htime, rfl⟩, fun hnot => absurd hwithin hnot⟩
  | case3 pace s a fs o piece u c hread f fs₁ happend =>
    cases h
    obtain ⟨rfl, chunk, rest, hchunk, rfl, -⟩ := nextChunk_of_cuts hcuts hheld hread
    cases hchunk
    refine ⟨rfl, rfl, fun hfits => ?_, fun _ => ?_⟩
    · -- what fits as a whole fits chunk by chunk
      rw [List.length_append] at hfits
      have hwritten := append_of_fits (o :: piece) hholds (hfits.mono (by omega))
      rw [happend] at hwritten
      cases hwritten
    · rcases append_fits hholds hwithin (o :: piece) with ⟨-, hwritten⟩ | ⟨-, hlarge⟩
      · rw [happend] at hwritten
        cases hwritten
      · rw [happend] at hlarge
        cases hlarge
        rfl
  | case4 pace s a fs o piece u c hread fs₁ happend pace' clock hrecord ih =>
    obtain ⟨rfl, chunk, rest, hchunk, rfl, hrest, -⟩ := nextChunk_of_cuts hcuts hheld hread
    cases hchunk
    obtain ⟨rfl, htime', hwall⟩ := htime.record hrecord
    rcases append_fits hholds hwithin (o :: piece) with ⟨hfits, hwritten⟩ | ⟨-, hlarge⟩
    · rw [happend] at hwritten
      cases hwritten
      -- the chunk and what follows it are as long as what there was before
      have hlength : (content ++ o :: piece).length = content.length + (o :: piece).length :=
        List.length_append
      obtain ⟨hown, hothers, hok, herror⟩ :=
        ih hrest (hholds.append _) (hlength ▸ hfits) htime' hheld h
      have htotal : (content ++ o :: piece).length + rest.length =
          content.length + (o :: piece ++ rest).length := by
        rw [hlength, List.length_append, Nat.add_assoc]
      have hmoved : (o :: piece).length + rest.length = (o :: piece ++ rest).length :=
        List.length_append.symm
      rw [htotal, Pace.on_on, hmoved] at hok
      rw [htotal] at herror
      refine ⟨hown, hothers, fun hfits => ?_, herror⟩
      obtain ⟨hr, htime'', hwall'⟩ := hok hfits
      refine ⟨hr, htime'', ?_⟩
      dsimp only at hwall'
      omega
    · rw [happend] at hlarge
      cases hlarge

end Transfer

end Courier
