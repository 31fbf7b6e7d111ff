import Courier.Proofs.Receive
import Courier.Proofs.Retries

/-!
# What a reader hears

Of all that arrives until a read finds the end, a reader hears the pieces and the failures, one
after the other; a piece may come in several calls. It gives up at the first failure that comes as
the last of so many in a row as are allowed, with no piece between them.

Main results:

* `Transfer.finds_of_take` — what one call finds of what is to be heard.
* `Transfer.harvest_of_readChunk` — a chunk takes a first part of the harvest, whatever its size.
* `Transfer.harvest_eq` — the harvest, in terms of runs of failures.
-/

namespace Courier.Transfer

/-- A piece that is not empty, or a failure. -/
abbrev Signal :=
  Except Fault Bytes

/-- What is heard until a read finds the end. Interruptions are not heard. -/
def heard : List Arrival → List Signal
  | [] => []
  | .pause :: _ => []
  | .aside _ :: rest => heard rest
  | .data octets :: rest => if octets.isEmpty then heard rest else .ok octets :: heard rest
  | .fault f :: rest => if f.isInterruption then heard rest else .error f :: heard rest

/-- What a reader gets out of a stream: all the octets that come until so many failures in a row,
and the last of these; after `failures` of them. -/
def harvest (limit failures : Nat) : List Signal → Bytes × Option Fault
  | [] => ([], none)
  | .ok octets :: rest => (octets ++ (harvest limit 0 rest).1, (harvest limit 0 rest).2)
  | .error f :: rest =>
    if limit ≤ failures + 1 then ([], some f) else harvest limit (failures + 1) rest

/-! ## Call by call -/

/-- What a call to read finds of what is to be heard, and what is to be heard after it. -/
inductive Finds : List Signal → Except Fault Bytes → List Signal → Prop where
  | ended {signals : List Signal} : Finds [] (.ok []) signals
  | piece {piece : Bytes} {signals : List Signal} (hne : piece ≠ []) :
      Finds (.ok piece :: signals) (.ok piece) signals
  | part {piece later : Bytes} {signals : List Signal} (hne : piece ≠ []) :
      Finds (.ok (piece ++ later) :: signals) (.ok piece) (.ok later :: signals)
  | interrupted {f : Fault} {signals : List Signal} (hf : f.isInterruption = true) :
      Finds signals (.error f) signals
  | failed {f : Fault} {signals : List Signal} (hf : f.isInterruption = false) :
      Finds (.error f :: signals) (.error f) signals

/-- A call finds the first signal of what arrives, or as much of it as there is room for. -/
theorem finds_of_take {room : Nat} {l l' : List Arrival} {a b : Ambient} {r : Except Fault Bytes}
    (hroom : 0 < room) (h : Inbound.take room l a = (r, l', b)) : Finds (heard l) r (heard l') := by
  -- asides and empty pieces are no signals, and a call steps over them
  fun_induction Inbound.take room l a with
  | case1 =>
    cases h
    exact .ended
  | case2 a r rest ih => exact ih h
  | case3 a f rest =>
    cases h
    rw [heard]
    split
    · rename_i hf
      exact .interrupted hf
    · rename_i hf
      exact .failed (by simpa using hf)
  | case4 a rest =>
    cases h
    exact .ended
  | case5 octets rest a hempty ih =>
    rw [heard, if_pos hempty]
    exact ih h
  | case6 octets rest a hempty later =>
    cases h
    rw [heard, if_neg hempty]
    have hfirst : octets.take room ≠ [] := by
      have : octets ≠ [] := by simpa using hempty
      simp [this, Nat.ne_of_gt hroom]
    have hsplit : octets = octets.take room ++ later := (List.take_append_drop ..).symm
    -- what there was no room for is heard next
    split
    · rename_i hlater
      rw [List.isEmpty_iff.mp hlater, List.append_nil] at hsplit
      rw [← hsplit] at hfirst ⊢
      exact .piece hfirst
    · rename_i hlater
      have hpart : Finds (.ok (octets.take room ++ later) :: heard rest)
          (.ok (octets.take room)) (.ok later :: heard rest) := .part hfirst
      rw [← hsplit] at hpart
      rw [heard, if_neg hlater]
      exact hpart

/-- The harvest of a piece does not depend on the calls that bring it. -/
theorem Finds.harvest_ok {limit failures : Nat} {signals signals' : List Signal} {piece : Bytes}
    (h : Finds signals (.ok piece) signals') :
    piece = [] ∧ harvest limit failures signals = ([], none) ∨
      piece ≠ [] ∧ harvest limit failures signals =
        (piece ++ (harvest limit 0 signals').1, (harvest limit 0 signals').2) := by
  cases h with
  | ended => exact .inl ⟨rfl, rfl⟩
  | piece hne => exact .inr ⟨hne, rfl⟩
  | part hne => exact .inr ⟨hne, by simp only [harvest, List.append_assoc]⟩

/-- A fault is passed over if it is an interruption, and counts as a failed call if it is not. -/
theorem Finds.harvest_error {limit failures : Nat} {signals signals' : List Signal} {f : Fault}
    (h : Finds signals (.error f) signals') :
    f.isInterruption = true ∧ signals' = signals ∨
      f.isInterruption = false ∧ harvest limit failures signals =
        if limit ≤ failures + 1 then ([], some f) else harvest limit (failures + 1) signals' := by
  cases h with
  | interrupted hf => exact .inl ⟨hf, rfl⟩
  | failed hf => exact .inr ⟨hf, rfl⟩

/-- **A chunk takes a first part of the harvest**, however large it is: octets, or nothing when
that is all, or the failure at which it ends. -/
theorem harvest_of_readChunk {settings : Settings} {failures room : Nat} {s t : Inbound}
    {a b : Ambient} {r : Except TransferError Bytes} (hroom : 0 < room)
    (hfew : failures < tries settings) (h : readChunk settings failures room s a = (r, t, b)) :
    (∃ piece, r = .ok piece ∧ piece ≠ [] ∧ harvest (tries settings) failures (heard s.arrivals) =
        (piece ++ (harvest (tries settings) 0 (heard t.arrivals)).1,
          (harvest (tries settings) 0 (heard t.arrivals)).2)) ∨
      r = .ok [] ∧ harvest (tries settings) failures (heard s.arrivals) = ([], none) ∨
      ∃ f, r = .error (.retriesExhausted .read (tries settings) f) ∧
        harvest (tries settings) failures (heard s.arrivals) = ([], some f) := by
  -- each call that is made again is one step of `harvest`
  fun_induction readChunk settings failures room s a with
  | case1 failures s a hpos piece u c hread =>
    cases h
    have hfinds := finds_of_take hroom (Inbound.take_of_read hread)
    rcases hfinds.harvest_ok with ⟨rfl, hharvest⟩ | ⟨hne, hharvest⟩
    · exact .inr (.inl ⟨rfl, hharvest⟩)
    · exact .inl ⟨piece, rfl, hne, hharvest⟩
  | case2 failures s a hpos f u c hread hf ih =>
    have hfinds := finds_of_take hroom (Inbound.take_of_read hread)
    rcases @Finds.harvest_error 0 0 _ _ _ hfinds with ⟨-, hsame⟩ | ⟨hnot, -⟩
    · rw [← hsame]
      exact ih hfew h
    · rw [hf] at hnot
      cases hnot
  | case3 failures s a hpos f u c hread hf hretries =>
    cases h
    have hfinds := finds_of_take hroom (Inbound.take_of_read hread)
    rcases hfinds.harvest_error with ⟨hinterrupted, -⟩ | ⟨-, hharvest⟩
    · exact absurd hinterrupted hf
    · have hlast : failures + 1 = tries settings := by
        unfold tries at hfew ⊢
        omega
      rw [hlast, if_pos (Nat.le_refl _)] at hharvest
      exact .inr (.inr ⟨f, by rw [hlast], hharvest⟩)
  | case4 failures s a hpos f u c hread hf hretries ih =>
    have hfinds := finds_of_take hroom (Inbound.take_of_read hread)
    rcases hfinds.harvest_error with ⟨hinterrupted, -⟩ | ⟨-, hharvest⟩
    · exact absurd hinterrupted hf
    · -- there may be more failures in this run
      have hmore : failures + 1 < tries settings := by
        unfold tries
        omega
      rw [if_neg (Nat.not_le.mpr hmore)] at hharvest
      rw [hharvest]
      exact ih hmore h
  | case5 _ _ _ hpos => exact absurd hroom hpos

/-! ## Runs of failures -/

/-- Failures in a row. -/
def outage (run : List Fault) : List Signal :=
  run.map .error

/-- There are never so many failures in a row. -/
def Bears (limit : Nat) (signals : List Signal) : Prop :=
  ∀ run : List Fault, run.length = limit → ¬ outage run <:+: signals

/-- The failure that makes up the first run of so many. -/
def GivesOut (limit : Nat) (signals : List Signal) (f : Fault) : Prop :=
  ∃ before run after, signals = before ++ outage (run ++ [f]) ++ after ∧
    run.length + 1 = limit ∧ Bears limit (before ++ outage run)

/-- All the octets that are heard. -/
def octetsOf (signals : List Signal) : Bytes :=
  signals.flatMap Inbound.gained

/-- The octets of the signals are those that are pending. -/
theorem octetsOf_heard (l : List Arrival) : octetsOf (heard l) = Inbound.pendingOf l := by
  -- only pieces have octets
  fun_induction heard l with
  | case1 => rfl
  | case2 => rfl
  | case3 r rest ih => exact ih
  | case4 octets rest hempty ih =>
    rw [Inbound.pendingOf_data, List.isEmpty_iff.mp hempty]
    exact ih
  | case5 octets rest hempty ih =>
    rw [Inbound.pendingOf_data, ← ih]
    rfl
  | case6 f rest hf ih => exact ih
  | case7 f rest hf ih => exact ih

/-- A run of failures lies on one side of a piece. -/
theorem outage_infix_split {run : List Fault} {before after : List Signal} {octets : Bytes}
    (h : outage run <:+: before ++ .ok octets :: after) :
    outage run <:+: before ∨ outage run <:+: after := by
  have hnot : .ok octets ∉ outage run := by simp [outage]
  obtain ⟨first, last, h⟩ := h
  rw [List.append_assoc, List.append_eq_append_iff] at h
  rcases h with ⟨front, rfl, h⟩ | ⟨back, rfl, h⟩
  · -- the run begins before the piece, and so it ends there
    rw [List.append_eq_append_iff] at h
    rcases h with ⟨rest, rfl, -⟩ | ⟨rest, hrun, h⟩
    · left
      exact (List.infix_append' ..)
    · cases rest with
      | nil =>
        left
        rw [hrun, List.append_nil]
        exact (List.suffix_append ..).isInfix
      | cons signal rest =>
        obtain ⟨rfl, -⟩ := List.cons.inj h
        rw [hrun] at hnot
        exact absurd (by simp) hnot
  · cases back with
    | nil =>
      cases hrun : outage run with
      | nil => exact .inl (List.nil_infix)
      | cons signal rest =>
        rw [hrun] at h hnot
        obtain ⟨rfl, -⟩ := List.cons.inj h
        exact absurd (List.mem_cons_self ..) hnot
    | cons signal back =>
      right
      obtain ⟨-, rfl⟩ := List.cons.inj h
      exact ⟨back, last, List.append_assoc ..⟩

/-- A run of faults that is shorter than the limit is borne. -/
theorem bears_of_short {limit : Nat} {run : List Fault} (h : run.length < limit) :
    Bears limit (outage run) := by
  intro run' hlength hwithin
  have := hwithin.length_le
  simp only [outage, List.length_map] at this
  omega

/-- A piece starts the counting afresh. -/
theorem bears_append_piece {limit : Nat} {before after : List Signal} {octets : Bytes} :
    Bears limit (before ++ .ok octets :: after) ↔ Bears limit before ∧ Bears limit after := by
  refine ⟨fun h => ⟨fun run hlength hwithin => ?_, fun run hlength hwithin => ?_⟩, ?_⟩
  · exact h run hlength (hwithin.trans (List.prefix_append ..).isInfix)
  · exact h run hlength
      (hwithin.trans ((List.suffix_cons ..).trans (List.suffix_append ..)).isInfix)
  · intro ⟨hbefore, hafter⟩ run hlength hwithin
    rcases outage_infix_split hwithin with h | h
    · exact hbefore run hlength h
    · exact hafter run hlength h

/-- The harvest after some failures in a row: there are never too many, or the last of the first too
many ends it. -/
theorem harvest_spec {limit : Nat} {past : List Fault} (hpast : past.length < limit)
    (signals : List Signal) :
    match (harvest limit past.length signals).2 with
    | none => Bears limit (outage past ++ signals) ∧
        (harvest limit past.length signals).1 = octetsOf signals
    | some f => GivesOut limit (outage past ++ signals) f := by
  -- `past` are the faults since the last piece: their number is what counts against the limit
  induction signals generalizing past with
  | nil =>
    rw [List.append_nil]
    exact ⟨bears_of_short hpast, rfl⟩
  | cons signal rest ih =>
    cases signal with
    | ok octets =>
      have hrest := @ih [] (by simpa using Nat.zero_lt_of_lt hpast)
      rw [List.length_nil, outage, List.map_nil, List.nil_append] at hrest
      rw [harvest]
      dsimp only
      cases hfault : (harvest limit 0 rest).2 with
      | none =>
        rw [hfault] at hrest
        refine ⟨bears_append_piece.mpr ⟨bears_of_short hpast, hrest.1⟩, ?_⟩
        rw [hrest.2]
        rfl
      | some f =>
        rw [hfault] at hrest
        -- the run that is too long comes after the piece
        obtain ⟨before, run, after, rfl, hlength, hbears⟩ := hrest
        refine ⟨outage past ++ .ok octets :: before, run, after, by simp, hlength, ?_⟩
        rw [List.append_assoc, List.cons_append]
        exact bears_append_piece.mpr ⟨bears_of_short hpast, hbears⟩
    | error f =>
      have hsplit : outage past ++ .error f :: rest = outage (past ++ [f]) ++ rest := by
        simp [outage]
      by_cases hlast : limit ≤ past.length + 1
      · rw [harvest, if_pos hlast]
        exact ⟨[], past, rest, by rw [hsplit, List.nil_append], by omega, bears_of_short hpast⟩
      · rw [harvest, if_neg hlast]
        have hrest := @ih (past ++ [f]) (by simpa using Nat.lt_of_not_le hlast)
        rw [List.length_append, List.length_singleton, ← hsplit] at hrest
        exact hrest

/-- A harvest does not both give out and bear all it meets. -/
theorem GivesOut.not_bears {limit : Nat} {signals : List Signal} {f : Fault}
    (h : GivesOut limit signals f) : ¬ Bears limit signals := by
  obtain ⟨before, run, after, rfl, hlength, -⟩ := h
  intro hbears
  exact hbears (run ++ [f]) (by simpa using hlength) (List.infix_append ..)

/-- **The harvest, in terms of runs of failures.** -/
theorem harvest_eq {limit : Nat} (hpos : 0 < limit) (signals : List Signal) :
    Bears limit signals ∧ harvest limit 0 signals = (octetsOf signals, none) ∨
      ∃ f, GivesOut limit signals f ∧ (harvest limit 0 signals).2 = some f := by
  have h := @harvest_spec limit [] hpos signals
  rw [List.length_nil, outage, List.map_nil, List.nil_append] at h
  cases hfault : (harvest limit 0 signals).2 with
  | none =>
    rw [hfault] at h
    exact .inl ⟨h.1, Prod.ext h.2 hfault⟩
  | some f =>
    rw [hfault] at h
    exact .inr ⟨f, h, rfl⟩

end Courier.Transfer
