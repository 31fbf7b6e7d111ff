import Courier.Fault.Basic
import Courier.Text.Utf8
import Courier.Stream.Ambient

/-!
# Outgoing streams

How a stream takes what is written to it, call by call, and the calls made. Once the list of
uptakes is used up, every call takes all that it is offered.

* `Outbound.write`: one call; `Outbound.writeAll`: calls until all is taken;
* `Outbound.wire`: what the stream has taken, read off the calls;
* `write_decreases`: every call that can be followed by another one brings the end nearer.
-/

namespace Courier

inductive Uptake where
  /-- At most so many octets. -/
  | take (n : Nat)
  | fault (fault : Fault)
  | aside (ripple : Ripple)
deriving Repr, DecidableEq, Inhabited

/-- A call to write: the octets offered, and how many were taken. -/
structure WriteCall where
  offered : Bytes
  outcome : Except Fault Nat
deriving Repr

def WriteCall.accepted (c : WriteCall) : Bytes :=
  match c.outcome with
  | .ok n => c.offered.take n
  | .error _ => []

structure Outbound where
  uptakes : List Uptake
  /-- What every flush fails with, if it fails. -/
  flushFault : Option Fault
  /-- The calls made so far, latest in front. -/
  calls : List WriteCall
deriving Repr, Inhabited

namespace Outbound

/-- A stream that takes everything. -/
def willing : Outbound :=
  ⟨[], none, []⟩

/-- All that the stream has taken so far. -/
def wire (s : Outbound) : Bytes :=
  s.calls.reverse.flatMap WriteCall.accepted

/-- How much of `offered` octets one call takes, and what it leaves. -/
def accept (offered : Nat) : List Uptake → Ambient → Except Fault Nat × List Uptake × Ambient
  | [], a => (.ok offered, [], a)
  | .aside r :: rest, a => accept offered rest (a.feel r)
  | .fault f :: rest, a => (.error f, rest, a)
  | .take n :: rest, a => (.ok (min n offered), rest, a)

def write (s : Outbound) (data : Bytes) (a : Ambient) : Except Fault Nat × Outbound × Ambient :=
  let (outcome, uptakes, a) := accept data.length s.uptakes a
  (outcome, { s with uptakes, calls := ⟨data, outcome⟩ :: s.calls }, a)

def flush (s : Outbound) : Except Fault Unit :=
  match s.flushFault with
  | some f => .error f
  | none => .ok ()

/-- What is left to do, in calls at most. -/
def work (s : Outbound) (data : Bytes) : Nat :=
  s.uptakes.length + data.length

/-- A call uses up what the stream had in store for it, or takes all that it was offered. -/
theorem accept_decreases (offered : Nat) (l : List Uptake) (a : Ambient) :
    (accept offered l a).2.1.length < l.length ∨
      ((accept offered l a).1 = .ok offered ∧ (accept offered l a).2.1.length ≤ l.length) := by
  fun_induction accept offered l a with
  | case1 => exact .inr ⟨rfl, Nat.le_refl _⟩
  | case2 _ r rest ih =>
    rcases ih with h | h
    · exact .inl (Nat.lt_succ_of_lt h)
    · exact .inl (Nat.lt_succ_of_le h.2)
  | case3 => exact .inl (Nat.lt_succ_self _)
  | case4 => exact .inl (Nat.lt_succ_self _)

/-- The octets not taken by a call. -/
def remaining (data : Bytes) : Except Fault Nat → Bytes
  | .ok n => data.drop n
  | .error _ => data

/-- After a call there is less to do: this is why `writeAll` ends. -/
theorem write_decreases {s t : Outbound} {data : Bytes} {a b : Ambient} {r : Except Fault Nat}
    (hdata : data ≠ []) (h : s.write data a = (r, t, b)) :
    t.work (remaining data r) < s.work data := by
  have hlen := List.length_pos_iff.mpr hdata
  unfold write at h
  cases h
  have hrem : ∀ r : Except Fault Nat, (remaining data r).length ≤ data.length := by
    intro r
    cases r with
    | ok n => simp [remaining]
    | error f => exact Nat.le_refl _
  unfold work
  dsimp only
  rcases accept_decreases data.length s.uptakes a with h | ⟨h, hle⟩
  · exact Nat.add_lt_add_of_lt_of_le h (hrem _)
  · refine Nat.add_lt_add_of_le_of_lt hle ?_
    rw [h]
    simp only [remaining, List.drop_length, List.length_nil]
    exact hlen

/-- Writes until all is taken. Interrupted calls are made again; a call that takes nothing is
a fault. -/
def writeAll (s : Outbound) (data : Bytes) (a : Ambient) : Except Fault Unit × Outbound × Ambient :=
  if _hdata : data = [] then (.ok (), s, a)
  else
    match _h : s.write data a with
    | (.ok 0, s, a) => (.error .shortWrite, s, a)
    | (.ok (n + 1), s, a) => s.writeAll (data.drop (n + 1)) a
    | (.error f, s, a) => if f.isInterruption then s.writeAll data a else (.error f, s, a)
termination_by s.work data
decreasing_by
  · exact write_decreases _hdata _h
  · exact write_decreases _hdata _h

end Outbound

end Courier
