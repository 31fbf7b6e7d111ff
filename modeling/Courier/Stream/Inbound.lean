import Courier.Fault.Basic
import Courier.Text.Utf8
import Courier.Stream.Ambient

/-!
# Incoming streams

What arrives on a stream, in the order in which it arrives, and the calls made to read it. A
read gives what is left of one piece, as far as there is room for it; it never joins two
pieces. When nothing more arrives, every read finds the end.

* `Inbound.read`: one call;
* `Inbound.fill`: calls until the room is full;
* `Inbound.weight`: goes down with every call that does not find the end.
-/

namespace Courier

inductive Arrival where
  | data (octets : Bytes)
  | fault (fault : Fault)
  /-- One read finds the end, although more may follow. -/
  | pause
  | aside (ripple : Ripple)
deriving Repr, DecidableEq, Inhabited

/-- A call to read: the room offered, and how many octets came. -/
structure ReadCall where
  room : Nat
  outcome : Except Fault Nat
deriving Repr

structure Inbound where
  arrivals : List Arrival
  /-- The calls made so far, latest in front. -/
  calls : List ReadCall
deriving Repr, Inhabited

namespace Inbound

def of (arrivals : List Arrival) : Inbound :=
  ⟨arrivals, []⟩

def ofBytes (octets : Bytes) : Inbound :=
  of [.data octets]

def Arrival.weight : Arrival → Nat
  | .data octets => octets.length + 1
  | _ => 1

def weigh : List Arrival → Nat
  | [] => 0
  | a :: rest => Arrival.weight a + weigh rest

def weight (s : Inbound) : Nat :=
  weigh s.arrivals

/-- What one call finds, and what it leaves. -/
def take (room : Nat) : List Arrival → Ambient → Except Fault Bytes × List Arrival × Ambient
  | [], a => (.ok [], [], a)
  | .aside r :: rest, a => take room rest (a.feel r)
  | .fault f :: rest, a => (.error f, rest, a)
  | .pause :: rest, a => (.ok [], rest, a)
  | .data octets :: rest, a =>
    if octets.isEmpty then take room rest a
    else
      let later := octets.drop room
      (.ok (octets.take room), if later.isEmpty then rest else .data later :: rest, a)

def read (s : Inbound) (room : Nat) (a : Ambient) : Except Fault Bytes × Inbound × Ambient :=
  let (found, arrivals, a) := take room s.arrivals a
  (found, ⟨arrivals, ⟨room, found.map List.length⟩ :: s.calls⟩, a)

/-- A call adds nothing to what is to arrive. -/
theorem weigh_take_le (room : Nat) (l : List Arrival) (a : Ambient) :
    weigh (take room l a).2.1 ≤ weigh l := by
  fun_induction take room l a with
  | case1 => exact Nat.le_refl _
  | case2 _ r rest ih => exact Nat.le_trans ih (by simp [weigh])
  | case3 => simp [weigh]
  | case4 => simp [weigh]
  | case5 octets rest _ h ih => exact Nat.le_trans ih (by simp [weigh])
  | case6 octets rest _ h later =>
    have : later.length ≤ octets.length := by simp [later]
    dsimp only
    split <;> simp [weigh, Arrival.weight]
    exact this

/-- With room, only a call that finds the end may leave all as it was. -/
theorem weigh_take_lt {room : Nat} (hroom : 0 < room) {l : List Arrival} {a : Ambient}
    (h : (take room l a).1 ≠ .ok []) : weigh (take room l a).2.1 < weigh l := by
  fun_induction take room l a with
  | case1 => exact absurd rfl h
  | case2 _ r rest ih => exact Nat.lt_of_lt_of_le (ih h) (by simp [weigh])
  | case3 => simp [weigh, Arrival.weight]
  | case4 => exact absurd rfl h
  | case5 octets rest _ he ih => exact Nat.lt_of_lt_of_le (ih h) (by simp [weigh])
  -- what there was no room for is put back, and it is shorter than the piece was
  | case6 octets rest _ he later =>
    have : 0 < octets.length := by
      cases octets with
      | nil => simp at he
      | cons => simp
    have : later.length < octets.length := by simp [later]; omega
    dsimp only
    split <;> simp [weigh, Arrival.weight]
    exact this

/-- A call that does not find the end takes something: this is why readers end. -/
theorem weight_read_lt {s t : Inbound} {room : Nat} {a b : Ambient} {r : Except Fault Bytes}
    (hroom : 0 < room) (h : s.read room a = (r, t, b)) (hr : r ≠ .ok []) :
    t.weight < s.weight := by
  unfold read at h
  cases h
  exact weigh_take_lt hroom hr

/-- Reads until the room is full or the end is found. Interrupted calls are made again; any
other fault ends the filling, and what was read before it is lost. -/
def fill (s : Inbound) (room : Nat) (a : Ambient) : Except Fault Bytes × Inbound × Ambient :=
  if _hroom : 0 < room then
    match _h : s.read room a with
    | (.ok [], s, a) => (.ok [], s, a)
    | (.ok (b :: octets), s, a) =>
      match s.fill (room - (b :: octets).length) a with
      | (.ok more, s, a) => (.ok (b :: octets ++ more), s, a)
      | (.error f, s, a) => (.error f, s, a)
    | (.error f, s, a) => if f.isInterruption then s.fill room a else (.error f, s, a)
  else (.ok [], s, a)
termination_by s.weight
decreasing_by
  · exact weight_read_lt _hroom _h (by simp)
  · exact weight_read_lt _hroom _h (by simp)

/-- A read adds nothing to what is to arrive. -/
theorem weight_read_le {s t : Inbound} {room : Nat} {a b : Ambient} {r : Except Fault Bytes}
    (h : s.read room a = (r, t, b)) : t.weight ≤ s.weight := by
  unfold read at h
  cases h
  exact weigh_take_le ..

/-- A filling adds nothing to what is to arrive. -/
theorem weight_fill_le (s : Inbound) (room : Nat) (a : Ambient) :
    (s.fill room a).2.1.weight ≤ s.weight := by
  fun_induction fill s room a with
  | case1 s room a hroom t b h => exact weight_read_le h
  | case2 s room a hroom o octets t b h more u c hmore ih =>
    rw [hmore] at ih
    exact Nat.le_trans ih (weight_read_le h)
  | case3 s room a hroom o octets t b h f u c hmore ih =>
    rw [hmore] at ih
    exact Nat.le_trans ih (weight_read_le h)
  | case4 s room a hroom f t b h hf ih => exact Nat.le_trans ih (weight_read_le h)
  | case5 s room a hroom f t b h hf => exact weight_read_le h
  | case6 => exact Nat.le_refl _

/-- A filling that brought something brought the end nearer. -/
theorem weight_fill_lt {s t : Inbound} {room : Nat} {a b : Ambient} {o : UInt8} {octets : Bytes}
    (h : s.fill room a = (.ok (o :: octets), t, b)) : t.weight < s.weight := by
  fun_induction fill s room a generalizing o octets t b with
  | case1 => cases h
  | case2 s room a hroom o' octets' t' b' h' more u c hmore ih =>
    have hle := weight_fill_le t' (room - (o' :: octets').length) b'
    rw [hmore] at hle
    cases h
    exact Nat.lt_of_le_of_lt hle (weight_read_lt hroom h' (by simp))
  | case3 => cases h
  | case4 s room a hroom f t' b' h' hf ih =>
    exact Nat.lt_trans (ih h) (weight_read_lt hroom h' (by simp))
  | case5 => cases h
  | case6 => cases h

end Inbound

end Courier
