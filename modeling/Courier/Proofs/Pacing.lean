import Courier.Transfer.Pace
import Courier.Transfer.Report

/-!
# Pacing

After `n` octets a transfer has taken at least `n / rate` whole seconds. It pauses for what is
missing to that, chunk by chunk, so the pauses depend on how it is cut into chunks while their sum
does not: where time passes only in pauses, they end exactly when they should.

Main results:

* `Pace.recorded_after` — one record, after any records and ticks.
* `Pace.Kept` — a pace that is kept; `Pace.Kept.later` and `Pace.Kept.record` keep it.
* `Standing.Timely.moves` — what one move of a transfer keeps of its timing.
-/

namespace Courier

/-! ## One record -/

namespace Pace

/-- The whole seconds that so many octets take, in nanoseconds. -/
def span (rate total : Nat) : Nat :=
  total / max 1 rate * 1000000000

/-- What happens to a pace: octets are recorded, or time passes. -/
inductive Beat where
  | record (n : Nat)
  | tick (nanos : Nat)
deriving Repr

/-- What a beat does to the pace and the clock. -/
def beat : Pace × Clock → Beat → Pace × Clock
  | (p, c), .record n => p.record n c
  | (p, c), .tick nanos => (p, c.tick nanos)

/-- The octets recorded in some beats. -/
def recorded : List Beat → Nat
  | [] => 0
  | .record n :: rest => n + recorded rest
  | .tick _ :: rest => recorded rest

/-- A pace that was begun at this rate, and has so many octets to its account. -/
structure Begun (rate total : Nat) (p : Pace) (c : Clock) : Prop where
  rate_eq : p.rate = max 1 rate
  moved_eq : p.moved = total
  start_le : p.start ≤ c.steady

variable {rate total n : Nat} {p : Pace} {c : Clock}

/-- A pace has begun with nothing moved. -/
theorem begun_begin (rate : Nat) (c : Clock) : Begun rate 0 (begin rate c) c :=
  ⟨rfl, rfl, Nat.le_refl _⟩

/-- A beat moves it on by what it records. -/
theorem Begun.beat (h : Begun rate total p c) (b : Beat) :
    Begun rate (total + recorded [b]) (Pace.beat (p, c) b).1 (Pace.beat (p, c) b).2 := by
  obtain ⟨hrate, hmoved, hstart⟩ := h
  cases b with
  | record n =>
    refine ⟨hrate, congrArg (· + n) hmoved, Nat.le_trans hstart ?_⟩
    simp [Pace.beat, record]
  | tick nanos => exact ⟨hrate, hmoved, Nat.le_trans hstart (Nat.le_add_right ..)⟩

/-- So do any number of beats. -/
theorem Begun.beats (h : Begun rate total p c) (beats : List Beat) :
    Begun rate (total + recorded beats) (beats.foldl Pace.beat (p, c)).1
      (beats.foldl Pace.beat (p, c)).2 := by
  -- by induction on the beats
  induction beats generalizing total p c with
  | nil => exact h
  | cons b rest ih =>
    have hrest := ih (h.beat b)
    have htotal : total + recorded [b] + recorded rest = total + recorded (b :: rest) := by
      cases b with
      | record n => exact Nat.add_assoc ..
      | tick nanos => rfl
    rw [htotal] at hrest
    exact hrest

/-- What a record makes of a pace `p` on its clock, when the octets up to it take until `due`: as
much time has elapsed as they take, or as had before if that is more. The pause is the difference,
and none is taken if there is no difference. -/
structure Recorded (due : Nat) (p q : Pace × Clock) : Prop where
  elapsed : q.1.elapsed q.2 = max (p.1.elapsed p.2) due
  paused : q.2 =
    if p.1.elapsed p.2 < due then
      { p.2.tick (due - p.1.elapsed p.2) with pauses := (due - p.1.elapsed p.2) :: p.2.pauses }
    else p.2

/-- What a record leaves of the pace is in time for all that was moved. -/
theorem Begun.recorded (h : Begun rate total p c) (n : Nat) :
    Recorded (span rate (total + n)) (p, c) (p.record n c) := by
  obtain ⟨hrate, rfl, hstart⟩ := h
  have hrecord : p.record n c =
      (⟨p.rate, p.start, p.moved + n⟩,
        c.pause (span rate (p.moved + n) - p.elapsed c)) := by
    rw [span, ← hrate]
    rfl
  rw [hrecord]
  generalize span rate (p.moved + n) = due
  refine ⟨?_, ?_⟩
  -- the pause makes up for what is missing, and a pause of no length is none
  · unfold Pace.elapsed
    rw [Clock.pause_steady]
    dsimp only
    omega
  · unfold Clock.pause
    dsimp only
    by_cases hahead : p.elapsed c < due
    · rw [if_neg (by omega), if_pos hahead]
    · rw [if_pos (by omega), if_neg hahead]

/-- What some beats make of a pace that is begun. -/
def after (rate : Nat) (clock : Clock) (beats : List Beat) : Pace × Clock :=
  beats.foldl beat (begin rate clock, clock)

/-- **One record, after any records and ticks.** -/
theorem recorded_after (rate : Nat) (clock : Clock) (beats : List Beat) (n : Nat) :
    Recorded (span rate (recorded beats + n)) (after rate clock beats)
      ((after rate clock beats).1.record n (after rate clock beats).2) := by
  have h := ((begun_begin rate clock).beats beats).recorded n
  rwa [Nat.zero_add] at h

/-! ## A pace that is kept -/

/-- The pace of a transfer that came along at `begun`. The time since then is what its octets take
and no more than `idle` beside it. -/
structure Kept (rate begun idle : Nat) (p : Pace) (c : Clock) : Prop where
  rate_eq : p.rate = max 1 rate
  begun_le : begun ≤ p.start
  due : p.start + p.expected ≤ c.steady
  early : c.steady ≤ begun + p.expected + idle

variable {begun idle : Nat} {c' : Clock}

/-- A pace that has just begun is kept. -/
theorem kept_begin (rate : Nat) (hbegun : begun ≤ c.steady) (hearly : c.steady ≤ begun + idle) :
    Kept rate begun idle (begin rate c) c := by
  have hnone : (begin rate c).expected = 0 := by simp [begin, expected]
  refine ⟨rfl, hbegun, ?_, ?_⟩
  · rw [hnone]
    exact Nat.le_refl _
  · rw [hnone]
    exact hearly

/-- Time that passes is not spent in pauses. -/
theorem Kept.later (h : Kept rate begun idle p c) (hc : c.steady ≤ c'.steady) :
    Kept rate begun (idle + (c'.steady - c.steady)) p c' := by
  obtain ⟨hrate, hbegun, hdue, hearly⟩ := h
  exact ⟨hrate, hbegun, by omega, by omega⟩

/-- What is missing to the time that the octets take is spent in a pause, and no more. -/
theorem Kept.record (h : Kept rate begun idle p c) (n : Nat) :
    Kept rate begun idle (p.record n c).1 (p.record n c).2 := by
  obtain ⟨hrate, hbegun, hdue, hearly⟩ := h
  have hstart : (p.record n c).1.start = p.start := rfl
  have hmore : p.expected ≤ (p.record n c).1.expected :=
    Nat.mul_le_mul_right _ (Nat.div_le_div_right (Nat.le_add_right ..))
  have hsteady : (p.record n c).2.steady =
      c.steady + ((p.record n c).1.expected - (c.steady - p.start)) :=
    Clock.pause_steady ..
  -- what is due grows with the octets, and the pause ends when it is due or is not taken
  exact ⟨hrate, hbegun, by omega, by omega⟩

/-- A pace that is kept expects the time that its octets take at its rate. -/
theorem Kept.expected_eq (h : Kept rate begun idle p c) : p.expected = span rate p.moved := by
  rw [expected, span, h.rate_eq]

/-- No more octets are on the account than the seconds that have begun allow. -/
theorem Kept.moved_le (h : Kept rate begun idle p c) :
    p.moved ≤ max 1 rate * (p.elapsed c / 1000000000 + 1) - 1 := by
  obtain ⟨hrate, -, hdue, -⟩ := h
  have hpos : 0 < max 1 rate := Nat.lt_of_lt_of_le Nat.one_pos (Nat.le_max_left ..)
  have helapsed : p.moved / p.rate * 1000000000 ≤ p.elapsed c := by
    unfold elapsed
    unfold expected at hdue
    omega
  rw [hrate] at helapsed
  -- the octets fill the seconds that have passed, and not quite the one that has begun
  have hseconds : p.moved / max 1 rate ≤ p.elapsed c / 1000000000 :=
    (Nat.le_div_iff_mul_le (by decide)).mpr helapsed
  have hless : p.moved < (p.elapsed c / 1000000000 + 1) * max 1 rate :=
    (Nat.div_lt_iff_lt_mul hpos).mp (Nat.lt_succ_of_le hseconds)
  rw [Nat.mul_comm] at hless
  exact Nat.le_sub_one_of_lt hless

end Pace

/-! ## The moves of a transfer -/

/-- How a transfer stands to its pace. -/
inductive Standing where
  /-- It has not begun to count octets. -/
  | waiting
  | pacing (p : Pace)
  | reported (report : Report)
  | failed
deriving Repr

namespace Standing

open Pace

/-- What one step does, or what happens elsewhere, and how much time that takes beside a pause. -/
inductive Moves (rate : Nat) : Nat → Standing → Clock → Standing → Clock → Prop where
  | stays {st : Standing} {c c' : Clock} (h : c.steady ≤ c'.steady) :
      Moves rate (c'.steady - c.steady) st c st c'
  | begins {c : Clock} : Moves rate 0 .waiting c (.pacing (.begin rate c)) c
  | records {p : Pace} {c c' : Clock} {n : Nat} (h : c.steady ≤ c'.steady) :
      Moves rate (c'.steady - c.steady) (.pacing p) c (.pacing (p.record n c').1) (p.record n c').2
  | ends {p : Pace} {report : Report} {c : Clock} (hsize : report.size = p.moved)
      (helapsed : report.elapsed = p.elapsed c) : Moves rate 0 (.pacing p) c (.reported report) c
  | fails {st : Standing} {c c' : Clock} {lapse : Nat} : Moves rate lapse st c .failed c'

/-- A transfer that came along at `begun` takes the time that its octets take and no more than
`idle` beside it. -/
def Timely (rate begun idle : Nat) (c : Clock) : Standing → Prop
  | .waiting => begun ≤ c.steady ∧ c.steady ≤ begun + idle
  | .pacing p => Kept rate begun idle p c
  | .reported report =>
    span rate report.size ≤ report.elapsed ∧ report.elapsed ≤ span rate report.size + idle ∧
      begun + report.elapsed ≤ c.steady ∧ c.steady ≤ begun + span rate report.size + idle
  | .failed => True

variable {rate begun idle lapse : Nat} {st st' : Standing} {c c' : Clock}

/-- What is seen of the timing: no more octets are counted than the seconds that have begun allow,
and what is reported took the whole seconds that its octets take, and no more than `idle` beside
them. -/
def Punctual (rate idle : Nat) (c : Clock) : Standing → Prop
  | .pacing p => p.moved ≤ max 1 rate * (p.elapsed c / 1000000000 + 1) - 1
  | .reported report =>
    span rate report.size ≤ report.elapsed ∧ report.elapsed ≤ span rate report.size + idle
  | _ => True

/-- Who is timely is punctual. -/
theorem Timely.punctual (h : st.Timely rate begun idle c) : st.Punctual rate idle c := by
  cases st with
  | waiting => exact trivial
  | pacing p => exact Kept.moved_le h
  | reported report =>
    obtain ⟨hleast, hmost, -⟩ := h
    exact ⟨hleast, hmost⟩
  | failed => exact trivial

/-- Time that passes is idle time. -/
theorem Timely.later (h : st.Timely rate begun idle c) (hc : c.steady ≤ c'.steady) :
    st.Timely rate begun (idle + (c'.steady - c.steady)) c' := by
  cases st with
  | waiting =>
    obtain ⟨hbegun, hearly⟩ := h
    exact ⟨by omega, by omega⟩
  | pacing p => exact Kept.later h hc
  | reported report =>
    obtain ⟨hleast, hmost, hbegun, hearly⟩ := h
    exact ⟨hleast, by omega, by omega, by omega⟩
  | failed => exact trivial

/-- **A step keeps a transfer timely**, with what its call loses as idle time. -/
theorem Timely.moves (h : st.Timely rate begun idle c) (hmoves : Moves rate lapse st c st' c') :
    st'.Timely rate begun (idle + lapse) c' := by
  cases hmoves with
  | stays hc => exact h.later hc
  | begins =>
    obtain ⟨hbegun, hearly⟩ := h
    exact kept_begin rate hbegun hearly
  | records hc => exact (Kept.later h hc).record _
  | @ends p report _ hsize helapsed =>
    -- the report says what the pace has come to
    have hexpected := Kept.expected_eq h
    obtain ⟨-, hbegun, hdue, hearly⟩ := h
    rw [hexpected, ← hsize] at hdue hearly
    have hsince : report.elapsed = c.steady - p.start := helapsed
    exact ⟨by omega, by omega, by omega, by omega⟩
  | fails => exact trivial

end Standing

end Courier
