import Courier.Proofs.Chunks
import Courier.Proofs.Pacing
import Courier.Proofs.Receiver
import Courier.Proofs.Sender
import Courier.Proofs.Surroundings

/-!
# How long transfers take

A send or a receive takes its steps one after the other, and in between anything may happen
elsewhere, except that the steady clock goes back. What the octets take is spent in pauses; what
passes beside that is spent in the calls of the transfer, which are ticks and the pauses between
tries, or elsewhere.

Main results:

* `Lasts` — a transfer, how far it has come, and the time that it spent beside its pauses.
* `Lasts.timely` — whatever moves like a transfer takes the time that its octets take.
* `Transfer.Sender.standing_step`, `Transfer.Receiver.standing_step` — sends and receives do.
* `Transfer.paced` — for single records, for sends and receives step by step, and as a whole.
-/

namespace Courier

open Relation Pace

/-! ## Transfers among others -/

/-- What a transfer that came along at `begun` comes to, when its steps are `next`. Between them
anything may happen to the surroundings and the files. The number is the time that did not go by in
pauses for the pace: what passes elsewhere, and the `lapse` of the steps. -/
inductive Lasts {σ : Type} (next : σ → Ambient → Files → σ × Ambient) (lapse : σ → Ambient → Nat)
    (first : σ) (begun : Nat) : Nat → σ → Ambient → Prop where
  | begin {a : Ambient} (h : a.clock.steady = begun) : Lasts next lapse first begun 0 first a
  | step {idle : Nat} {x : σ} {a : Ambient} (h : Lasts next lapse first begun idle x a)
      (fs : Files) :
      Lasts next lapse first begun (idle + lapse x a) (next x a fs).1 (next x a fs).2
  | elsewhere {idle : Nat} {x : σ} {a b : Ambient} (h : Lasts next lapse first begun idle x a)
      (hb : a.clock.steady ≤ b.clock.steady) :
      Lasts next lapse first begun (idle + (b.clock.steady - a.clock.steady)) x b

/-- A standing that every step moves on as it should is timely after any run. -/
theorem Lasts.timely {σ : Type} {next : σ → Ambient → Files → σ × Ambient}
    {lapse : σ → Ambient → Nat} {first x : σ} {begun idle : Nat} {a : Ambient} (rate : σ → Nat)
    (standing : σ → Standing) (h : Lasts next lapse first begun idle x a)
    (hfirst : standing first = .waiting) (hrate : ∀ x a fs, rate (next x a fs).1 = rate x)
    (hmoves : ∀ x a fs, Standing.Moves (rate x) (lapse x a) (standing x) a.clock
      (standing (next x a fs).1) (next x a fs).2.clock) :
    rate x = rate first ∧ (standing x).Timely (rate first) begun idle a.clock := by
  -- the rate stays what it was, so the one invariant of a standing carries the whole run
  induction h with
  | begin hbegun =>
    rw [hfirst]
    exact ⟨rfl, Nat.le_of_eq hbegun.symm, Nat.le_of_eq hbegun⟩
  | step _ fs ih =>
    obtain ⟨hsame, htimely⟩ := ih
    exact ⟨(hrate _ _ _).trans hsame, htimely.moves (hsame ▸ hmoves _ _ fs)⟩
  | elsewhere _ hb ih => exact ⟨ih.1, ih.2.later hb⟩

/-- A step that does nothing moves nothing on. -/
theorem Standing.Moves.still (rate : Nat) (st : Standing) (c : Clock) : Moves rate 0 st c st c := by
  have h : Moves rate (c.steady - c.steady) st c st c := .stays (Nat.le_refl _)
  rwa [Nat.sub_self] at h

namespace Transfer

/-- What has come of a transfer, as far as its timing goes. -/
def outcome : Except TransferError Report → Standing
  | .ok report => .reported report
  | .error _ => .failed

/-! ## Sends -/

/-- How far a send has come, as far as its time goes. -/
def SendPhase.standing : SendPhase → Standing
  | .fresh | .registered => .waiting
  | .filling p | .writing p _ | .flushing p => .pacing p
  | .ending result | .ended result => outcome result

namespace Sender

/-- The rate that a send is held to. -/
def rate (s : Sender) : Nat :=
  s.settings.baseRate.toNat

/-- The time that the next step spends in calls. -/
def lapse (s : Sender) (a : Ambient) : Nat :=
  match s.phase with
  | .filling _ =>
    (fillChunk s.settings s.path s.source a).2.2.clock.steady - a.clock.steady
  | .writing _ chunk =>
    (writeChunk s.settings 0 s.outbound chunk a).2.2.clock.steady - a.clock.steady
  | _ => 0

variable (s : Sender) (a : Ambient) (fs : Files)

/-- A step does not change the settings. -/
theorem settings_step : (s.step a fs).1.settings = s.settings := by
  unfold step
  cases s.phase with
  | fresh => rfl
  | registered =>
    dsimp only
    split
    · rfl
    · split <;> rfl
  | filling | writing | flushing =>
    dsimp only
    split <;> rfl
  | ending => rfl
  | ended => rfl

/-- What a step of a send is for its timing. -/
theorem standing_step :
    Standing.Moves s.rate (s.lapse a) s.phase.standing a.clock (s.step a fs).1.phase.standing
      (s.step a fs).2.clock := by
  unfold step lapse
  cases hphase : s.phase with
  | fresh => exact .still ..
  | registered =>
    dsimp only
    split
    · exact .begins
    · split
      · exact .fails
      · exact .begins
  | filling p =>
    dsimp only
    split
    · exact .fails
    · rename_i hfill
      rw [hfill]
      exact .stays (passes_of_fillChunk hfill).1.steady_le
    · rename_i hfill
      rw [hfill]
      exact .stays (passes_of_fillChunk hfill).1.steady_le
  | writing p chunk =>
    dsimp only
    split
    · exact .fails
    · rename_i hwrite
      rw [hwrite]
      exact .records (passes_of_writeChunk hwrite).1.steady_le
  | flushing p =>
    dsimp only
    split
    · exact .fails
    · exact .ends rfl rfl
  | ending result => exact .still ..
  | ended result =>
    rw [hphase]
    exact .still ..

/-- No time passes unasked, and none between tries. -/
structure Quiet : Prop where
  reading : ∀ n, Inbound.Ripples s.source.arrivals (.tick n) → n = 0
  writing : ∀ n, Outbound.Ripples s.outbound.uptakes (.tick n) → n = 0
  retrying : ∀ n, Between s.settings s.outbound.Fails n → n = 0

variable {s a fs}

/-- An opened entry comes in without anything else happening. -/
theorem not_ripples_sourceOf (entry : Entry) (r : Ripple) :
    ¬ Inbound.Ripples (sourceOf entry).arrivals r := by
  unfold sourceOf Inbound.Ripples
  split <;> simp [Inbound.ofBytes, Inbound.of]

/-- A send whose calls take no time loses none by any step. -/
theorem Quiet.step (h : s.Quiet) : (s.step a fs).1.Quiet ∧ s.lapse a = 0 := by
  obtain ⟨hreading, hwriting, hretrying⟩ := h
  unfold Sender.step lapse
  cases hphase : s.phase with
  | fresh => exact ⟨⟨hreading, hwriting, hretrying⟩, rfl⟩
  | registered =>
    dsimp only
    refine ⟨?_, rfl⟩
    split
    · exact ⟨hreading, hwriting, hretrying⟩
    · split
      · exact ⟨hreading, hwriting, hretrying⟩
      · exact ⟨fun _ hn => absurd hn (not_ripples_sourceOf _ _), hwriting, hretrying⟩
  | filling p =>
    dsimp only
    cases hfill : fillChunk s.settings s.path s.source a with
    | mk r rest =>
      obtain ⟨t, b⟩ := rest
      obtain ⟨hpasses, hleaves⟩ := passes_of_fillChunk hfill
      have hsteady := hpasses.steady_eq hreading (fun _ hn => hn.elim)
      -- what is left of the source is as quiet as the source was
      have hleft : ∀ n, Inbound.Ripples t.arrivals (.tick n) → n = 0 :=
        fun n hn => hreading n (hleaves _ hn (by simp))
      dsimp only
      refine ⟨?_, by rw [hsteady, Nat.sub_self]⟩
      split <;> (rename_i heq; cases heq; exact ⟨hleft, hwriting, hretrying⟩)
  | writing p chunk =>
    dsimp only
    cases hwrite : writeChunk s.settings 0 s.outbound chunk a with
    | mk r rest =>
      obtain ⟨t, b⟩ := rest
      obtain ⟨hpasses, hsuffix⟩ := passes_of_writeChunk hwrite
      have hsteady := hpasses.steady_eq hwriting hretrying
      -- so is what is left of the stream, and it has no new reason for a pause
      have hleft : ∀ n, Outbound.Ripples t.uptakes (.tick n) → n = 0 :=
        fun n hn => hwriting n (hsuffix.subset hn)
      have hfails : ∀ n, Between s.settings t.Fails n → n = 0 := by
        rintro n ⟨⟨u, hu, hf⟩, hn⟩
        exact hretrying n ⟨⟨u, hsuffix.subset hu, hf⟩, hn⟩
      dsimp only
      refine ⟨?_, by rw [hsteady, Nat.sub_self]⟩
      split <;> (rename_i heq; cases heq; exact ⟨hreading, hleft, hfails⟩)
  | flushing p =>
    dsimp only
    refine ⟨?_, rfl⟩
    split <;> exact ⟨hreading, hwriting, hretrying⟩
  | ending result => exact ⟨⟨hreading, hwriting, hretrying⟩, rfl⟩
  | ended result => exact ⟨⟨hreading, hwriting, hretrying⟩, rfl⟩

/-- A send that takes its steps without interruption spends no time beside its pauses where all is
quiet. -/
theorem lasts_of_runs {q : Sender × Ambient} (h : ReflTransGen (Next fs) (s, a) q) :
    ∃ idle, Lasts step lapse s a.clock.steady idle q.1 q.2 ∧ (s.Quiet → q.1.Quiet ∧ idle = 0) := by
  -- by induction on the steps, each of which loses what its call takes
  induction h with
  | refl => exact ⟨0, .begin rfl, fun hquiet => ⟨hquiet, rfl⟩⟩
  | tail _ hnext ih =>
    cases hnext with
    | step t b =>
      obtain ⟨idle, hlasts, hquiet⟩ := ih
      refine ⟨idle + t.lapse b, hlasts.step fs, fun hs => ?_⟩
      obtain ⟨ht, hidle⟩ := hquiet hs
      obtain ⟨hnext, hlapse⟩ := ht.step
      exact ⟨hnext, by rw [hidle, hlapse]⟩

end Sender

/-! ## Receives -/

/-- How far a receive has come. -/
def Phase.standing : Phase → Standing
  | .fresh | .registered | .ready => .waiting
  | .reading _ p | .writing _ p _ | .received _ p | .synced _ p => .pacing p
  | .discarding .. => .failed
  | .ending result | .ended result => outcome result

namespace Receiver

/-- The rate that a receive is held to. -/
def rate (r : Receiver) : Nat :=
  r.settings.baseRate.toNat

/-- The time that the next step spends in calls. -/
def lapse (r : Receiver) (a : Ambient) : Nat :=
  match r.phase with
  | .reading .. => (nextChunk r.settings r.inbound a).2.2.clock.steady - a.clock.steady
  | _ => 0

/-- The next step, as far as the files are left to others. -/
def next (dest : Path) (r : Receiver) (a : Ambient) (fs : Files) : Receiver × Ambient :=
  ((r.step dest a fs).1, (r.step dest a fs).2.1)

variable (dest : Path) (r : Receiver) (a : Ambient) (fs : Files)

/-- A step does not change the settings. -/
theorem settings_step : (r.step dest a fs).1.settings = r.settings := by
  unfold step
  cases r.phase with
  | fresh => rfl
  | registered =>
    dsimp only
    split
    · rfl
    · split <;> rfl
  | ready | reading | writing | received | synced =>
    dsimp only
    split <;> rfl
  | discarding => rfl
  | ending => rfl
  | ended => rfl

/-- What a step of a receive is for its timing. -/
theorem standing_step :
    Standing.Moves r.rate (r.lapse a) r.phase.standing a.clock
      (r.step dest a fs).1.phase.standing (r.step dest a fs).2.1.clock := by
  unfold step lapse
  cases hphase : r.phase with
  | fresh => exact .still ..
  | registered =>
    dsimp only
    split
    · exact .fails
    · split
      · exact .fails
      · exact .still ..
  | ready =>
    dsimp only
    split
    · exact .fails
    · exact .begins
  | reading staged p =>
    dsimp only
    split
    · exact .fails
    · rename_i hread
      rw [hread]
      exact .stays (passes_of_nextChunk hread).1.steady_le
    · rename_i hread
      rw [hread]
      exact .stays (passes_of_nextChunk hread).1.steady_le
  | writing staged p chunk =>
    dsimp only
    split
    · exact .fails
    · -- a chunk is put on record without a call in between
      have h : Standing.Moves r.rate (a.clock.steady - a.clock.steady) (.pacing p) a.clock _ _ :=
        .records (n := chunk.length) (Nat.le_refl _)
      rwa [Nat.sub_self] at h
  | received staged p =>
    -- no time of the model goes by while the disk is waited for
    dsimp only
    split
    · exact .fails
    · exact .still ..
  | synced staged p =>
    dsimp only
    split
    · exact .fails
    · exact .ends rfl rfl
  | discarding staged e => exact .fails
  | ending result => exact .still ..
  | ended result =>
    rw [hphase]
    exact .still ..

/-- No time passes unasked, and none between tries. -/
structure Quiet : Prop where
  reading : ∀ n, Inbound.Ripples r.inbound.arrivals (.tick n) → n = 0
  retrying : ∀ n, Between r.settings r.inbound.Fails n → n = 0

variable {dest r a fs}

/-- A receive whose calls take no time loses none by any step. -/
theorem Quiet.step (h : r.Quiet) : (r.step dest a fs).1.Quiet ∧ r.lapse a = 0 := by
  obtain ⟨hreading, hretrying⟩ := h
  unfold Receiver.step lapse
  cases hphase : r.phase with
  | fresh => exact ⟨⟨hreading, hretrying⟩, rfl⟩
  | registered =>
    dsimp only
    refine ⟨?_, rfl⟩
    split
    · exact ⟨hreading, hretrying⟩
    · split <;> exact ⟨hreading, hretrying⟩
  -- only reading can take time, and what is left of the stream has no more delays than before
  | reading staged p =>
    dsimp only
    cases hread : nextChunk r.settings r.inbound a with
    | mk found rest =>
      obtain ⟨t, b⟩ := rest
      obtain ⟨hpasses, hleaves⟩ := passes_of_nextChunk hread
      have hsteady := hpasses.steady_eq hreading hretrying
      have hleft : ∀ n, Inbound.Ripples t.arrivals (.tick n) → n = 0 :=
        fun n hn => hreading n (hleaves _ hn (by simp))
      have hfails : ∀ n, Between r.settings t.Fails n → n = 0 :=
        fun n hn => hretrying n ⟨hleaves.fails hn.1, hn.2⟩
      dsimp only
      refine ⟨?_, by rw [hsteady, Nat.sub_self]⟩
      split <;> (rename_i heq; cases heq; exact ⟨hleft, hfails⟩)
  | ready | writing | received | synced =>
    dsimp only
    refine ⟨?_, rfl⟩
    split <;> exact ⟨hreading, hretrying⟩
  | discarding => exact ⟨⟨hreading, hretrying⟩, rfl⟩
  | ending result => exact ⟨⟨hreading, hretrying⟩, rfl⟩
  | ended result => exact ⟨⟨hreading, hretrying⟩, rfl⟩

/-- A receive that takes its steps without interruption spends no time beside its pauses where all
is quiet. -/
theorem lasts_of_runs {q : Receiver × Ambient × Files}
    (h : ReflTransGen (Next dest) (r, a, fs) q) :
    ∃ idle, Lasts (next dest) lapse r a.clock.steady idle q.1 q.2.1 ∧
      (r.Quiet → q.1.Quiet ∧ idle = 0) := by
  -- by induction on the steps, as for a send
  induction h with
  | refl => exact ⟨0, .begin rfl, fun hquiet => ⟨hquiet, rfl⟩⟩
  | tail _ hnext ih =>
    cases hnext with
    | step t b fs' =>
      obtain ⟨idle, hlasts, hquiet⟩ := ih
      refine ⟨idle + t.lapse b, hlasts.step fs', fun hr => ?_⟩
      obtain ⟨ht, hidle⟩ := hquiet hr
      obtain ⟨hnext, hlapse⟩ := ht.step
      exact ⟨hnext, by rw [hidle, hlapse]⟩

end Receiver

/-! ## Whole transfers -/

/-- The time that a transfer of so many octets took, between `a` and `b`. -/
structure Took (rate size elapsed : Nat) (a b : Ambient) (quiet : Prop) : Prop where
  least : span rate size ≤ elapsed
  within : a.clock.steady + elapsed ≤ b.clock.steady
  exact : quiet → elapsed = span rate size ∧ b.clock.steady = a.clock.steady + span rate size

/-- What a report says of the time it took, if its standing is timely. -/
theorem took_of_timely {rate idle : Nat} {report : Report} {a b : Ambient} {quiet : Prop}
    (h : Standing.Timely rate a.clock.steady idle b.clock (.reported report))
    (hquiet : quiet → idle = 0) : Took rate report.size report.elapsed a b quiet := by
  obtain ⟨hleast, hmost, hwithin, hearly⟩ := h
  refine ⟨hleast, hwithin, fun hq => ?_⟩
  have hidle := hquiet hq
  omega

/-- A send is timely from its first step on. -/
theorem Sender.timely {s t : Sender} {begun idle : Nat} {a : Ambient} (hs : s.phase = .fresh)
    (h : Lasts Sender.step Sender.lapse s begun idle t a) :
    t.phase.standing.Timely s.rate begun idle a.clock := by
  have hrate (t : Sender) (b : Ambient) (fs : Files) : (t.step b fs).1.rate = t.rate := by
    rw [Sender.rate, Sender.settings_step]
    rfl
  obtain ⟨-, htimely⟩ := h.timely Sender.rate (fun t => t.phase.standing) (by rw [hs]; rfl) hrate
    Sender.standing_step
  exact htimely

/-- So is a receive. -/
theorem Receiver.timely {dest : Path} {r t : Receiver} {begun idle : Nat} {a : Ambient}
    (hr : r.phase = .fresh) (h : Lasts (Receiver.next dest) Receiver.lapse r begun idle t a) :
    t.phase.standing.Timely r.rate begun idle a.clock := by
  have hrate (t : Receiver) (b : Ambient) (fs : Files) : (t.next dest b fs).1.rate = t.rate := by
    rw [Receiver.next, Receiver.rate, Receiver.settings_step]
    rfl
  obtain ⟨-, htimely⟩ := h.timely Receiver.rate (fun t => t.phase.standing) (by rw [hr]; rfl) hrate
    (Receiver.standing_step dest)
  exact htimely

variable {settings : Settings} {a : Ambient} {report : Report}

/-- A send that ends well has taken the time that it reports. -/
theorem Sender.took {fs : Files} {s : Sender} {q : Sender × Ambient} (hs : s.phase = .fresh)
    (h : ReflTransGen (Sender.Next fs) (s, a) q) (hq : q.1.phase = .ended (.ok report)) :
    Took s.rate report.size report.elapsed a q.2 s.Quiet := by
  obtain ⟨idle, hlasts, hquiet⟩ := Sender.lasts_of_runs h
  have htimely := Sender.timely hs hlasts
  rw [hq] at htimely
  exact took_of_timely htimely fun hs => (hquiet hs).2

/-- And so has a receive. -/
theorem Receiver.took {dest : Path} {r : Receiver} {fs : Files} {q : Receiver × Ambient × Files}
    (hr : r.phase = .fresh) (h : ReflTransGen (Receiver.Next dest) (r, a, fs) q)
    (hq : q.1.phase = .ended (.ok report)) :
    Took r.rate report.size report.elapsed a q.2.1 r.Quiet := by
  obtain ⟨idle, hlasts, hquiet⟩ := Receiver.lasts_of_runs h
  have htimely := Receiver.timely hr hlasts
  rw [hq] at htimely
  exact took_of_timely htimely fun hr => (hquiet hr).2

/-- The same of a send that nothing comes between. -/
theorem sendFile_took {fs : Files} {path : Path} {s : Outbound}
    (h : (sendFile settings fs path s a).1 = .ok report) :
    Took settings.baseRate.toNat report.size report.elapsed a (sendFile settings fs path s a).2.2
      (Sender.ofFile settings path s).Quiet := by
  obtain ⟨source, hruns⟩ := Sender.runs_file settings fs path s a
  exact Sender.took rfl hruns (by rw [h])

/-- And of such a receive. -/
theorem receiveFile_took {dest : Path} {s : Inbound} {fs : Files}
    (h : (receiveFile settings dest s a fs).1 = .ok report) :
    Took settings.baseRate.toNat report.size report.elapsed a
      (receiveFile settings dest s a fs).2.2.1 (Receiver.Quiet ⟨settings, s, .fresh⟩) :=
  Receiver.took rfl (Receiver.runs_alone dest settings s a fs) (by rw [h])

/-- Any other source is sent without a report of how long that took. -/
theorem sendReader_took {source : Inbound} {s : Outbound} {n : Nat}
    (h : (sendReader settings source s a).1 = .ok n) :
    ∃ elapsed, Took settings.baseRate.toNat n elapsed a (sendReader settings source s a).2.2.2
      (Sender.ofReader settings source s).Quiet := by
  obtain ⟨result, hresult, hruns⟩ := Sender.runs_reader settings source s a default
  rw [h] at hresult
  cases result with
  | error e => cases hresult
  | ok report =>
    -- the step machine makes a report for it all the same
    cases hresult
    exact ⟨report.elapsed, Sender.took rfl hruns rfl⟩

/-- **Transfers keep their pace.** A record leaves as much time elapsed as the octets up to it take,
and pauses for the difference only. So at every moment of a send or a receive no more octets are
counted than the seconds that have begun allow; what it reports took the whole seconds that its
octets take, and no more than the time that passed beside its pauses; and where all is quiet it
takes exactly these seconds. -/
theorem paced (settings : Settings) :
    (∀ (rate : Nat) (clock : Clock) (beats : List Beat) (n : Nat),
      Recorded (span rate (recorded beats + n)) (after rate clock beats)
        ((after rate clock beats).1.record n (after rate clock beats).2)) ∧
    (∀ (s t : Sender) (begun idle : Nat) (a : Ambient), s.phase = .fresh →
      Lasts Sender.step Sender.lapse s begun idle t a →
      t.phase.standing.Punctual s.rate idle a.clock) ∧
    (∀ (dest : Path) (r t : Receiver) (begun idle : Nat) (a : Ambient), r.phase = .fresh →
      Lasts (Receiver.next dest) Receiver.lapse r begun idle t a →
      t.phase.standing.Punctual r.rate idle a.clock) ∧
    (∀ (fs : Files) (path : Path) (s : Outbound) (a : Ambient) (report : Report),
      (sendFile settings fs path s a).1 = .ok report →
      Took settings.baseRate.toNat report.size report.elapsed a (sendFile settings fs path s a).2.2
        (Sender.ofFile settings path s).Quiet) ∧
    (∀ (source : Inbound) (s : Outbound) (a : Ambient) (n : Nat),
      (sendReader settings source s a).1 = .ok n →
      ∃ elapsed, Took settings.baseRate.toNat n elapsed a (sendReader settings source s a).2.2.2
        (Sender.ofReader settings source s).Quiet) ∧
    ∀ (dest : Path) (s : Inbound) (fs : Files) (a : Ambient) (report : Report),
      (receiveFile settings dest s a fs).1 = .ok report →
      Took settings.baseRate.toNat report.size report.elapsed a
        (receiveFile settings dest s a fs).2.2.1 (Receiver.Quiet ⟨settings, s, .fresh⟩) :=
  ⟨recorded_after, fun _ _ _ _ _ hs h => (Sender.timely hs h).punctual,
    fun _ _ _ _ _ _ hr h => (Receiver.timely hr h).punctual,
    fun _ _ _ _ _ h => sendFile_took h, fun _ _ _ _ h => sendReader_took h,
    fun _ _ _ _ _ h => receiveFile_took h⟩

/-- Five octets at two a second take two seconds. -/
theorem paced_five :
    (sendReader { baseRate := 2 } (.ofBytes [1, 2, 3, 4, 5]) .willing default).1 = .ok 5 ∧
      (sendReader { baseRate := 2 } (.ofBytes [1, 2, 3, 4, 5]) .willing
        default).2.2.2.clock.steady = 2000000000 := by
  have hsent : (sendReader { baseRate := 2 } (.ofBytes [1, 2, 3, 4, 5]) .willing default).1 =
      .ok 5 :=
    (Conveys.in_chunks (.reader (Inbound.pending_ofBytes _))
      (undisturbed_ofBytes _ _ (by decide)) (by decide)).2
  obtain ⟨-, -, -, -, hreader, -⟩ := paced { baseRate := 2 }
  obtain ⟨elapsed, htook⟩ := hreader _ _ _ _ hsent
  obtain ⟨-, hsteady⟩ := htook.exact
    ⟨by simp [Inbound.Ripples, Sender.ofReader, Inbound.ofBytes, Inbound.of],
      by simp [Outbound.Ripples, Sender.ofReader, Outbound.willing],
      by simp [Between, Outbound.Fails, Sender.ofReader, Outbound.willing]⟩
  exact ⟨hsent, hsteady⟩

end Transfer

end Courier
