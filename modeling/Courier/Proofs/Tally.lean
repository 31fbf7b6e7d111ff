import Courier.Proofs.Refusal
import Courier.Proofs.Surroundings
import Courier.Traffic.Basic

/-!
# The counter of transfers

A transfer raises the counter with its first step and lowers it with its last one; no other step
touches it, and none of what happens on a stream does. So in every traffic the counter shows how
many transfers have begun and not ended, beside those that others have.

Main results:

* `Party.toll` — what one step does to the counter.
* `Traffic.Tallied.step`, `Traffic.tallied_of_reachable` — the accounts that every step keeps.
-/

namespace Courier

/-! ## Streams leave the counter alone -/

section Streams

/-- Reading a field leaves the counter alone, whatever comes of it. -/
theorem Header.own_readField (field : HeaderField) (n : Nat) (s : Inbound) (a : Ambient) :
    (readField field n s a).2.2.own = a.own := by
  unfold readField
  -- the octets may be missing, or be no text
  cases hfill : s.fill n a with
  | mk found rest =>
    have h := (Inbound.passes_of_fill hfill).1.own_eq
    cases found with
    | ok octets =>
      dsimp only
      split <;> exact h
    | error f =>
      dsimp only
      split <;> exact h

/-- So does reading the command. -/
theorem Header.own_readCommand (s : Inbound) (a : Ambient) :
    (readCommand s a).2.2.own = a.own := by
  have h := own_readField .command 1 s a
  unfold readCommand
  cases hfield : readField .command 1 s a with
  | mk found rest =>
    rw [hfield] at h
    cases found with
    | error e => exact h
    | ok octets =>
      dsimp only
      split <;> exact h

/-- And reading the path, which is two fields. -/
theorem Header.own_readPath (s : Inbound) (a : Ambient) : (readPath s a).2.2.own = a.own := by
  have h := own_readField .pathLength 8 s a
  unfold readPath
  cases hlength : readField .pathLength 8 s a with
  | mk found rest =>
    obtain ⟨t, b⟩ := rest
    rw [hlength] at h
    cases found with
    | error e => exact h
    | ok octets =>
      have hb : b.own = a.own := h
      have h' := own_readField .path (ofLowFirst octets) t b
      dsimp only
      -- a length that is not allowed ends it before the path is read
      split
      · cases hpath : readField .path (ofLowFirst octets) t b with
        | mk found' rest' =>
          rw [hpath] at h'
          cases found' with
          | error e => exact h'.trans hb
          | ok text =>
            dsimp only
            split <;> exact h'.trans hb
      · exact hb

/-- Reading a header leaves the counter alone. -/
theorem Header.own_read (s : Inbound) (a : Ambient) : (read s a).2.2.own = a.own := by
  have h := own_readCommand s a
  unfold read
  cases hcommand : readCommand s a with
  | mk found rest =>
    obtain ⟨t, b⟩ := rest
    rw [hcommand] at h
    cases found with
    | error e => exact h
    | ok command =>
      have hb : b.own = a.own := h
      have h' := own_readPath t b
      dsimp only
      cases hpath : readPath t b with
      | mk found' rest' =>
        rw [hpath] at h'
        cases found' with
        | error e => exact h'.trans hb
        | ok path => exact h'.trans hb

end Streams

/-! ## What a step does to the counter -/

namespace Transfer

/-- A receive raises the counter with its first step and lowers it with its last one. -/
theorem Receiver.own_step (dest : Path) (r : Receiver) (a : Ambient) (fs : Files) :
    (r.step dest a fs).2.1.own =
      match r.phase with
      | .fresh => a.own + 1
      | .ending _ => a.own - 1
      | _ => a.own := by
  unfold step
  -- only the first phase and the last one touch it; the others at most use a stream, which does not
  cases hphase : r.phase with
  | fresh => rfl
  | registered =>
    dsimp only
    split
    · rfl
    · split <;> rfl
  | ready =>
    dsimp only
    split <;> rfl
  | reading staged pace =>
    dsimp only
    split <;> (rename_i hread; exact (passes_of_nextChunk hread).1.own_eq)
  | writing staged pace chunk =>
    dsimp only
    split
    · rfl
    · cases pace.record chunk.length a.clock
      rfl
  | received staged pace | synced staged pace =>
    dsimp only
    split <;> rfl
  | discarding staged e => rfl
  | ending result => rfl
  | ended result => rfl

/-- A receive is counted until its last step. -/
theorem Receiver.counted_step (dest : Path) (r : Receiver) (a : Ambient) (fs : Files) :
    (r.step dest a fs).1.phase.counted =
      match r.phase with
      | .ending _ | .ended _ => false
      | _ => true := by
  unfold step
  -- every way out of a phase leads to a phase that counts, but for the last one
  cases hphase : r.phase with
  | fresh => rfl
  | registered =>
    dsimp only
    split
    · rfl
    · split <;> rfl
  | ended result =>
    dsimp only
    rw [hphase]
    rfl
  | discarding staged e => rfl
  | ending result => rfl
  | ready | reading | writing | received | synced =>
    dsimp only
    split <;> rfl

/-- So does a send. -/
theorem Sender.own_step (s : Sender) (a : Ambient) (fs : Files) :
    (s.step a fs).2.own =
      match s.phase with
      | .fresh => a.own + 1
      | .ending _ => a.own - 1
      | _ => a.own := by
  unfold step
  -- as for a receive, by the phase
  cases hphase : s.phase with
  | fresh => rfl
  | registered =>
    dsimp only
    split
    · rfl
    · split <;> rfl
  | filling pace =>
    dsimp only
    split <;> (rename_i hfill; exact (passes_of_fillChunk hfill).1.own_eq)
  | writing pace chunk =>
    dsimp only
    split
    · rename_i hwrite
      exact (passes_of_writeChunk hwrite).1.own_eq
    · rename_i t b hwrite
      cases pace.record chunk.length b.clock
      exact (passes_of_writeChunk hwrite).1.own_eq
  | flushing pace =>
    dsimp only
    split <;> rfl
  | ending result => rfl
  | ended result => rfl

/-- A send is counted until its last step. -/
theorem Sender.counted_step (s : Sender) (a : Ambient) (fs : Files) :
    (s.step a fs).1.phase.counted =
      match s.phase with
      | .ending _ | .ended _ => false
      | _ => true := by
  unfold step
  cases hphase : s.phase with
  | fresh => rfl
  | registered =>
    dsimp only
    split
    · rfl
    · split <;> rfl
  | ended result =>
    dsimp only
    rw [hphase]
    rfl
  | ending result => rfl
  | filling | writing | flushing =>
    dsimp only
    split <;> rfl

end Transfer

/-! ## What a step does to the counter -/

/-- A step leaves the counter as it was, or raises it as the first step of a transfer, or lowers it
as the last one. The flags tell whether a transfer has begun, and whether it is counted. -/
inductive Toll (own : Nat) : (begun counted begun' counted' : Bool) → Nat → Prop where
  | pass {begun counted : Bool} : Toll own begun counted begun counted own
  | enter : Toll own false false true true (own + 1)
  | leave : Toll own true true true false (own - 1)

namespace Toll

variable {own own' : Nat} {begun counted begun' counted' : Bool}

/-- The counter and the transfer that takes its toll change by the same. -/
theorem own_eq (h : Toll own begun counted begun' counted' own')
    (hpos : counted = true → 0 < own) : own' + counted.toNat = own + counted'.toNat := by
  cases h with
  | pass => rfl
  | enter => rfl
  | leave =>
    -- a counter at zero could not be lowered, but this transfer is counted
    have := hpos rfl
    simp
    omega

/-- The counter is raised just when the transfer begins. -/
theorem raised_eq (h : Toll own begun counted begun' counted' own') :
    begun.toNat + (own' - own) = begun'.toNat := by
  cases h with
  | pass => simp
  | enter => simp
  | leave => simp

/-- And it is lowered just when the transfer ends. -/
theorem lowered_eq (h : Toll own begun counted begun' counted' own')
    (hpos : counted = true → 0 < own) :
    (begun && !counted).toNat + (own - own') = (begun' && !counted').toNat := by
  cases h with
  | pass => simp
  | enter => simp
  | leave =>
    have := hpos rfl
    simp
    omega

end Toll

/-- The toll of a receive, which has begun by its first step and is counted until its last one. -/
theorem Transfer.Receiver.toll (dest : Path) (r : Receiver) (a : Ambient) (fs : Files) :
    Toll a.own r.phase.begun r.phase.counted (r.step dest a fs).1.phase.begun
      (r.step dest a fs).1.phase.counted (r.step dest a fs).2.1.own := by
  rw [begun_step, counted_step, own_step]
  cases r.phase with
  | fresh => exact .enter
  | ending => exact .leave
  | _ => exact .pass

/-- The toll of a send. -/
theorem Transfer.Sender.toll (s : Sender) (a : Ambient) (fs : Files) :
    Toll a.own s.phase.begun s.phase.counted (s.step a fs).1.phase.begun
      (s.step a fs).1.phase.counted (s.step a fs).2.own := by
  rw [begun_step, counted_step, own_step]
  cases s.phase with
  | fresh => exact .enter
  | ending => exact .leave
  | _ => exact .pass

namespace Session

open Transfer (Receiver Sender)

/-- What a session does to the files by itself is nothing to the counter. -/
theorem ambient_mapFiles (m : Machine) (f : Files → Files) : (m.mapFiles f).ambient = m.ambient :=
  rfl

/-- A session takes its toll with its transfer, and no other. -/
theorem Sound.toll {first c c' : Course} {m m' : Machine} (h : Sound first c)
    (hmoves : Moves m c c' m') :
    Toll m.ambient.own c.began c.stage.counted c'.began c'.stage.counted m'.ambient.own := by
  have hshows := h.shows
  clear h
  -- a session moves by a step of its transfer, or by something that leaves the counter alone
  cases hmoves with
  | @deaf _ _ c _ _ _ _ hread | @hear _ _ c _ _ _ _ hread =>
    have hown := Header.own_read c.inbound m.ambient
    rw [hread] at hown
    rw [hown]
    exact .pass
  | @receive ctx _ c _ _ file phase r a fs hstep =>
    have htoll := Receiver.toll file ⟨ctx.settings, c.inbound, phase⟩ m.ambient m.files
    rw [Receiver.begun_step, hstep, ← hshows.1] at htoll
    exact htoll
  | @deliver ctx _ c _ _ file source phase s a hstep =>
    have htoll := Sender.toll ⟨ctx.settings, some file, source, c.outbound, phase⟩ m.ambient
      m.files
    rw [Sender.begun_step, hstep, ← hshows.1] at htoll
    exact htoll
  | announce | report =>
    rw [ambient_mapFiles]
    exact .pass
  | record =>
    rw [ambient_journalize]
    exact .pass
  | refuse | locate | store | send | lack | rest
  | received | unreceived | delivered | undelivered =>
    exact .pass

end Session

namespace Party

/-- What is known of a party that came along as `origin`. -/
def Sound : Party → Party → Prop
  | .sender _, .sender _ => True
  | .receiver .., .receiver .. => True
  | .session first, .session c => Session.Sound first c
  | _, _ => False

/-- A party that comes along is as it came along. -/
theorem sound_of_isFresh {p : Party} (h : p.isFresh = true) : Sound p p := by
  cases p with
  | sender s => trivial
  | receiver dest r => trivial
  | session c =>
    obtain ⟨ctx, peer, connection, stage, began⟩ := c
    cases stage with
    | fresh => exact Session.Sound.begin rfl (by simpa [isFresh] using h)
    | _ => cases h

/-- Its transfer has not begun, and is not counted yet. -/
theorem begun_of_isFresh {p : Party} (h : p.isFresh = true) :
    p.begun = false ∧ p.counted = false := by
  cases p with
  | sender s =>
    obtain ⟨settings, file, source, outbound, phase⟩ := s
    cases phase with
    | fresh => exact ⟨rfl, rfl⟩
    | _ => cases h
  | receiver dest r =>
    obtain ⟨settings, inbound, phase⟩ := r
    cases phase with
    | fresh => exact ⟨rfl, rfl⟩
    | _ => cases h
  | session c =>
    obtain ⟨ctx, peer, connection, stage, began⟩ := c
    cases stage with
    | fresh => exact ⟨by simpa [isFresh, begun] using h, rfl⟩
    | _ => cases h

/-- A party stays what it was, step by step. -/
theorem Sound.step {origin p : Party} (h : Sound origin p) (m : Machine) :
    Sound origin (p.step m).1 := by
  -- of the pairs only the three of one kind are possible
  cases origin <;> cases p
  case sender.sender => trivial
  case receiver.receiver => trivial
  case session.session => exact h.move (Session.moves_of_step _ m)
  all_goals exact h

/-- What one step of a party does to the counter. -/
theorem toll {origin p : Party} (h : Sound origin p) (m : Machine) :
    Toll m.ambient.own p.begun p.counted (p.step m).1.begun (p.step m).1.counted
      (p.step m).2.ambient.own := by
  -- the party is a transfer, or a session with one
  cases p with
  | sender s => exact s.toll m.ambient m.files
  | receiver dest r => exact r.toll dest m.ambient m.files
  | session c =>
    cases origin with
    | session first => exact Session.Sound.toll h (Session.moves_of_step _ m)
    | _ => cases h

end Party

/-! ## Any number of parties -/

/-- The accounts of one member: it has raised the counter once if its transfer has begun, and
lowered it once if its transfer has ended. -/
structure Member.Settled (x : Member) : Prop where
  sound : Party.Sound x.origin x.party
  raised : x.raised = x.party.begun.toNat
  lowered : x.lowered = (x.party.begun && !x.party.counted).toNat

namespace Traffic

variable {first : Machine} {t u : Traffic} {i : Nat}

/-- What a step of the traffic is made of. -/
theorem step_cases (h : t.step i = some u) :
    ∃ x, t.members[i]? = some x ∧
      u = { members := t.members.set i
              (advance x (x.party.step t.machine).1 t.machine (x.party.step t.machine).2)
            machine := (x.party.step t.machine).2
            made := staging x.party (x.party.step t.machine).1 ++ t.made
            stuck := sticking x.party t.machine.files ++ t.stuck } := by
  unfold step at h
  split at h
  · cases h
  · rename_i x hx
    exact ⟨x, hx, (Option.some.inj h).symm⟩

/-- A member that is counted is among those that are running. -/
theorem running_pos {x : Member} (hx : t.members[i]? = some x) (hcounted : x.party.counted = true) :
    0 < t.running :=
  List.countP_pos_iff.mpr ⟨x, List.mem_of_getElem? hx, hcounted⟩

/-- How many are running, when one member has become another one. -/
theorem running_set {x y : Member} (hx : t.members[i]? = some x) :
    (t.members.set i y).countP (·.party.counted) + x.party.counted.toNat =
      t.running + y.party.counted.toNat := by
  obtain ⟨hi, rfl⟩ := List.getElem?_eq_some_iff.mp hx
  have hpos : t.members[i].party.counted = true → 0 < t.running := running_pos hx
  unfold running at hpos ⊢
  rw [List.countP_set hi]
  cases hcounted : t.members[i].party.counted with
  | false => cases y.party.counted <;> simp
  | true =>
    have := hpos hcounted
    cases y.party.counted <;> simp <;> omega

/-- The counter shows the transfers that have begun and not ended, and the accounts of every member
are right. -/
structure Tallied (first : Machine) (t : Traffic) : Prop where
  counter : t.machine.ambient.own = first.ambient.own + t.running
  settled : ∀ x ∈ t.members, x.Settled

/-- Nobody has come along yet, and nothing is running. -/
theorem Tallied.begin (first : Machine) : Tallied first { machine := first } where
  counter := by simp [running]
  settled := by simp

/-- A party that comes along is not counted yet. -/
theorem Tallied.join {p : Party} (h : Tallied first t) (hfresh : p.isFresh = true) :
    Tallied first (t.join p) := by
  obtain ⟨hbegun, hcounted⟩ := Party.begun_of_isFresh hfresh
  constructor
  case counter =>
    have hrunning : (t.join p).running = t.running := by
      simp [running, Traffic.join, List.countP_append, hcounted]
    rw [hrunning]
    exact h.counter
  case settled =>
    intro x hx
    rcases List.mem_append.mp hx with hx | hx
    · exact h.settled x hx
    · obtain rfl := List.mem_singleton.mp hx
      exact ⟨Party.sound_of_isFresh hfresh, by simp [hbegun], by simp [hbegun]⟩

/-- A step of one party keeps the accounts. -/
theorem Tallied.step (h : Tallied first t) (hstep : t.step i = some u) : Tallied first u := by
  obtain ⟨x, hx, rfl⟩ := step_cases hstep
  obtain ⟨hsound, hraised, hlowered⟩ := h.settled x (List.mem_of_getElem? hx)
  have hcounter := h.counter
  have htoll := Party.toll hsound t.machine
  have hpos : x.party.counted = true → 0 < t.machine.ambient.own := fun hcounted => by
    have := running_pos hx hcounted
    omega
  have hset := running_set (y := advance x (x.party.step t.machine).1 t.machine
    (x.party.step t.machine).2) hx
  -- the counter follows the number of those that are running; of the members only one has changed
  constructor
  case counter =>
    have hown := htoll.own_eq hpos
    simp only [running, advance] at hset hcounter ⊢
    omega
  case settled =>
    intro y hy
    rcases List.mem_or_eq_of_mem_set hy with hy | rfl
    · exact h.settled y hy
    · constructor
      case sound => exact hsound.step t.machine
      case raised =>
        simp only [advance, hraised]
        exact htoll.raised_eq
      case lowered =>
        simp only [advance, hlowered]
        exact htoll.lowered_eq hpos

/-- What others have on the same counter does not come into the accounts. -/
theorem Tallied.elsewhere (h : Tallied first t) (clock : Clock) (others : Nat) :
    Tallied first (t.elsewhere clock others) where
  counter := h.counter
  settled := h.settled

/-- **The counter shows what is running**, in every traffic. -/
theorem tallied_of_reachable (h : Traffic.Reachable first t) : Tallied first t := by
  -- by induction on the way the traffic has come to be
  induction h with
  | begin => exact .begin first
  | join _ hfresh ih => exact ih.join hfresh
  | step _ hstep ih => exact ih.step hstep
  | elsewhere _ clock others ih => exact ih.elsewhere clock others

end Traffic

end Courier
