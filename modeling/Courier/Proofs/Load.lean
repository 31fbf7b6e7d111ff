import Courier.Proofs.Admission
import Courier.Proofs.Overflow
import Courier.Proofs.Receiver
import Courier.Proofs.Signals

/-!
# Receives under load

How large the chunks of a receive are depends on how many transfers run at the moment, and on the
rate. What comes of the receive does not: whatever happens elsewhere between its steps, it follows
from what is heard of its stream and from how many failures in a row are allowed. A step of the
receive leaves the harvest of the whole stream as what has been written and the harvest of the
rest. Only a rate beyond the largest buffer makes a difference: then a chunk may be too large to be
held, and the receive panics.

Main results:

* `Receiver.Unfolds` — a receive takes a step, or anything happens elsewhere.
* `Receiver.Stands.step` — what a step keeps true; `Receiver.stands_of_run` — what any course does.
* `Transfer.receive_unswayed` — what comes of a receive, and that it is the same in every course.
* `Transfer.receive_swayed` — a rate at which it is not.
-/

namespace Courier.Transfer

open Files Relation

/-- What comes of a receive of this script at a destination that admits it, unless it panics, which
it does not do at a rate that can be held. -/
structure DecidedByScript (limit rate : Nat) (dest : Path) (place : Location) (s : Inbound)
    (result : Except TransferError Report) (fs : Files) : Prop where
  held : rate ≤ maxBuffer → result ≠ .error .panicked
  succeeds : result ≠ .error .panicked →
    ((∃ report, result = .ok report) ↔ Bears limit (heard s.arrivals))
  stored : ∀ report, result = .ok report →
    (∃ elapsed, report = ⟨.receive, dest, s.pending.length, elapsed⟩) ∧
      ∃ serial, fs.tree.get? place = some (.file 0o644 serial s.pending)
  exhausted : ∀ e, result = .error e → e ≠ .panicked →
    ∃ f, GivesOut limit (heard s.arrivals) f ∧ e = .retriesExhausted .read limit f

/-- Of a receive that has panicked no more is said. -/
theorem DecidedByScript.of_panicked {limit rate : Nat} {dest : Path} {place : Location}
    {s : Inbound} {fs : Files} (hrate : maxBuffer < rate) :
    DecidedByScript limit rate dest place s (.error .panicked) fs where
  held := fun hle => absurd hle (Nat.not_le.mpr hrate)
  succeeds := fun hnot => absurd rfl hnot
  stored := nofun
  exhausted := fun _ he hnot => absurd (Except.error.inj he).symm hnot

namespace Receiver

variable {settings : Settings} {dest : Path} {place : Location} {first : Files}
  {script : List Signal}

/-- The result that follows from the script, and the file that is stored; or a panic. -/
inductive Comes (limit rate : Nat) (dest : Path) (place : Location) (script : List Signal) :
    Except TransferError Report → Files → Prop where
  | stored {content : Bytes} {elapsed serial : Nat} {fs : Files}
      (hharvest : harvest limit 0 script = (content, none))
      (hfile : fs.tree.get? place = some (.file 0o644 serial content)) :
      Comes limit rate dest place script (.ok ⟨.receive, dest, content.length, elapsed⟩) fs
  | exhausted {f : Fault} {fs : Files} (hharvest : (harvest limit 0 script).2 = some f) :
      Comes limit rate dest place script (.error (.retriesExhausted .read limit f)) fs
  | panicked {fs : Files} (hrate : maxBuffer < rate) :
      Comes limit rate dest place script (.error .panicked) fs

/-- Where a receive stands. -/
inductive Stands (settings : Settings) (dest : Path) (place : Location) (first : Files)
    (script : List Signal) : Receiver → Files → Prop where
  | fresh {t : Inbound} (hscript : heard t.arrivals = script) :
      Stands settings dest place first script ⟨settings, t, .fresh⟩ first
  | registered {t : Inbound} (hscript : heard t.arrivals = script) :
      Stands settings dest place first script ⟨settings, t, .registered⟩ first
  | ready {t : Inbound} {prepared : Files}
      (hprepare : prepareFolder dest first = (.ok (), prepared))
      (hscript : heard t.arrivals = script) :
      Stands settings dest place first script ⟨settings, t, .ready⟩ prepared
  | reading {t : Inbound} {prepared fs : Files} {staged : Staged} {pace : Pace}
      {pieces : List Bytes} {content : Bytes}
      (hprepare : prepareFolder dest first = (.ok (), prepared))
      (hwritten : Written dest prepared staged pieces content fs)
      (hdisk : fs.disk = first.disk) (hmoved : pace.moved = content.length)
      (hharvest : harvest (tries settings) 0 script =
        (content ++ (harvest (tries settings) 0 (heard t.arrivals)).1,
          (harvest (tries settings) 0 (heard t.arrivals)).2)) :
      Stands settings dest place first script ⟨settings, t, .reading staged pace⟩ fs
  | writing {t : Inbound} {prepared fs : Files} {staged : Staged} {pace : Pace}
      {pieces : List Bytes} {content chunk : Bytes}
      (hprepare : prepareFolder dest first = (.ok (), prepared))
      (hwritten : Written dest prepared staged pieces content fs)
      (hdisk : fs.disk = first.disk) (hmoved : pace.moved = content.length)
      (hharvest : harvest (tries settings) 0 script =
        (content ++ chunk ++ (harvest (tries settings) 0 (heard t.arrivals)).1,
          (harvest (tries settings) 0 (heard t.arrivals)).2)) :
      Stands settings dest place first script ⟨settings, t, .writing staged pace chunk⟩ fs
  | received {t : Inbound} {prepared fs : Files} {staged : Staged} {pace : Pace}
      {pieces : List Bytes} {content : Bytes}
      (hprepare : prepareFolder dest first = (.ok (), prepared))
      (hwritten : Written dest prepared staged pieces content fs)
      (hdisk : fs.disk = first.disk) (hmoved : pace.moved = content.length)
      (hharvest : harvest (tries settings) 0 script = (content, none)) :
      Stands settings dest place first script ⟨settings, t, .received staged pace⟩ fs
  | synced {t : Inbound} {prepared fs : Files} {staged : Staged} {pace : Pace}
      {pieces : List Bytes} {content : Bytes}
      (hprepare : prepareFolder dest first = (.ok (), prepared))
      (hwritten : Written dest prepared staged pieces content fs)
      (hmoved : pace.moved = content.length)
      (hharvest : harvest (tries settings) 0 script = (content, none)) :
      Stands settings dest place first script ⟨settings, t, .synced staged pace⟩ fs
  | discarding {t : Inbound} {fs : Files} {staged : Staged} {f : Fault}
      (hharvest : (harvest (tries settings) 0 script).2 = some f) :
      Stands settings dest place first script
        ⟨settings, t, .discarding staged (.retriesExhausted .read (tries settings) f)⟩ fs
  | overflowed {t : Inbound} {fs : Files} {staged : Staged}
      (hrate : maxBuffer < settings.baseRate.toNat) :
      Stands settings dest place first script ⟨settings, t, .discarding staged .panicked⟩ fs
  | ending {t : Inbound} {fs : Files} {result : Except TransferError Report}
      (h : Comes (tries settings) settings.baseRate.toNat dest place script result fs) :
      Stands settings dest place first script ⟨settings, t, .ending result⟩ fs
  | ended {t : Inbound} {fs : Files} {result : Except TransferError Report}
      (h : Comes (tries settings) settings.baseRate.toNat dest place script result fs) :
      Stands settings dest place first script ⟨settings, t, .ended result⟩ fs

/-- At least one attempt is made. -/
theorem tries_pos (settings : Settings) : 0 < tries settings :=
  Nat.lt_of_lt_of_le Nat.one_pos (Nat.le_max_left ..)

/-- **What a step keeps true**, whatever the surroundings are. -/
theorem Stands.step {r : Receiver} {fs : Files}
    (hadmits : Admits dest (harvest (tries settings) 0 script).1.length first place)
    (h : Stands settings dest place first script r fs) (a : Ambient) :
    Stands settings dest place first script (r.step dest a fs).1 (r.step dest a fs).2.2 := by
  cases h with
  | fresh hscript => exact .registered hscript
  | registered hscript =>
    obtain ⟨prepared, _, _, hprepare, -⟩ := hadmits.stageable
    simp only [Receiver.step, hadmits.nonempty, hprepare]
    exact .ready hprepare hscript
  | ready hprepare hscript =>
    obtain ⟨_, staged, fs', hprepare', hmake⟩ := hadmits.stageable
    obtain rfl := (Prod.mk.inj (hprepare.symm.trans hprepare')).2
    simp only [Receiver.step, hmake]
    rcases Staged.make_cases hmake with ⟨_, _, hr, -, hcreated⟩ | ⟨_, hr, -⟩
    · cases hr
      have hdisk : fs'.disk = first.disk := by
        have hstage := disk_make dest fs
        rw [hmake] at hstage
        have hnumbers := numbers_prepareFolder dest first
        rw [hprepare] at hnumbers
        exact hstage.trans (Prod.mk.inj hnumbers).2
      exact .reading hprepare (.begin hcreated) hdisk rfl (by rw [hscript]; rfl)
    · cases hr
  | @reading t prepared fs staged pace pieces content hprepare hwritten hdisk hmoved hharvest =>
    rcases Nat.lt_or_ge maxBuffer (chunkSize settings a) with hlt | hle
    · simp only [Receiver.step, nextChunk_of_lt hlt]
      exact .overflowed (lt_baseRate_of_lt hlt)
    obtain ⟨found, u, b, hread⟩ : ∃ found u b,
        readChunk settings 0 (chunkSize settings a) t a = (found, u, b) := ⟨_, _, _, rfl⟩
    have hnext := (nextChunk_of_le hle t).trans hread
    -- the chunk may have any size but none
    rcases harvest_of_readChunk (chunkSize_pos settings a) (tries_pos settings) hread with
      ⟨piece, rfl, hne, hpiece⟩ | ⟨rfl, hend⟩ | ⟨f, rfl, hfault⟩
    · obtain ⟨o, octets, rfl⟩ := List.exists_cons_of_ne_nil hne
      simp only [Receiver.step, hnext]
      exact .writing hprepare hwritten hdisk hmoved (by rw [hharvest, hpiece, List.append_assoc])
    · simp only [Receiver.step, hnext]
      exact .received hprepare hwritten hdisk hmoved (by rw [hharvest, hend, List.append_nil])
    · simp only [Receiver.step, hnext]
      exact .discarding (by rw [hharvest, hfault])
  | @writing t prepared fs staged pace pieces content chunk hprepare hwritten hdisk hmoved
      hharvest =>
    -- there is room for the harvest, and the chunk is a part of it
    have happend : fs.append staged.handle chunk =
        (.ok (), fs.commit (.append staged.handle.location chunk)) := by
      refine append_of_fits chunk hwritten.holds fun limit hl => ?_
      have hfits := hadmits.fits limit (sizeLimit_of_disk hdisk ▸ hl)
      rw [hharvest, List.length_append, List.length_append] at hfits
      omega
    simp only [Receiver.step, happend]
    refine .reading hprepare (hwritten.append chunk) hdisk ?_ hharvest
    rw [List.length_append, ← hmoved]
    rfl
  | @received t prepared fs staged pace pieces content hprepare hwritten hdisk hmoved hharvest =>
    have hsync : fs.sync = (.ok (), fs.sync.2) :=
      Prod.ext ((sync_of_disk hdisk).1.trans hadmits.synced) rfl
    have hwritten' := hwritten.sync
    generalize fs.sync.2 = fs' at hsync hwritten'
    simp only [Receiver.step, hsync]
    exact .synced hprepare hwritten' hmoved hharvest
  | @synced t prepared fs staged pace pieces content hprepare hwritten hmoved hharvest =>
    simp only [Receiver.step, hadmits.rename hprepare hwritten, hmoved]
    exact .ending (.stored hharvest (Change.get?_move_target hwritten.holds))
  | discarding hharvest => exact .ending (.exhausted hharvest)
  | overflowed hrate => exact .ending (.panicked hrate)
  | ending h => exact .ended h
  | ended h => exact .ended h

/-- What happens next: a step of the receive, or anything elsewhere. -/
inductive Unfolds (dest : Path) :
    Receiver × Ambient × Files → Receiver × Ambient × Files → Prop where
  | step {p q : Receiver × Ambient × Files} (h : Next dest p q) : Unfolds dest p q
  | elsewhere (r : Receiver) (a b : Ambient) (fs : Files) : Unfolds dest (r, a, fs) (r, b, fs)

/-- **What any course keeps true.** -/
theorem stands_of_run {p q : Receiver × Ambient × Files}
    (hadmits : Admits dest (harvest (tries settings) 0 script).1.length first place)
    (hrun : ReflTransGen (Unfolds dest) p q)
    (hp : Stands settings dest place first script p.1 p.2.2) :
    Stands settings dest place first script q.1 q.2.2 := by
  -- what happens elsewhere changes the load alone, which the invariant does not speak of
  induction hrun with
  | refl => exact hp
  | tail _ hnext ih =>
    cases hnext with
    | step h =>
      cases h with
      | step r a fs => exact ih.step hadmits a
    | elsewhere r a b fs => exact ih

/-- Whatever comes of a receive follows from its script, unless it is a panic. -/
theorem Comes.decided {limit rate : Nat} {s : Inbound} {result : Except TransferError Report}
    {fs : Files} (hpos : 0 < limit)
    (h : Comes limit rate dest place (heard s.arrivals) result fs) :
    DecidedByScript limit rate dest place s result fs := by
  -- the script bears its failures or gives out, and the harvest fits one of the outcomes only
  rcases harvest_eq hpos (heard s.arrivals) with ⟨hbears, hall⟩ | ⟨f, hgives, hf⟩
  · cases h with
    | stored hharvest hfile =>
      cases hall.symm.trans hharvest
      rw [octetsOf_heard] at hfile ⊢
      constructor
      case held => exact fun _ => nofun
      case succeeds => exact fun _ => ⟨fun _ => hbears, fun _ => ⟨_, rfl⟩⟩
      case stored =>
        intro report hr
        cases hr
        exact ⟨⟨_, rfl⟩, _, hfile⟩
      case exhausted =>
        intro e he
        cases he
    | exhausted hharvest =>
      rw [hall] at hharvest
      cases hharvest
    | panicked hrate => exact .of_panicked hrate
  · cases h with
    | stored hharvest =>
      rw [hharvest] at hf
      cases hf
    | exhausted hharvest =>
      cases hf.symm.trans hharvest
      constructor
      case held => exact fun _ => nofun
      case succeeds => exact fun _ => ⟨nofun, fun hbears => absurd hbears hgives.not_bears⟩
      case stored => exact nofun
      case exhausted =>
        intro e he _
        cases he
        exact ⟨f, hgives, rfl⟩
    | panicked hrate => exact .of_panicked hrate

/-- What comes of a receive is the same wherever the harvest is the same. -/
theorem Comes.size_eq {limit rate rate' : Nat} {result result' : Except TransferError Report}
    {fs fs' : Files} (h : Comes limit rate dest place script result fs)
    (h' : Comes limit rate' dest place script result' fs') (hheld : result ≠ .error .panicked)
    (hheld' : result' ≠ .error .panicked) : result'.map Report.size = result.map Report.size := by
  cases h with
  | stored hharvest =>
    cases h' with
    | stored hharvest' =>
      cases hharvest.symm.trans hharvest'
      rfl
    | exhausted hharvest' =>
      rw [hharvest] at hharvest'
      cases hharvest'
    | panicked => exact absurd rfl hheld'
  | panicked => exact absurd rfl hheld
  | exhausted hharvest =>
    cases h' with
    | stored hharvest' =>
      rw [hharvest'] at hharvest
      cases hharvest
    | exhausted hharvest' =>
      cases hharvest.symm.trans hharvest'
      rfl
    | panicked => exact absurd rfl hheld'

/-- What a course of a receive comes to in the end. -/
theorem comes_of_run {s t : Inbound} {a b : Ambient} {result : Except TransferError Report}
    {fs : Files}
    (hadmits : Admits dest (harvest (tries settings) 0 (heard s.arrivals)).1.length first place)
    (hrun : ReflTransGen (Unfolds dest) (⟨settings, s, .fresh⟩, a, first)
      (⟨settings, t, .ended result⟩, b, fs)) :
    Comes (tries settings) settings.baseRate.toNat dest place (heard s.arrivals) result fs := by
  have hends := stands_of_run hadmits hrun (.fresh rfl)
  cases hends with
  | ended h => exact h

/-- A course in which nothing happens elsewhere. -/
theorem unfolds_of_next {p q : Receiver × Ambient × Files} (h : ReflTransGen (Next dest) p q) :
    ReflTransGen (Unfolds dest) p q :=
  ReflTransGen.mono (fun _ _ hnext => Unfolds.step hnext) p q h

end Receiver

open Receiver

/-- **What comes of a receive does not depend on the load.** Where the destination admits the
harvest of the stream, the receive succeeds unless so many calls in a row fail as are allowed, and
then all that comes before the end is stored; otherwise the last of these failures is the error.
This is so in every course of the receive, whatever happens elsewhere between its steps, and for all
settings that allow as many failures: they give the same number of octets, or the same error. Only
at a rate beyond the largest buffer the receive may panic instead. -/
theorem receive_unswayed {settings : Settings} {dest : Path} {place : Location} {s : Inbound}
    {fs : Files}
    (hadmits : Admits dest (harvest (tries settings) 0 (heard s.arrivals)).1.length fs place)
    (a : Ambient) :
    DecidedByScript (tries settings) settings.baseRate.toNat dest place s
        (receiveFile settings dest s a fs).1 (receiveFile settings dest s a fs).2.2.2 ∧
      ∀ (settings' : Settings) (s' t : Inbound) (a' b : Ambient)
        (result : Except TransferError Report) (fs' : Files),
        settings'.maxRetries = settings.maxRetries → heard s'.arrivals = heard s.arrivals →
        ReflTransGen (Unfolds dest) (⟨settings', s', .fresh⟩, a', fs)
          (⟨settings', t, .ended result⟩, b, fs') →
        DecidedByScript (tries settings) settings'.baseRate.toNat dest place s result fs' ∧
          ((receiveFile settings dest s a fs).1 ≠ .error .panicked → result ≠ .error .panicked →
            result.map Report.size =
              (receiveFile settings dest s a fs).1.map Report.size) := by
  have hcomes := comes_of_run hadmits
    (unfolds_of_next (runs_alone dest settings s a fs))
  refine ⟨hcomes.decided (tries_pos settings), ?_⟩
  intro settings' s' t a' b result fs' hretries hheard hrun
  have htries : tries settings' = tries settings := by
    unfold tries
    rw [hretries]
  have hcomes' : Comes (tries settings') settings'.baseRate.toNat dest place (heard s'.arrivals)
      result fs' := comes_of_run (by rwa [htries, hheard]) hrun
  rw [htries, hheard] at hcomes'
  exact ⟨hcomes'.decided (tries_pos settings), hcomes.size_eq hcomes'⟩

/-- Failures between two pieces, and more after the end. -/
def falteringSource : Inbound :=
  .of [.data [1, 2], .fault (.bare .timedOut), .aside (.join 3), .fault (.bare .timedOut),
    .data [3, 4], .pause, .fault (.bare .timedOut)]

/-- The same, but others come and go at other times. -/
def falteringSource' : Inbound :=
  .of [.aside (.join 9), .data [1, 2], .fault (.bare .timedOut), .fault (.bare .timedOut),
    .aside (.leave 5), .data [3, 4], .pause]

/-- A source that fails twice, in two settings of rate and load: the script alone decides. -/
theorem receive_unswayed_faltering :
    Admits (.of "copy") (harvest (tries {}) 0 (heard falteringSource.arrivals)).1.length bareFiles
        [bytes "copy"] ∧
      DecidedByScript (tries {}) ({} : Settings).baseRate.toNat (.of "copy") [bytes "copy"]
        falteringSource (receiveFile {} (.of "copy") falteringSource default bareFiles).1
        (receiveFile {} (.of "copy") falteringSource default bareFiles).2.2.2 ∧
      (receiveFile { baseRate := 0 } (.of "copy") falteringSource' default bareFiles).1.map
          Report.size =
        (receiveFile {} (.of "copy") falteringSource default bareFiles).1.map Report.size :=
  have h := @receive_unswayed {} _ _ falteringSource _ admits_bareFiles default
  have h' := h.2 { baseRate := 0 } falteringSource' _ default _ _ _ rfl rfl
    (unfolds_of_next (runs_alone (.of "copy") { baseRate := 0 } falteringSource' default bareFiles))
  ⟨admits_bareFiles, h.1, h'.2 (h.1.held (by decide)) (h'.1.held (by decide))⟩

/-- At a rate of so many octets a second a stream without a failure is not received. -/
theorem receive_swayed :
    Admits (.of "copy") (harvest (tries { baseRate := 9223372036854775808 }) 0
        (heard (Inbound.ofBytes []).arrivals)).1.length bareFiles [bytes "copy"] ∧
      Bears (tries { baseRate := 9223372036854775808 }) (heard (Inbound.ofBytes []).arrivals) ∧
      (receiveFile { baseRate := 9223372036854775808 } (.of "copy") (.ofBytes []) default
        bareFiles).1 = .error .panicked := by
  refine ⟨admits_bareFiles, ?_, ?_⟩
  · -- nothing at all is heard
    intro run hlength hwithin
    have hnone : heard (Inbound.ofBytes []).arrivals = [] := by
      simp [Inbound.ofBytes, Inbound.of, heard]
    rw [hnone, List.infix_nil, outage, List.map_eq_nil_iff] at hwithin
    rw [hwithin] at hlength
    exact absurd hlength (Nat.ne_of_lt (tries_pos _))
  · obtain ⟨prepared, staged, fs₁, hprepare, hmake⟩ := (@admits_bareFiles 0).stageable
    have hlt : maxBuffer <
        chunkSize { baseRate := 9223372036854775808 } (default : Ambient).register := by decide
    rw [receiveFile_of_lt hlt (by decide) hprepare hmake]

end Courier.Transfer
