import Courier.Proofs.Atomic
import Courier.Proofs.Sharing

/-!
# Receives into one destination

Receives into one destination may take their steps in any order. Each has a staged file of its own,
which no other step touches; the destination changes only when one of these files takes its place.
Every entry of the tree is accounted for: it was there at first, or is a folder made ready, a staged
file, or the destination.

Main results:

* `Transfer.Kept` — what holds between any two steps.
* `Transfer.Turn` — what one receive may do in a step that spares the others.
* `Transfer.Turn.kept` — such a step keeps what holds.
-/

namespace Courier.Transfer

open Files Receiver

/-! ## One receive among others -/

/-- What the stream of a receive holds, up to its end. -/
def dataOf (receives : List (Settings × Inbound)) (i : Nat) : Bytes :=
  (receives[i]?.map (·.2.pending)).getD []

/-- A receive has staged `content`, in a file where nothing was at first. -/
structure Held (dest : Path) (first fs : Files) (staged : Staged) (content : Bytes) : Prop where
  path : ∃ n, staged.path = stagingPath dest first.here n
  slot : ∃ folder name, fs.Slot staged.path folder name ∧ staged.handle.location = folder ++ [name]
  missing : first.tree.get? staged.handle.location = none
  holds : fs.Holds staged.handle 0o644 content

/-- What a receive has staged and what its stream still brings are all of its data. -/
inductive Sound (dest : Path) (first fs : Files) (data : Bytes) : Inbound → Phase → Prop where
  | fresh {s : Inbound} (hdata : s.pending = data) : Sound dest first fs data s .fresh
  | registered {s : Inbound} (hdata : s.pending = data) : Sound dest first fs data s .registered
  | ready {s : Inbound} (hdata : s.pending = data) : Sound dest first fs data s .ready
  | reading {s : Inbound} {staged : Staged} {pace : Pace} {content : Bytes}
      (hheld : Held dest first fs staged content) (hdata : content ++ s.pending = data)
      (hmoved : pace.moved = content.length) : Sound dest first fs data s (.reading staged pace)
  | writing {s : Inbound} {staged : Staged} {pace : Pace} {chunk content : Bytes}
      (hheld : Held dest first fs staged content) (hdata : content ++ (chunk ++ s.pending) = data)
      (hmoved : pace.moved = content.length) :
      Sound dest first fs data s (.writing staged pace chunk)
  | received {s : Inbound} {staged : Staged} {pace : Pace} (hheld : Held dest first fs staged data)
      (hmoved : pace.moved = data.length) : Sound dest first fs data s (.received staged pace)
  | synced {s : Inbound} {staged : Staged} {pace : Pace} (hheld : Held dest first fs staged data)
      (hmoved : pace.moved = data.length) : Sound dest first fs data s (.synced staged pace)
  | discarding {s : Inbound} {staged : Staged} {e : TransferError} {content : Bytes}
      (hheld : Held dest first fs staged content) (hpart : content <+: data) :
      Sound dest first fs data s (.discarding staged e)
  | ending {s : Inbound} {result : Except TransferError Report}
      (hsize : ∀ report, result = .ok report → report.size = data.length) :
      Sound dest first fs data s (.ending result)
  | ended {s : Inbound} {result : Except TransferError Report}
      (hsize : ∀ report, result = .ok report → report.size = data.length) :
      Sound dest first fs data s (.ended result)

variable {dest : Path} {first fs fs' : Files} {data content : Bytes} {s : Inbound} {phase : Phase}
  {staged : Staged} {touched : List Location}

/-- A staged file is not where the destination is. -/
theorem Held.slotOf_ne (h : Held dest first fs staged content) {here : Files} {place : Location}
    (hplace : here.slotOf dest .busy = .ok place) : place ≠ staged.handle.location := by
  obtain ⟨n, hpath⟩ := h.path
  obtain ⟨folder, name, hslot, hlocation⟩ := h.slot
  obtain ⟨folder', name', hdest, rfl⟩ := slot_of_slotOf hplace
  rw [hpath] at hslot
  exact hlocation ▸ Staged.location_ne hslot hdest

/-- What is staged is in the tree. -/
theorem Held.get? (h : Held dest first fs staged content) :
    fs.tree.get? staged.handle.location = some (.file 0o644 staged.handle.serial content) :=
  h.holds

/-- What is staged is part of the data. -/
theorem Sound.held (h : Sound dest first fs data s phase) (hstaged : phase.staged? = some staged) :
    ∃ content, Held dest first fs staged content ∧ content <+: data := by
  cases h with
  | fresh | registered | ready | ending | ended => cases hstaged
  | reading hheld hdata =>
    cases hstaged
    exact ⟨_, hheld, _, hdata⟩
  | writing hheld hdata =>
    cases hstaged
    exact ⟨_, hheld, _, hdata⟩
  | received hheld | synced hheld =>
    cases hstaged
    exact ⟨_, hheld, List.prefix_rfl⟩
  | discarding hheld hpart =>
    cases hstaged
    exact ⟨_, hheld, hpart⟩

/-- A step that leaves the staged file alone leaves the receive alone. -/
theorem Sound.frame (h : Sound dest first fs data s phase)
    (hframe : ∀ staged content, phase.staged? = some staged → Held dest first fs staged content →
      Held dest first fs' staged content) : Sound dest first fs' data s phase := by
  cases h with
  | fresh hdata => exact .fresh hdata
  | registered hdata => exact .registered hdata
  | ready hdata => exact .ready hdata
  | reading hheld hdata hmoved => exact .reading (hframe _ _ rfl hheld) hdata hmoved
  | writing hheld hdata hmoved => exact .writing (hframe _ _ rfl hheld) hdata hmoved
  | received hheld hmoved => exact .received (hframe _ _ rfl hheld) hmoved
  | synced hheld hmoved => exact .synced (hframe _ _ rfl hheld) hmoved
  | discarding hheld hpart => exact .discarding (hframe _ _ rfl hheld) hpart
  | ending hsize => exact .ending hsize
  | ended hsize => exact .ended hsize

/-- A step that does not touch the staged file leaves it as it is. -/
theorem Held.frame (h : Held dest first fs staged content) (hspares : fs.Spares touched fs')
    (hnot : staged.handle.location ∉ touched) : Held dest first fs' staged content where
  path := h.path
  slot := by
    obtain ⟨folder, name, hslot, hlocation⟩ := h.slot
    exact ⟨folder, name, hspares.slots _ _ _ hslot, hlocation⟩
  missing := h.missing
  holds := (hspares.others _ hnot).trans h.holds

/-- What is added to a staged file is at its end. -/
theorem Held.append (h : Held dest first fs staged content) (written : Bytes) :
    Held dest first (fs.commit (.append staged.handle.location written)) staged
      (content ++ written) where
  path := h.path
  slot := by
    obtain ⟨folder, name, hslot, hlocation⟩ := h.slot
    exact ⟨folder, name, (spares_append _ written).slots _ _ _ hslot, hlocation⟩
  missing := h.missing
  holds := h.holds.append written

/-- A staged file is none of what there was when the folder got ready. -/
theorem Held.missing_ready {ready : Files} (h : Held dest first fs staged content)
    (hready : Readied dest first ready) (honly : ready.tree.FilesOnly fs.tree) :
    ready.tree.get? staged.handle.location = none := by
  obtain ⟨made, hmade⟩ := hready.furnished
  have hget := hmade.get? staged.handle.location
  split at hget
  · -- a folder would still be there
    have hfolder := honly.shown _ _ (Tree.shape_of_get? hget)
    rw [Tree.shape_of_get? h.get?] at hfolder
    cases hfolder
  · rw [hget, h.missing]

/-- While something is staged there is no result. -/
theorem Phase.result?_of_staged (h : phase.staged? = some staged) : phase.result? = none := by
  cases phase with
  | fresh | registered | ready | ending | ended => cases h
  | reading | writing | received | synced | discarding => rfl

/-- Before anything is staged all of the data is still to come. -/
theorem Sound.pending (h : Sound dest first fs data s phase)
    (hphase : phase = .fresh ∨ phase = .registered ∨ phase = .ready) : s.pending = data := by
  cases h with
  | fresh hdata | registered hdata | ready hdata => exact hdata
  | reading | writing | received | synced | discarding | ending | ended => simp at hphase

/-! ## What holds between any two steps -/

/-- Where the entry at a location comes from. -/
inductive Origin (dest : Path) (first : Files) (c : Crowd) (l : Location) : Prop where
  | old (hsame : c.files.tree.get? l = first.tree.get? l)
  | made (hmissing : first.tree.get? l = none)
      (hfolder : c.files.tree.get? l = some (.folder 0o755))
      (habove : c.promoted = [] →
        ∃ p ∈ dest.folder.lineage, c.files.slotOf p .alreadyThere = .ok l)
  | staged {i : Nat} {r : Receiver} {staged : Staged} (hr : c.receivers[i]? = some r)
      (hstaged : r.phase.staged? = some staged) (hl : l = staged.handle.location)
  | promoted (hsome : c.promoted ≠ []) (hdest : c.files.slotOf dest .busy = .ok l)

/-- A receive before it has done anything to the files. -/
def Phase.isEarly (phase : Phase) : Prop :=
  phase = .fresh ∨ phase = .registered

/-- A receive that has not found the folder of the destination ready. -/
def Phase.isBare (phase : Phase) : Prop :=
  phase.isEarly ∨ ∃ e, phase.result? = some (.error e)

/-- What has come of the folder of the destination: nobody has got it ready so far, or all that is
new since somebody has are files. -/
inductive Ground (dest : Path) (first : Files) (receivers : List Receiver) (fs : Files) : Prop where
  | bare (hbare : ∀ r ∈ receivers, r.phase.isBare)
      (hready : ∀ ready, Readied dest fs ready → Readied dest first ready)
  | ready {ready : Files} (hready : Readied dest first ready)
      (honly : ready.tree.FilesOnly fs.tree)

/-- What holds between any two steps of a crowd. -/
structure Kept (dest : Path) (receives : List (Settings × Inbound)) (first : Files) (c : Crowd) :
    Prop where
  here : c.files.here = first.here
  sound : ∀ i r, c.receivers[i]? = some r →
    Sound dest first c.files (dataOf receives i) r.inbound r.phase
  apart : ∀ (i j : Nat) (r r' : Receiver) (staged staged' : Staged), i ≠ j →
    c.receivers[i]? = some r → c.receivers[j]? = some r' →
    r.phase.staged? = some staged → r'.phase.staged? = some staged' →
    staged.handle.location ≠ staged'.handle.location
  origin : ∀ l, Origin dest first c l
  shown : c.promoted = [] → first.tree.ShownBy c.files.tree
  newest : ∀ i rest, c.promoted = i :: rest → ∃ place serial,
    c.files.slotOf dest .busy = .ok place ∧
      c.files.tree.get? place = some (.file 0o644 serial (dataOf receives i))
  place : ∀ l, destination dest first = .ok l →
    (c.files = first ∧ ∀ r ∈ c.receivers, r.phase.isEarly) ∨ c.files.slotOf dest .busy = .ok l
  promoted : ∀ i, i ∈ c.promoted ↔
    ∃ r report, c.receivers[i]? = some r ∧ r.phase.result? = some (.ok report)
  ground : c.promoted = [] → Ground dest first c.receivers c.files

variable {receives : List (Settings × Inbound)} {c : Crowd}

/-- Before the first step nothing has happened. -/
theorem kept_begin (ambient : Ambient) (first : Files) :
    Kept dest receives first (.begin receives ambient first) := by
  -- no receive has begun
  have hfresh {i : Nat} {r : Receiver}
      (hr : (Crowd.begin receives ambient first).receivers[i]? = some r) :
      r.phase = .fresh ∧ r.inbound.pending = dataOf receives i := by
    rw [Crowd.begin, List.getElem?_map] at hr
    unfold dataOf
    cases hi : receives[i]? with
    | none => rw [hi] at hr; cases hr
    | some receive =>
      rw [hi] at hr
      cases hr
      exact ⟨rfl, rfl⟩
  constructor
  case here => rfl
  case sound =>
    intro i r hr
    obtain ⟨hphase, hdata⟩ := hfresh hr
    rw [hphase]
    exact .fresh hdata
  case apart =>
    intro i j r r' staged staged' _ hr _ hstaged
    rw [(hfresh hr).1] at hstaged
    cases hstaged
  case origin => exact fun l => .old rfl
  case shown => exact fun _ => Tree.ShownBy.refl _
  case newest => nofun
  case place =>
    refine fun l _ => .inl ⟨rfl, fun r hr => ?_⟩
    obtain ⟨i, hi⟩ := List.mem_iff_getElem?.mp hr
    exact .inl (hfresh hi).1
  case promoted =>
    refine fun i => ⟨nofun, fun ⟨r, report, hr, hresult⟩ => ?_⟩
    rw [(hfresh hr).1] at hresult
    cases hresult
  case ground =>
    refine fun _ => .bare (fun r hr => ?_) fun _ h => h
    obtain ⟨i, hi⟩ := List.mem_iff_getElem?.mp hr
    exact .inl (.inl (hfresh hi).1)

namespace Kept

/-- What happens elsewhere changes nothing here. -/
theorem elsewhere (h : Kept dest receives first c) (ambient : Ambient) :
    Kept dest receives first { c with ambient } where
  here := h.here
  sound := h.sound
  apart := h.apart
  origin := fun l => by
    cases h.origin l with
    | old hsame => exact .old hsame
    | made hmissing hfolder habove => exact .made hmissing hfolder habove
    | staged hr hstaged hl => exact .staged hr hstaged hl
    | promoted hsome hdest => exact .promoted hsome hdest
  shown := h.shown
  newest := h.newest
  place := h.place
  promoted := h.promoted
  ground := h.ground

/-- Where nothing is now, nothing was at first. -/
theorem missing (h : Kept dest receives first c) {l : Location}
    (hl : c.files.tree.get? l = none) : first.tree.get? l = none := by
  cases h.origin l with
  | old hsame => rw [← hsame, hl]
  | made hmissing => exact hmissing
  | staged hr hstaged heq =>
    obtain ⟨content, hheld, -⟩ := (h.sound _ _ hr).held hstaged
    exact heq ▸ hheld.missing
  | promoted hsome hdest =>
    obtain ⟨i, rest, hpromoted⟩ := List.exists_cons_of_ne_nil hsome
    obtain ⟨place, serial, hplace, hfile⟩ := h.newest i rest hpromoted
    obtain rfl := Except.ok.inj (hplace.symm.trans hdest)
    rw [hfile] at hl
    cases hl

variable {i : Nat} {r r' : Receiver}

/-- The receiver that takes the place of one of a crowd. -/
theorem set_self (hr : c.receivers[i]? = some r) (r' : Receiver) :
    (c.receivers.set i r')[i]? = some r' :=
  List.getElem?_set_self (List.getElem?_eq_some_iff.mp hr).1

/-- The others stay. -/
theorem set_other {j : Nat} {q : Receiver} (hj : j ≠ i) (hq : c.receivers[j]? = some q)
    (r' : Receiver) : (c.receivers.set i r')[j]? = some q := by
  rwa [List.getElem?_set_ne (Ne.symm hj)]

/-- A receiver of a crowd in which one was replaced. -/
theorem of_set {receivers : List Receiver} {j : Nat} {q : Receiver}
    (h : (receivers.set i r')[j]? = some q) : j = i ∧ q = r' ∨ j ≠ i ∧ receivers[j]? = some q := by
  by_cases hj : j = i
  · subst hj
    have hlength : j < receivers.length := by
      have := (List.getElem?_eq_some_iff.mp h).1
      rwa [List.length_set] at this
    rw [List.getElem?_set_self hlength] at h
    exact .inl ⟨rfl, (Option.some.inj h).symm⟩
  · rw [List.getElem?_set_ne (Ne.symm hj)] at h
    exact .inr ⟨hj, h⟩

end Kept

/-! ## A step that spares the others -/

/-- One receive takes a step from `r` to `r'` that touches only its own staged file and what was
missing, and accounts for what it leaves there. -/
structure Turn (dest : Path) (receives : List (Settings × Inbound)) (first : Files) (c : Crowd)
    (i : Nat) (r r' : Receiver) (touched : List Location) (fs' : Files) : Prop where
  spares : c.files.Spares touched fs'
  own : ∀ l ∈ touched, c.files.tree.get? l = none ∨
    ∃ staged, r.phase.staged? = some staged ∧ l = staged.handle.location
  sound : Sound dest first fs' (dataOf receives i) r'.inbound r'.phase
  new : ∀ staged, r'.phase.staged? = some staged →
    r.phase.staged? = some staged ∨ c.files.tree.get? staged.handle.location = none
  left : ∀ staged, r.phase.staged? = some staged →
    r'.phase.staged? = some staged ∨ fs'.tree.get? staged.handle.location = none
  origin : ∀ l ∈ touched, fs'.tree.get? l = first.tree.get? l ∨
    (fs'.tree.get? l = some (.folder 0o755) ∧
      ∃ p ∈ dest.folder.lineage, fs'.slotOf p .alreadyThere = .ok l) ∨
    ∃ staged, r'.phase.staged? = some staged ∧ l = staged.handle.location
  early : r.phase.isEarly → ∀ l, destination dest c.files = .ok l →
    (fs' = c.files ∧ r'.phase.isEarly) ∨ fs'.slotOf dest .busy = .ok l
  result : ∀ report, r'.phase.result? = some (.ok report) ↔ r.phase.result? = some (.ok report)
  ground : Ground dest first c.receivers c.files → Ground dest first (c.receivers.set i r') fs'

namespace Turn

variable {i : Nat} {r r' : Receiver}

section

variable (h : Kept dest receives first c) (hr : c.receivers[i]? = some r)
  (ht : Turn dest receives first c i r r' touched fs')

include h hr ht

/-- What is touched was missing at first. -/
theorem missing {l : Location} (hl : l ∈ touched) : first.tree.get? l = none := by
  rcases ht.own l hl with hnone | ⟨staged, hstaged, rfl⟩
  · exact h.missing hnone
  · obtain ⟨content, hheld, -⟩ := (h.sound i r hr).held hstaged
    exact hheld.missing

/-- The others keep their staged files. -/
theorem spared {j : Nat} {q : Receiver} (hj : j ≠ i) (hq : c.receivers[j]? = some q)
    (hstaged : q.phase.staged? = some staged) : staged.handle.location ∉ touched := by
  intro hl
  obtain ⟨content, hheld, -⟩ := (h.sound j q hq).held hstaged
  rcases ht.own _ hl with hnone | ⟨staged', hstaged', heq⟩
  · rw [hheld.get?] at hnone
    cases hnone
  · exact h.apart j i q r staged staged' hj hq hr hstaged hstaged' heq

/-- What the receives have staged and what is still to come are all of their data. -/
theorem sound_all {j : Nat} {q : Receiver} (hq : (c.receivers.set i r')[j]? = some q) :
    Sound dest first fs' (dataOf receives j) q.inbound q.phase := by
  rcases Kept.of_set hq with ⟨rfl, rfl⟩ | ⟨hj, hq⟩
  · exact ht.sound
  · exact (h.sound j q hq).frame fun staged content hstaged hheld =>
      hheld.frame ht.spares (ht.spared h hr hj hq hstaged)

/-- A staged file of the receive that moves on is none of the others: it is its own from before, or
is new. -/
theorem apart_new {j : Nat} {q : Receiver} {staged' : Staged} (hj : j ≠ i)
    (hq : c.receivers[j]? = some q) (hstaged : q.phase.staged? = some staged)
    (hstaged' : r'.phase.staged? = some staged') :
    staged.handle.location ≠ staged'.handle.location := by
  rcases ht.new staged' hstaged' with hold | hnone
  · exact h.apart j i q r staged staged' hj hq hr hstaged hold
  · obtain ⟨content, hheld, -⟩ := (h.sound j q hq).held hstaged
    intro heq
    rw [← heq, hheld.get?] at hnone
    cases hnone

/-- No two receives have a staged file in common. -/
theorem apart_all {j k : Nat} {q q' : Receiver} {staged staged' : Staged} (hjk : j ≠ k)
    (hq : (c.receivers.set i r')[j]? = some q) (hq' : (c.receivers.set i r')[k]? = some q')
    (hstaged : q.phase.staged? = some staged) (hstaged' : q'.phase.staged? = some staged') :
    staged.handle.location ≠ staged'.handle.location := by
  rcases Kept.of_set hq with ⟨rfl, rfl⟩ | ⟨hj, hold⟩
  · rcases Kept.of_set hq' with ⟨rfl, rfl⟩ | ⟨hk, hold'⟩
    · exact absurd rfl hjk
    · exact (ht.apart_new h hr hk hold' hstaged' hstaged).symm
  · rcases Kept.of_set hq' with ⟨rfl, rfl⟩ | ⟨hk, hold'⟩
    · exact ht.apart_new h hr hj hold hstaged hstaged'
    · exact h.apart j k q q' staged staged' hjk hold hold' hstaged hstaged'

/-- Every entry is still accounted for. -/
theorem origin_all (ambient : Ambient) (l : Location) :
    Origin dest first
      { receivers := c.receivers.set i r', ambient, files := fs', promoted := c.promoted } l := by
  -- the step says where what it touches comes from; all else is where it was
  by_cases hl : l ∈ touched
  · rcases ht.origin l hl with hsame | ⟨hfolder, habove⟩ | ⟨staged, hstaged, heq⟩
    · exact .old hsame
    · exact .made (ht.missing h hr hl) hfolder fun _ => habove
    · exact .staged (Kept.set_self hr _) hstaged heq
  · have hget := ht.spares.others l hl
    cases h.origin l with
    | old hsame => exact .old (hget.trans hsame)
    | made hnone hfolder habove =>
      refine .made hnone (hget.trans hfolder) fun hpromoted => ?_
      obtain ⟨p, hp, hslot⟩ := habove hpromoted
      exact ⟨p, hp, ht.spares.slotOf hslot⟩
    | @staged j q staged hq hstaged heq =>
      by_cases hj : j = i
      · -- the receive still has its staged file, or it is gone
        subst hj
        obtain rfl := Option.some.inj (hr.symm.trans hq)
        rcases ht.left staged hstaged with hstill | hnone
        · exact .staged (Kept.set_self hr _) hstill heq
        · obtain ⟨content, hheld, -⟩ := (h.sound j _ hr).held hstaged
          exact .old (by rw [heq, hheld.missing]; exact hnone)
      · exact .staged (Kept.set_other hj hq _) hstaged heq
    | promoted hsome hdest => exact .promoted hsome (ht.spares.slotOf hdest)

/-- What was renamed last is still at the destination. -/
theorem newest_all {j : Nat} {rest : List Nat} (hpromoted : c.promoted = j :: rest) :
    ∃ place serial, fs'.slotOf dest .busy = .ok place ∧
      fs'.tree.get? place = some (.file 0o644 serial (dataOf receives j)) := by
  obtain ⟨place, serial, hplace, hfile⟩ := h.newest j rest hpromoted
  refine ⟨place, serial, ht.spares.slotOf hplace, ?_⟩
  rw [ht.spares.others]
  · exact hfile
  · -- the destination is neither missing nor a staged file
    intro hl
    rcases ht.own place hl with hnone | ⟨staged, hstaged, heq⟩
    · rw [hfile] at hnone
      cases hnone
    · obtain ⟨content, hheld, -⟩ := (h.sound i r hr).held hstaged
      exact hheld.slotOf_ne hplace heq

/-- The destination is still where it was said to be. -/
theorem place_all {l : Location} (hl : destination dest first = .ok l) :
    (fs' = first ∧ ∀ q ∈ c.receivers.set i r', q.phase.isEarly) ∨
      fs'.slotOf dest .busy = .ok l := by
  rcases h.place l hl with ⟨hfiles, hall⟩ | hdest
  · rcases ht.early (hall r (List.mem_of_getElem? hr)) l (hfiles ▸ hl) with ⟨hsame, hr'⟩ | hdest
    · refine .inl ⟨hsame.trans hfiles, fun q hq => ?_⟩
      rcases List.mem_or_eq_of_mem_set hq with hq | rfl
      · exact hall q hq
      · exact hr'
    · exact .inr hdest
  · exact .inr (ht.spares.slotOf hdest)

/-- Those that have renamed are still those that succeed. -/
theorem promoted_all (j : Nat) : j ∈ c.promoted ↔
    ∃ q report, (c.receivers.set i r')[j]? = some q ∧ q.phase.result? = some (.ok report) := by
  refine (h.promoted j).trans ⟨?_, ?_⟩
  · rintro ⟨q, report, hq, hreport⟩
    by_cases hj : j = i
    · subst hj
      obtain rfl := Option.some.inj (hr.symm.trans hq)
      exact ⟨r', report, Kept.set_self hr _, (ht.result report).mpr hreport⟩
    · exact ⟨q, report, Kept.set_other hj hq _, hreport⟩
  · rintro ⟨q, report, hq, hreport⟩
    rcases Kept.of_set hq with ⟨rfl, rfl⟩ | ⟨hj, hq⟩
    · exact ⟨r, report, hr, (ht.result report).mp hreport⟩
    · exact ⟨q, report, hq, hreport⟩

/-- **A step that spares the others keeps all this.** -/
theorem kept (ambient : Ambient) :
    Kept dest receives first
      { receivers := c.receivers.set i r', ambient, files := fs', promoted := c.promoted } where
  here := ht.spares.here.trans h.here
  sound := fun _ _ => ht.sound_all h hr
  apart := fun _ _ _ _ _ _ => ht.apart_all h hr
  origin := ht.origin_all h hr ambient
  shown := fun hpromoted => ht.spares.shownBy (h.shown hpromoted) fun _ => ht.missing h hr
  newest := fun _ _ => ht.newest_all h hr
  place := fun _ => ht.place_all h hr
  promoted := ht.promoted_all h hr
  ground := fun hpromoted => ht.ground (h.ground hpromoted)

end

/-! ### What has come of the folder -/

/-- A step is of no account to the folder, if it adds nothing but files, and nothing at all while
the folder is not ready. -/
theorem ground_of_filesOnly (hr : c.receivers[i]? = some r)
    (hbare : r.phase.isBare → r'.phase.isBare ∧ fs' = c.files)
    (honly : c.files.tree.FilesOnly fs'.tree) (h : Ground dest first c.receivers c.files) :
    Ground dest first (c.receivers.set i r') fs' := by
  cases h with
  | bare hall hready =>
    obtain ⟨hr', rfl⟩ := hbare (hall r (List.mem_of_getElem? hr))
    refine .bare (fun q hq => ?_) hready
    rcases List.mem_or_eq_of_mem_set hq with hq | rfl
    · exact hall q hq
    · exact hr'
  | ready hready honly' => exact .ready hready (honly'.trans honly)

/-- A receive that has staged a file has found the folder ready. -/
theorem not_isBare_of_staged (h : phase.staged? = some staged) : ¬ phase.isBare := by
  rintro ((rfl | rfl) | ⟨e, hresult⟩)
  · cases h
  · cases h
  · rw [Phase.result?_of_staged h] at hresult
    cases hresult

/-- A step that does nothing to the tree, and that a receive takes which stages nothing by it. -/
theorem of_quiet (hr : c.receivers[i]? = some r) (hspares : c.files.Spares [] fs')
    (hsound : Sound dest first fs' (dataOf receives i) r'.inbound r'.phase)
    (hstaged : r'.phase.staged? = r.phase.staged?)
    (hearly : r.phase.isEarly → ∀ l, destination dest c.files = .ok l →
      fs' = c.files ∧ r'.phase.isEarly)
    (hbare : r.phase.isBare → r'.phase.isBare ∧ fs' = c.files)
    (hresult : ∀ report, r'.phase.result? = some (.ok report) ↔
      r.phase.result? = some (.ok report)) :
    Turn dest receives first c i r r' [] fs' where
  spares := hspares
  own := nofun
  sound := hsound
  new := fun _ hnew => .inl (hstaged ▸ hnew)
  left := fun _ hold => .inl (hstaged ▸ hold)
  origin := nofun
  early := fun he l hl => .inl (hearly he l hl)
  result := hresult
  ground := ground_of_filesOnly hr hbare <| Tree.filesOnly_of_shape_eq fun l => by
    rw [Tree.shape, Tree.shape, hspares.others l (by simp)]

/-- A step that leaves the files alone, taken by a receive that has found the folder ready. -/
theorem of_still (hr : c.receivers[i]? = some r) (hstaged : r.phase.staged? ≠ none)
    (hsound : Sound dest first c.files (dataOf receives i) r'.inbound r'.phase)
    (hsame : r'.phase.staged? = r.phase.staged?) :
    Turn dest receives first c i r r' [] c.files := by
  obtain ⟨staged, hsome⟩ := Option.ne_none_iff_exists'.mp hstaged
  have hlate := not_isBare_of_staged hsome
  refine .of_quiet hr (.refl _) hsound hsame (fun he => absurd (.inl he) hlate)
    (fun hbare => absurd hbare hlate) fun report => ?_
  rw [Phase.result?_of_staged hsome, Phase.result?_of_staged (hsame.trans hsome)]

end Turn

end Courier.Transfer
