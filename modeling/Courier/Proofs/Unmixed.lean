import Mathlib.Algebra.Module.Submodule.Lattice
import Courier.Proofs.Renaming

/-!
# Contents are not mixed

What can be seen of receives into one destination, in whatever order they take their steps: each
staged file has data of one receive only, and the destination is as it was, or has all the data of
the receive that renamed last. When all have ended, nothing staged is left.

A destination that leads through itself is different. If nothing is there, it is made as a folder,
and no file can take its place. If it is a link on the way to its own folder, the staged files are
out of reach as soon as a file has taken its place. (The equation for `≤` by which `cbv` works out
the runs that show this comes with the module on submodules.)

Main results:

* `Transfer.Unmixed` — what is seen of a crowd.
* `Transfer.unmixed_of_reachable` — it holds of all that a crowd comes to.
* `Transfer.crowd_through_itself` — the destinations that lead through themselves.
-/

namespace Courier.Transfer

open Files Receiver

variable {dest : Path} {receives : List (Settings × Inbound)} {first : Files} {c : Crowd}

/-- A receive that has ended has no staged file. -/
theorem Phase.staged?_eq_none {phase : Phase} (h : phase.isEnded = true) :
    phase.staged? = none := by
  cases phase with
  | ended result => rfl
  | _ => cases h

/-- A folder that was not there at first and is the place of a path above the destination. -/
structure OwnFolder (dest : Path) (first fs : Files) (l : Location) : Prop where
  missing : first.tree.get? l = none
  made : fs.tree.get? l = some (.folder 0o755)
  above : ∃ p ∈ dest.folder.lineage, fs.slotOf p .alreadyThere = .ok l

/-- What is seen of receives into one destination at every moment. -/
structure Unmixed (dest : Path) (receives : List (Settings × Inbound)) (first : Files)
    (c : Crowd) : Prop where
  /-- A staged file holds some of what its own receive is sent, from the front. -/
  staged : ∀ i r staged, c.receivers[i]? = some r → r.phase.staged? = some staged →
    ∃ content, c.files.Holds staged.handle 0o644 content ∧ content <+: dataOf receives i
  /-- No two receives have a staged file in common. -/
  apart : ∀ (i j : Nat) (r r' : Receiver) (staged staged' : Staged), i ≠ j →
    c.receivers[i]? = some r → c.receivers[j]? = some r' →
    r.phase.staged? = some staged → r'.phase.staged? = some staged' →
    staged.handle.location ≠ staged'.handle.location
  /-- A destination that is found before anything is made is meant. -/
  found : ∀ place, first.slotOf dest .busy = .ok place → destination dest first = .ok place
  /-- The destination is as it was, or has all the data of the last receive that renamed. -/
  place : ∀ place, destination dest first = .ok place ∨ c.files.slotOf dest .busy = .ok place →
    (c.promoted = [] ∧ (c.files.tree.get? place = first.tree.get? place ∨
      (.up ∈ dest.parts ∧ OwnFolder dest first c.files place))) ∨
    ∃ i rest serial, c.promoted = i :: rest ∧
      c.files.tree.get? place = some (.file 0o644 serial (dataOf receives i))
  /-- A destination that was replaced is found. -/
  reached : c.promoted ≠ [] → ∃ place, c.files.slotOf dest .busy = .ok place
  /-- The receives that renamed are those that succeed. -/
  promoted : ∀ i, i ∈ c.promoted ↔
    ∃ r report, c.receivers[i]? = some r ∧ r.phase.result? = some (.ok report)
  /-- They report the length of what they were sent. -/
  sized : ∀ i r report, c.receivers[i]? = some r → r.phase.result? = some (.ok report) →
    report.size = (dataOf receives i).length
  /-- When all have ended, nothing staged is left. -/
  ended : c.isOver = true → ∀ l,
    c.files.tree.get? l = first.tree.get? l ∨
      (first.tree.get? l = none ∧ c.files.tree.get? l = some (.folder 0o755)) ∨
      (c.promoted ≠ [] ∧ c.files.slotOf dest .busy = .ok l)

/-- **Receives into one destination do not mix.** In whatever order they take their steps, each
staged file has data of one receive only, and the destination is as it was, or has all the data of
the receive that renamed last. Only a destination written with `..` may be made as a folder on its
own way. -/
theorem unmixed_of_reachable (ht : first.tree.WellFormed) (haside : Aside dest first)
    (h : Crowd.Reachable dest receives first c) : Unmixed dest receives first c := by
  have hkept := kept_of_reachable haside h
  constructor
  case staged =>
    intro i r staged hr hstaged
    obtain ⟨content, hheld, hpart⟩ := (hkept.sound i r hr).held hstaged
    exact ⟨content, hheld.holds, hpart⟩
  case apart => exact hkept.apart
  case found => exact fun _ => destination_of_slotOf
  case place =>
    intro place hplace
    have hearly : (c.files = first ∧ ∀ r ∈ c.receivers, r.phase.isEarly) ∨
        c.files.slotOf dest .busy = .ok place := hplace.elim (hkept.place place) .inr
    cases hpromoted : c.promoted with
    | nil =>
      refine .inl ⟨rfl, ?_⟩
      rcases hearly with ⟨hsame, -⟩ | hdest
      · exact .inl (by rw [hsame])
      · cases hkept.origin place with
        | old hsame => exact .inl hsame
        | made hmissing hfolder habove =>
          exact .inr ⟨hkept.up_of_made ht hpromoted hdest hmissing hfolder (habove hpromoted),
            hmissing, hfolder, habove hpromoted⟩
        | staged hr hstaged heq =>
          obtain ⟨content, hheld, -⟩ := (hkept.sound _ _ hr).held hstaged
          exact absurd heq (hheld.slotOf_ne hdest)
        | promoted hsome => exact absurd hpromoted hsome
    | cons i rest =>
      obtain ⟨place', serial, hplace', hfile⟩ := hkept.newest i rest hpromoted
      have heq : place' = place := by
        rcases hearly with ⟨-, hall⟩ | hdest
        · -- a receive that has renamed is not early
          obtain ⟨r, report, hr, hreport⟩ :=
            (hkept.promoted i).mp (hpromoted ▸ List.mem_cons_self ..)
          rcases hall r (List.mem_of_getElem? hr) with hphase | hphase <;>
            (rw [hphase] at hreport; cases hreport)
        · exact Except.ok.inj (hplace'.symm.trans hdest)
      exact .inr ⟨i, rest, serial, rfl, heq ▸ hfile⟩
  case reached =>
    intro hsome
    obtain ⟨i, rest, hpromoted⟩ := List.exists_cons_of_ne_nil hsome
    obtain ⟨place, -, hplace, -⟩ := hkept.newest i rest hpromoted
    exact ⟨place, hplace⟩
  case promoted => exact hkept.promoted
  case sized =>
    intro i r report hr hreport
    have hsound := hkept.sound i r hr
    cases hphase : r.phase with
    | ending result =>
      rw [hphase] at hsound hreport
      cases hsound with
      | ending hsize => exact hsize report (Option.some.inj hreport)
    | ended result =>
      rw [hphase] at hsound hreport
      cases hsound with
      | ended hsize => exact hsize report (Option.some.inj hreport)
    | _ =>
      rw [hphase] at hreport
      cases hreport
  case ended =>
    intro hover l
    cases hkept.origin l with
    | old hsame => exact .inl hsame
    | made hmissing hfolder => exact .inr (.inl ⟨hmissing, hfolder⟩)
    | @staged i r staged hr hstaged =>
      -- a receive that has ended has nothing staged
      rw [Phase.staged?_eq_none (List.all_eq_true.mp hover r (List.mem_of_getElem? hr))] at hstaged
      cases hstaged
    | promoted hsome hdest => exact .inr (.inr ⟨hsome, hdest⟩)

/-- Two receives, of two octets each. -/
def twoReceives : List (Settings × Inbound) :=
  [({}, .of [.data (bytes "AB")]), ({}, .of [.data (bytes "CD")])]

/-- What a run of the two receives comes to. -/
theorem reachable_of_turns {α : Type} (dest : Path) (first : Files) (turns : List Nat)
    (seen : Crowd → α) (found : α)
    (hrun : ((Crowd.begin twoReceives ⟨⟨0, 0, []⟩, 0, 0⟩ first).run dest turns).map seen =
      some found) :
    ∃ c, Crowd.Reachable dest twoReceives first c ∧ seen c = found := by
  obtain ⟨c, hc, hseen⟩ := Option.map_eq_some_iff.mp hrun
  exact ⟨c, reachable_of_run (.begin _) hc, hseen⟩

/-- The files of the shortcut when a folder `x` has been made. -/
def shortcutReady : Files :=
  shortcutFiles.commit (.create [bytes "x"] (.folder 0o755))

/-- A link at the destination is replaced, and the way there leads through a folder that is missing
at first. The two take turns, and both of them succeed. -/
theorem unmixed_shortcut :
    shortcutFiles.tree.WellFormed ∧ Aside (.of "x/../l") shortcutFiles ∧
      shortcutFiles.tree.get? [bytes "l"] = some (.link (.of "d")) ∧
      ∃ c, Crowd.Reachable (.of "x/../l") twoReceives shortcutFiles c ∧
        c.promoted = [1, 0] ∧ Unmixed (.of "x/../l") twoReceives shortcutFiles c := by
  have hprepare : prepareFolder (.of "x/../l") shortcutFiles = (.ok (), shortcutReady) := by cbv
  have hplace : shortcutReady.slotOf (.of "x/../l") .busy = .ok [bytes "l"] := by cbv
  have haside : Aside (.of "x/../l") shortcutFiles := by
    refine aside_of_reached fun ready hready place hslot => ?_
    -- the first attempt gets the folder ready
    obtain rfl : shortcutReady = ready := by
      cases hready with
      | now h => exact (Prod.mk.inj (hprepare.symm.trans h)).2
      | later h => cases hprepare.symm.trans h
    obtain rfl := Except.ok.inj (hplace.symm.trans hslot)
    exact ⟨by cbv, [], 40, by cbv, by decide⟩
  obtain ⟨c, hc, hpromoted⟩ := reachable_of_turns (.of "x/../l") shortcutFiles
    [0, 0, 0, 1, 1, 1, 0, 1, 0, 1, 0, 1, 0, 1, 0, 1, 0, 1, 0, 1] (·.promoted) [1, 0] (by cbv)
  exact ⟨shortcutFiles_wellFormed, haside, by decide, c, hc, hpromoted,
    unmixed_of_reachable shortcutFiles_wellFormed haside hc⟩

/-- Destinations that lead through themselves. One is made as a folder, and both receives fail. The
other is a link; when the first receive has replaced it, the staged file of the second is out of
reach, and stays. -/
theorem crowd_through_itself :
    (∃ c, Crowd.Reachable (.of "a/../a") twoReceives bareFiles c ∧ c.isOver = true ∧
      destination (.of "a/../a") bareFiles = .ok [bytes "a"] ∧
      bareFiles.tree.get? [bytes "a"] = none ∧
      c.promoted = [] ∧ c.files.tree.get? [bytes "a"] = some (.folder 0o755)) ∧
    ∃ c, Crowd.Reachable (.of "l/../l") twoReceives shortcutFiles c ∧ c.isOver = true ∧
      destination (.of "l/../l") shortcutFiles = .ok [bytes "l"] ∧
      shortcutFiles.tree.get? [bytes "l.000001.part"] = none ∧
      c.promoted = [0] ∧
      c.files.tree.get? [bytes "l.000001.part"] = some (.file 0o644 1 (bytes "CD")) := by
  refine ⟨?_, ?_⟩
  -- the folder `a` is made on the way, and a file cannot take its place
  · obtain ⟨c, hc, hseen⟩ := reachable_of_turns (.of "a/../a") bareFiles
      [0, 0, 0, 1, 1, 1, 0, 1, 0, 1, 0, 1, 0, 1, 0, 1, 0, 1, 0, 1]
      (fun c => (c.isOver, c.promoted, c.files.tree.get? [bytes "a"]))
      (true, [], some (.folder 0o755)) (by cbv)
    obtain ⟨hover, hpromoted, hfolder⟩ : c.isOver = true ∧ c.promoted = [] ∧
        c.files.tree.get? [bytes "a"] = some (.folder 0o755) := by simpa using hseen
    exact ⟨c, hc, hover, by cbv, by decide, hpromoted, hfolder⟩
  -- both are staged before the first one replaces `l`, through which the other one is reached
  · obtain ⟨c, hc, hseen⟩ := reachable_of_turns (.of "l/../l") shortcutFiles
      [0, 0, 0, 1, 1, 1, 0, 1, 0, 1, 0, 1, 0, 1, 0, 1, 0, 1, 1]
      (fun c => (c.isOver, c.promoted, c.files.tree.get? [bytes "l.000001.part"]))
      (true, [0], some (.file 0o644 1 (bytes "CD"))) (by cbv)
    obtain ⟨hover, hpromoted, hfile⟩ : c.isOver = true ∧ c.promoted = [0] ∧
        c.files.tree.get? [bytes "l.000001.part"] = some (.file 0o644 1 (bytes "CD")) := by
      simpa using hseen
    exact ⟨c, hc, hover, by cbv, by decide, hpromoted, hfile⟩

end Courier.Transfer
