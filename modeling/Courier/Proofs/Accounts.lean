import Mathlib.Data.List.Perm.Subperm
import Courier.Proofs.Leftovers
import Courier.Proofs.Tally
import Courier.Proofs.Tasks
import Courier.Traffic.Service

/-!
# The accounts of the traffic

The counter shows the transfers that have begun and not ended, and each staged file on the disk is
that of one of these. A receive that ends removes what it staged before it lowers the counter, so
this is true at every moment, whatever the order of the steps.

Removing a staged file can fail, and the failure is passed over. For that the way to the file must
have changed in the meantime: a rename of the traffic has put a file in the place of a link.

Main results:

* `Traffic.isTidy_of_reachable` — what is known of every staged file at every moment.
* `Traffic.accounts` — the counter and the staged files of any traffic.
-/

namespace Courier

open Files Transfer

/-! ## Staged files -/

/-- The staged file that a party holds is that of its receive. -/
theorem Party.staged?_eq (p : Party) : p.staged? = (heldBy p.receive?).map Prod.snd := by
  unfold staged? heldBy
  cases p.receive? with
  | none => rfl
  | some q =>
    obtain ⟨dest, phase⟩ := q
    show phase.staged? = (phase.staged?.map fun staged => (dest, staged)).map Prod.snd
    cases phase.staged? <;> rfl

/-- And so is the one that it is about to remove. -/
theorem Party.discards?_eq (p : Party) : p.discards? = discardedBy p.receive? :=
  rfl

/-- Who holds nothing has nothing to remove. -/
theorem discardedBy_eq_none {q : Option (Path × Phase)} (h : heldBy q = none) :
    discardedBy q = none := by
  cases q with
  | none => rfl
  | some q =>
    obtain ⟨dest, phase⟩ := q
    cases phase with
    | discarding => cases h
    | _ => rfl

/-- A party that comes along holds nothing. -/
theorem heldBy_of_isFresh {p : Party} (h : p.isFresh = true) : heldBy p.receive? = none := by
  cases p with
  | sender s => rfl
  | receiver dest r =>
    obtain ⟨settings, inbound, phase⟩ := r
    cases phase with
    | fresh => rfl
    | _ => cases h
  | session c =>
    obtain ⟨ctx, peer, connection, stage, began⟩ := c
    cases stage with
    | fresh => rfl
    | _ => cases h

/-- Who holds a staged file is counted. -/
theorem counted_of_heldBy {p : Party} {q : Path × Staged} (h : heldBy p.receive? = some q) :
    p.counted = true := by
  -- a receive that has not begun, or has ended, holds nothing
  have hphase {dest : Path} {phase : Phase} (h : heldBy (some (dest, phase)) = some q) :
      phase.counted = true := by
    cases phase with
    | fresh => cases h
    | ended => cases h
    | _ => rfl
  cases p with
  | sender s => cases h
  | receiver dest r => exact hphase h
  | session c =>
    obtain ⟨ctx, peer, connection, stage, began⟩ := c
    cases stage with
    | storing header file phase => exact hphase h
    | _ => cases h

namespace Traffic

variable {first : Machine} {t u : Traffic} {i : Nat}

/-- What each party holds. -/
def holds (t : Traffic) (i : Nat) : Option (Path × Staged) :=
  t.members[i]?.bind fun x => heldBy x.party.receive?

/-- What a member holds is what its party does. -/
theorem holds_eq {x : Member} (hx : t.members[i]? = some x) :
    t.holds i = heldBy x.party.receive? := by
  rw [holds, hx]
  rfl

/-- Nobody holds more when a party has come along. -/
theorem holds_join {p : Party} (h : p.isFresh = true) : (t.join p).holds = t.holds := by
  funext i
  unfold holds join
  rw [List.getElem?_append]
  split
  · rfl
  · rename_i hi
    rw [List.getElem?_eq_none (Nat.le_of_not_lt hi)]
    cases i - t.members.length with
    | zero => exact heldBy_of_isFresh h
    | succ k => rfl

/-- When one member has become another one, the others hold what they held. -/
theorem holds_set {x y : Member} {machine : Machine} {made stuck : List FileHandle}
    (hx : t.members[i]? = some x) :
    holds { members := t.members.set i y, machine, made, stuck } =
      Function.update t.holds i (heldBy y.party.receive?) := by
  funext j
  unfold holds
  by_cases hj : j = i
  · subst hj
    rw [Function.update_self]
    have hlt := (List.getElem?_eq_some_iff.mp hx).1
    simp [List.getElem?_set_self hlt]
  · rw [Function.update_of_ne hj]
    simp [List.getElem?_set_ne (Ne.symm hj)]

/-- What is known of the staged files of some traffic. -/
def IsTidy (first : Machine) (t : Traffic) : Prop :=
  Tidy first.files t.machine.files t.made t.stuck t.holds

/-- At first there are no parties and no staged files. -/
theorem IsTidy.begin (first : Machine) : IsTidy first { machine := first } :=
  Tidy.begin first.files

/-- A party that comes along changes nothing of that. -/
theorem IsTidy.join {p : Party} (h : IsTidy first t) (hfresh : p.isFresh = true) :
    IsTidy first (t.join p) := by
  unfold IsTidy
  rw [holds_join hfresh]
  exact h

/-- Every step keeps what is known of the staged files. -/
theorem IsTidy.step (h : IsTidy first t) (hstep : t.step i = some u) : IsTidy first u := by
  obtain ⟨x, hx, rfl⟩ := step_cases hstep
  have hholds := holds_eq hx
  have hdeed := x.party.deed t.machine
  unfold IsTidy at h ⊢
  rw [holds_set hx]
  generalize x.party.step t.machine = next at hdeed
  obtain ⟨p, machine⟩ := next
  unfold staging sticking advance
  rw [Party.staged?_eq, Party.staged?_eq, Party.discards?_eq]
  dsimp only at hdeed ⊢
  generalize machine.files = fs' at hdeed
  generalize p.receive? = q' at hdeed
  -- what the party has in hand before and after is said by the deed, so the books change as it says
  cases hdeed with
  | grow hgrows hheld hdiscards =>
    have hsame : Function.update t.holds i (heldBy q') = t.holds := by
      rw [hheld, ← hholds, Function.update_eq_self]
    rw [hsame, hheld, hdiscards]
    cases heldBy x.party.receive? with
    | none => exact h.grow hgrows
    | some held => exact h.grow hgrows
  | stage hnone hheld hpath hcreated hle hlt =>
    rw [hnone, hheld, discardedBy_eq_none hnone]
    exact h.stage (hholds.trans hnone) hpath hcreated hle hlt
  | promote hheld hdone hdiscards hrename =>
    rw [hheld, hdone, hdiscards]
    exact h.promote (hholds.trans hheld) hrename
  | discard hheld hdone hdiscards =>
    rw [hheld, hdone, hdiscards]
    exact h.discard (hholds.trans hheld)

/-- **The staged files are accounted for** in every traffic. -/
theorem isTidy_of_reachable (h : Traffic.Reachable first t) : IsTidy first t := by
  -- by induction on the way the traffic has come to be
  induction h with
  | begin => exact .begin first
  | join _ hfresh ih => exact ih.join hfresh
  | step _ hstep ih => exact ih.step hstep
  | elsewhere _ clock others ih => exact ih

/-- The staged files that the parties hold. -/
def inHand (t : Traffic) : List FileHandle :=
  t.members.filterMap fun x => (heldBy x.party.receive?).map (·.2.handle)

/-- A staged file in hand belongs to a transfer that is running. -/
theorem length_inHand_le (t : Traffic) : t.inHand.length ≤ t.running := by
  unfold inHand running
  rw [List.length_filterMap_eq_countP]
  refine List.countP_mono_left fun x _ hheld => ?_
  obtain ⟨handle, hhandle⟩ := Option.isSome_iff_exists.mp hheld
  obtain ⟨q, hq, -⟩ := Option.map_eq_some_iff.mp hhandle
  exact counted_of_heldBy hq

/-- A staged file on the disk is in hand, or could not be removed. -/
theorem IsTidy.covered (h : IsTidy first t) {k : FileHandle} (hk : k ∈ t.staged) :
    k ∈ t.inHand ∨ k ∈ t.stuck := by
  obtain ⟨hmade, hstaged⟩ := List.mem_filter.mp hk
  refine (h.accounted k hmade hstaged).imp_left fun ⟨i, dest, staged, hheld, heq⟩ => ?_
  obtain ⟨x, hx, hparty⟩ := Option.bind_eq_some_iff.mp hheld
  refine List.mem_filterMap.mpr ⟨x, List.mem_of_getElem? hx, ?_⟩
  rw [hparty, Option.map_some, heq]

/-- So there are no more staged files than transfers that are running, beside those that could not
be removed. -/
theorem IsTidy.length_staged_le (h : IsTidy first t) :
    t.staged.length ≤ t.running + t.stuck.length := by
  have hnodup : t.staged.Nodup := h.nodup.filter _
  have hsubset : t.staged ⊆ t.inHand ++ t.stuck := fun k hk => List.mem_append.mpr (h.covered hk)
  calc
    t.staged.length ≤ (t.inHand ++ t.stuck).length := (hnodup.subperm hsubset).length_le
    _ = t.inHand.length + t.stuck.length := List.length_append
    _ ≤ t.running + t.stuck.length := Nat.add_le_add_right t.length_inHand_le _

/-! ## The accounts -/

/-- What is true of the counter and of the staged files at every moment. -/
structure Accounts (first : Machine) (t : Traffic) : Prop where
  /-- The counter shows what it showed at first, and the transfers that have begun and not ended. -/
  counter : t.machine.ambient.own = first.ambient.own + t.running
  active : t.machine.ambient.others = first.ambient.others →
    t.machine.ambient.active = first.ambient.active + t.running
  /-- A transfer that lowers the counter finds it raised. -/
  positive : ∀ x ∈ t.members, x.party.counted = true → 0 < t.machine.ambient.own
  /-- Each has raised the counter once if its transfer has begun, and lowered it once if it has
  ended, however that was. -/
  once : ∀ x ∈ t.members, x.raised = x.party.begun.toNat ∧
    x.lowered = (x.party.begun && !x.party.counted).toNat
  /-- A session without a valid header does not touch the counter. -/
  heard : ∀ x ∈ t.members, ∀ c, x.origin = .session c → x.raised ≠ 0 → Session.Heard c
  /-- Nor does one that fails before its transfer; every other one has raised and lowered it. -/
  finished : ∀ x ∈ t.members, ∀ c result, x.party = .session c → c.stage = .finished result →
    x.raised = (!Session.isRefused result).toNat ∧ x.lowered = (!Session.isRefused result).toNat
  /-- The staged files on the disk are no more than the transfers that are running, but for those
  that could not be removed. -/
  covered : t.staged.length ≤ t.running + t.stuck.length
  /-- When the counter is back, none but those is left. -/
  cleared : t.machine.ambient.own = first.ambient.own → ∀ h ∈ t.staged, h ∈ t.stuck
  /-- And a file can always be removed if no link was replaced. -/
  replaced : t.stuck ≠ [] → first.files.tree.Replaced t.machine.files.tree

/-- What is known of the traffic at every moment: the counter, the tasks and the staged files. -/
theorem accounts (h : Traffic.Reachable first t) : Accounts first t := by
  have htallied := tallied_of_reachable h
  have htidy := isTidy_of_reachable h
  have hcounter := htallied.counter
  constructor
  case counter => exact hcounter
  case active =>
    intro hothers
    unfold Ambient.active
    omega
  case positive =>
    intro x hx hcounted
    have hpos : 0 < t.running := List.countP_pos_iff.mpr ⟨x, hx, hcounted⟩
    omega
  case once => exact fun x hx => ⟨(htallied.settled x hx).raised, (htallied.settled x hx).lowered⟩
  case heard =>
    intro x hx c horigin hraised
    obtain ⟨hsound, hbegun, -⟩ := htallied.settled x hx
    rw [horigin] at hsound
    cases hparty : x.party with
    | session c' =>
      rw [hparty] at hsound hbegun
      refine Session.Sound.heard hsound ?_
      cases hbegan : c'.began with
      | true => rfl
      | false => exact absurd (hbegun.trans (by simp [Party.begun, hbegan])) hraised
    | _ =>
      rw [hparty] at hsound
      exact hsound.elim
  -- a task that is over has lowered the counter as often as it raised it: once, or never if refused
  case finished =>
    intro x hx c result hparty hstage
    obtain ⟨hsound, hraised, hlowered⟩ := htallied.settled x hx
    have hcounted : x.party.counted = false := by
      rw [hparty]
      show c.stage.counted = false
      rw [hstage]
      rfl
    have hbegun : x.party.begun = !Session.isRefused result := by
      rw [hparty] at hsound ⊢
      cases horigin : x.origin with
      | session first =>
        rw [horigin] at hsound
        have hshows := Session.Sound.shows hsound
        rw [hstage] at hshows
        exact hshows
      | _ =>
        rw [horigin] at hsound
        exact hsound.elim
    rw [hraised, hlowered, hcounted, hbegun]
    simp
  case covered => exact htidy.length_staged_le
  -- with the counter back where it was no transfer runs, so that no file is in anyone's hand
  case cleared =>
    intro hback k hk
    have hnone : t.inHand = [] := by
      have := t.length_inHand_le
      exact List.length_eq_zero_iff.mp (by omega)
    exact (htidy.covered hk).resolve_left (by simp [hnone])
  case replaced => exact htidy.replaced

end Traffic

end Courier
