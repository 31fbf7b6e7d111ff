import Mathlib
import Courier.Proofs.Accounts
import Courier.Proofs.Served
import Courier.Proofs.Sharing

/-!
# Sessions run by a pool

A transfer of a session is running only while a worker is busy with the session, so no more
transfers run than there are workers. And since sessions leave all links in their places, no staged
file of theirs is ever left. (Mathlib is imported whole for the lemmas on integers and texts by
which `cbv` works out the runs at the end.)

Main results:

* `Service.Serves` — what is true of the sessions of a pool at every moment.
* `Traffic.accounts_of_reachable` — the counter and the staged files, with and without a pool.
* `Traffic.staged_left_behind` — a staged file that stays where a link was replaced.
-/

namespace Courier

open Files

/-! ## Busy workers -/

namespace Pool

variable {α : Type} {p q : Pool α} {t : α}

/-- A worker goes on with its task when another one is given something else to do. -/
theorem mem_running_set {workers : List (Worker α)} {i : Nat} {w w' : Worker α}
    (hi : workers[i]? = some w) (hw : w.task? ≠ some t)
    (ht : t ∈ workers.filterMap Worker.task?) : t ∈ (workers.set i w').filterMap Worker.task? := by
  have hmem := (running_set hi w').mem_iff.mpr (List.mem_append_right _ ht)
  exact (List.mem_append.mp hmem).resolve_left (by simpa using hw)

/-- Whoever is busy stays so until his task is over. -/
theorem running_of_moves {a : Action α} (h : Moves p a q)
    (hinternal : ∀ i ending, a ≠ .finish i ending) (ht : t ∈ p.running) : t ∈ q.running := by
  cases h with
  | accept | refuse | callNone | stop => exact ht
  | callOne _ hasleep => exact mem_running_set hasleep nofun ht
  | callAll =>
    unfold running
    rw [running_called]
    exact ht
  | take hawake | leave hawake | sleep hawake => exact mem_running_set hawake nofun ht
  | finish => exact absurd rfl (hinternal _ _)
  | stir hasleep => exact mem_running_set hasleep nofun ht
  | join _ _ hgone =>
    obtain ⟨w, hw, htask⟩ := List.mem_filterMap.mp ht
    cases w with
    | busy => cases hgone _ hw
    | _ => cases htask

/-- No more tasks run than there are workers. -/
theorem Books.running_le {n : Nat} (h : Books n p) : p.running.length ≤ n := by
  rcases h.staff with hlength | ⟨hnone, -⟩
  · rw [← hlength]
    exact List.length_filterMap_le ..
  · rw [running, hnone]
    exact Nat.zero_le n

end Pool

/-! ## Traffic that is all sessions -/

namespace Traffic

variable {first : Machine} {t u : Traffic} {i : Nat}

/-- All of the traffic are sessions, whose destinations are straight, and no link was replaced. -/
structure Served (first : Files) (t : Traffic) : Prop where
  whole : first.Whole t.machine.files
  straight : ∀ x ∈ t.members, ∃ c, x.party = .session c ∧
    ∀ file, c.stage.target? = some file → first.IsStraight file

/-- At first no session is served. -/
theorem Served.begin (first : Machine) : Served first.files { machine := first } where
  whole := fun _ _ h => h
  straight := by simp

/-- A session that comes along has resolved nothing yet. -/
theorem Served.join {c : Session.Course} (h : Served first.files t)
    (hfresh : (Party.session c).isFresh = true) : Served first.files (t.join (.session c)) where
  whole := h.whole
  straight := by
    intro x hx
    rcases List.mem_append.mp hx with hold | hnew
    · exact h.straight x hold
    · obtain rfl := List.mem_singleton.mp hnew
      refine ⟨c, rfl, fun file hfile => ?_⟩
      obtain ⟨ctx, peer, connection, stage, began⟩ := c
      cases stage with
      | fresh => cases hfile
      | _ => cases hfresh

/-- Who is found at a place was there before, or has just come along. -/
theorem getElem?_join {p : Party} {x : Member} (h : (t.join p).members[i]? = some x) :
    t.members[i]? = some x ∨ x = { origin := p, party := p } := by
  unfold join at h
  rw [List.getElem?_append] at h
  split at h
  · exact .inl h
  · exact .inr (List.mem_singleton.mp (List.mem_of_getElem? h))

/-- What a session holds is for the path that it receives into. -/
theorem target_of_heldBy {stage : Session.Stage} {dest : Path} {staged : Staged}
    (h : heldBy stage.receive? = some (dest, staged)) : stage.target? = some dest := by
  cases stage with
  | storing header file phase =>
    obtain ⟨_, -, hpair⟩ := Option.map_eq_some_iff.mp h
    cases hpair
    rfl
  | _ => cases h

/-- **Every step of a session keeps that it serves within its root.** -/
theorem Served.step (h : Served first.files t) (htidy : IsTidy first t)
    (hfirst : first.files.tree.WellFormed) (hstep : t.step i = some u) : Served first.files u := by
  obtain ⟨x, hx, rfl⟩ := step_cases hstep
  obtain ⟨c, hparty, hstraight⟩ := h.straight x (List.mem_of_getElem? hx)
  have hheld (dest staged) (hheld : heldBy x.party.receive? = some (dest, staged)) :
      first.files.IsStraight dest := by
    rw [hparty] at hheld
    exact hstraight dest (target_of_heldBy hheld)
  refine ⟨h.whole.deed htidy (holds_eq hx) hheld (x.party.deed t.machine), fun y hy => ?_⟩
  rcases List.mem_or_eq_of_mem_set hy with hold | rfl
  · exact h.straight y hold
  · refine ⟨(c.step t.machine).1, by rw [hparty]; rfl, fun file hfile => ?_⟩
    -- its file is the one it had, or one that it has just resolved, and that is below the root
    rcases (Session.moves_of_step c t.machine).target hfile with
      htarget | ⟨root, asked, r, hresolve, rfl⟩
    · exact hstraight file htarget
    · exact h.whole.isStraight (htidy.standing.intact hfirst) hresolve

end Traffic

/-! ## Sessions and workers -/

namespace Service

variable {size : Nat} {first : Machine} {s : Service}

/-- What is true of the sessions of a pool at every moment. -/
structure Serves (size : Nat) (first : Machine) (s : Service) : Prop where
  pool : Pool.Reachable size s.pool
  traffic : Traffic.Reachable first s.traffic
  /-- Where a transfer is running, a worker is busy with its session. -/
  busy : ∀ (i : Nat) (x : Member), s.traffic.members[i]? = some x → x.party.counted = true →
    i ∈ s.pool.running
  served : first.files.tree.WellFormed → Traffic.Served first.files s.traffic

/-- A session that is submitted is a task of its own, and has not begun. -/
theorem Serves.enlist {c : Session.Course} {pool : Pool Nat} (h : Serves size first s)
    (hfresh : (Party.session c).isFresh = true)
    (hsubmit : s.pool.step (.submit s.traffic.members.length) = some pool) :
    Serves size first ⟨pool, s.traffic.join (.session c)⟩ where
  pool := .step _ h.pool hsubmit
  traffic := .join h.traffic hfresh
  busy := by
    intro i x hx hcounted
    refine Pool.running_of_moves (Pool.moves_of_step hsubmit) nofun ?_
    rcases Traffic.getElem?_join hx with hold | rfl
    · exact h.busy i x hold hcounted
    · rw [(Party.begun_of_isFresh hfresh).2] at hcounted
      cases hcounted
  served := fun hfirst => (h.served hfirst).join hfresh

/-- A worker moves the session of its task on, and no other. -/
theorem Serves.work {i task : Nat} {traffic : Traffic} (h : Serves size first s)
    (hbusy : s.pool.workers[i]? = some (Worker.busy task))
    (hstep : s.traffic.step task = some traffic) : Serves size first ⟨s.pool, traffic⟩ where
  pool := h.pool
  traffic := .step h.traffic hstep
  busy := by
    intro j x hx hcounted
    by_cases hj : j = task
    · exact hj ▸ List.mem_filterMap.mpr ⟨_, List.mem_of_getElem? hbusy, rfl⟩
    · obtain ⟨y, -, rfl⟩ := Traffic.step_cases hstep
      exact h.busy j x ((List.getElem?_set_ne (Ne.symm hj)).symm.trans hx) hcounted
  served := fun hfirst =>
    (h.served hfirst).step (Traffic.isTidy_of_reachable h.traffic) hfirst hstep

/-- A session that is over is not counted. -/
theorem counted_of_isOver {p : Party} (h : isOver p = true) : p.counted = false := by
  cases p with
  | session c =>
    obtain ⟨ctx, peer, connection, stage, began⟩ := c
    cases stage with
    | finished => rfl
    | _ => cases h
  | _ => cases h

/-- A session that is over is not running, so its worker may leave it. -/
theorem Serves.finish {i task : Nat} {x : Member} {ending : Ending} {pool : Pool Nat}
    (h : Serves size first s) (hbusy : s.pool.workers[i]? = some (Worker.busy task))
    (hmember : s.traffic.members[task]? = some x) (hover : isOver x.party = true)
    (hstep : s.pool.step (.finish i ending) = some pool) :
    Serves size first ⟨pool, s.traffic⟩ where
  pool := .step _ h.pool hstep
  traffic := h.traffic
  busy := by
    intro j y hy hcounted
    have hne : j ≠ task := by
      rintro rfl
      obtain rfl := Option.some.inj (hmember.symm.trans hy)
      exact absurd hcounted (by simp [counted_of_isOver hover])
    have hrunning := h.busy j y hy hcounted
    cases Pool.moves_of_step hstep with
    | finish hbusy' =>
      obtain rfl := Worker.busy.inj (Option.some.inj (hbusy.symm.trans hbusy'))
      exact Pool.mem_running_set hbusy' (by simpa [Worker.task?] using Ne.symm hne) hrunning
  served := h.served

/-- So the sessions that are counted are those that workers are busy with. -/
theorem serves_of_reachable (h : Reachable size first s) : Serves size first s := by
  -- by induction on the way the service has come to be
  induction h with
  | create hcreate =>
    exact ⟨.create hcreate, .begin, by simp, fun _ => Traffic.Served.begin first⟩
  | enlist _ hfresh hsubmit ih => exact ih.enlist hfresh hsubmit
  | @manage _ a _ _ hinternal hstep ih =>
    refine ⟨.step a ih.pool hstep, ih.traffic, fun i x hx hcounted => ?_, ih.served⟩
    refine Pool.running_of_moves (Pool.moves_of_step hstep) ?_ (ih.busy i x hx hcounted)
    rintro i ending rfl
    cases hinternal
  | work _ hbusy hstep ih => exact ih.work hbusy hstep
  | finish _ hbusy hmember hover hstep ih => exact ih.finish hbusy hmember hover hstep
  | elsewhere _ clock others ih =>
    exact ⟨ih.pool, .elsewhere ih.traffic clock others, ih.busy,
      fun hfirst => ⟨(ih.served hfirst).whole, (ih.served hfirst).straight⟩⟩

/-- No more transfers are running than there are workers. -/
theorem Serves.running_le (h : Serves size first s) : s.traffic.running ≤ size := by
  have hsubset : s.traffic.members.findIdxs (·.party.counted) ⊆ s.pool.running := by
    intro i hi
    obtain ⟨hlt, hcounted⟩ := List.mem_findIdxs_iff_exists_getElem_pos.mp hi
    exact h.busy i _ (List.getElem?_eq_getElem hlt) hcounted
  calc
    s.traffic.running = (s.traffic.members.findIdxs (·.party.counted)).length :=
      List.length_findIdxs.symm
    _ ≤ s.pool.running.length := (List.nodup_findIdxs.subperm hsubset).length_le
    _ ≤ size := (Pool.books_of_reachable h.pool).running_le

/-- What is true of the counter and of the staged files of a pool's sessions at every moment. -/
structure Accounts (size : Nat) (first : Machine) (s : Service) : Prop where
  traffic : Traffic.Accounts first s.traffic
  running : s.traffic.running ≤ size
  /-- A counter that starts at nothing, and that no one else has, never shows more than the number
  of workers. -/
  bounded : first.ambient.active = 0 → s.traffic.machine.ambient.others = 0 →
    s.traffic.machine.ambient.active ≤ size
  /-- Every staged file on the disk is that of a transfer that is running. -/
  covered : first.files.tree.WellFormed → s.traffic.staged.length ≤ s.traffic.running
  cleared : first.files.tree.WellFormed →
    s.traffic.machine.ambient.own = first.ambient.own → s.traffic.staged = []

/-- The accounts of the service, read off what it keeps. -/
theorem Serves.accounts (h : Serves size first s) : Accounts size first s := by
  have htraffic := Traffic.accounts h.traffic
  -- resolved paths have no links in them, so no removal fails
  have hstuck (hfirst : first.files.tree.WellFormed) : s.traffic.stuck = [] :=
    (h.served hfirst).whole.stuck_eq_nil (Traffic.isTidy_of_reachable h.traffic)
  constructor
  case traffic => exact htraffic
  case running => exact h.running_le
  case bounded =>
    intro hfirst hothers
    have hcounter := htraffic.counter
    have hrunning := h.running_le
    unfold Ambient.active at hfirst ⊢
    omega
  case covered =>
    intro hfirst
    have hcovered := htraffic.covered
    rwa [hstuck hfirst] at hcovered
  case cleared =>
    intro hfirst hback
    refine List.eq_nil_iff_forall_not_mem.mpr fun k hk => ?_
    have hk' := htraffic.cleared hback k hk
    rw [hstuck hfirst] at hk'
    cases hk'

end Service

/-! ## Runs -/

/-- The traffic after turns of its parties. -/
def Traffic.run (t : Traffic) (turns : List Nat) : Option Traffic :=
  turns.foldlM (fun t i => t.step i) t

/-- Turns lead from a traffic that can come to be to another one. -/
theorem Traffic.reachable_of_run {first : Machine} {t u : Traffic} {turns : List Nat}
    (h : Traffic.Reachable first t) (hrun : t.run turns = some u) : Traffic.Reachable first u := by
  -- by induction on the turns
  induction turns generalizing t with
  | nil => exact Option.some.inj hrun ▸ h
  | cons i turns ih =>
    obtain ⟨next, hstep, hrest⟩ := Option.bind_eq_some_iff.mp hrun
    exact ih (h.step hstep) hrest

/-- A worker goes on with its session for some turns. -/
theorem Service.reachable_of_run {size i task turns : Nat} {first : Machine} {s : Service}
    {u : Traffic} (h : Service.Reachable size first s)
    (hbusy : s.pool.workers[i]? = some (Worker.busy task))
    (hrun : s.traffic.run (List.replicate turns task) = some u) :
    Service.Reachable size first ⟨s.pool, u⟩ := by
  -- by induction on the turns, as for the traffic
  induction turns generalizing s with
  | zero => exact Option.some.inj hrun ▸ h
  | succ turns ih =>
    obtain ⟨next, hstep, hrest⟩ := Option.bind_eq_some_iff.mp hrun
    exact ih (s := ⟨s.pool, next⟩) (.work h hbusy hstep) hbusy hrest

/-- **The counter is exact, and every staged file is covered by it**, whatever the order in which
sends, receives and sessions take their steps; and with sessions on a pool of workers it never
exceeds the number of the workers. -/
theorem Traffic.accounts_of_reachable (first : Machine) :
    (∀ t, Traffic.Reachable first t → Traffic.Accounts first t) ∧
      ∀ size s, Service.Reachable size first s → Service.Accounts size first s :=
  ⟨fun _ h => Traffic.accounts h, fun _ _ h => (Service.serves_of_reachable h).accounts⟩

/-- A folder to be served, in which there are links. -/
def harbour : Machine :=
  ⟨Session.linkedFiles, default, {}, none⟩

/-- A receive through a link, a send of a file that is not there, and a session that hears no
command. -/
def mixedTraffic : Traffic :=
  [Party.receiver (.of "srv/alias/file.txt") ⟨{}, .of [.data (bytes "AB")], .fresh⟩,
    .sender (.ofFile {} (.of "missing") .willing),
    .session ⟨{ root := .of "srv", settings := {} }, "peer",
      ⟨.of [.data (bytes "X")], .willing⟩, .fresh, false⟩].foldl
    Traffic.join { machine := harbour }

/-- A session that is sent a file. -/
def uploadCourse : Session.Course :=
  ⟨{ root := .of "srv", settings := {} }, "peer",
    ⟨.of [.data (Header.octets ⟨.store, "alias/file.txt"⟩), .data (bytes "AB")], .willing⟩,
    .fresh, false⟩

/-- How many are running, what the counter shows, and how many files are staged. -/
def Traffic.figures (t : Traffic) : Nat × Nat × Nat :=
  (t.running, t.machine.ambient.own, t.staged.length)

/-- In this traffic two transfers are running and one file is staged; in this service one task runs,
with one file. -/
theorem Traffic.accounts_of_reachable_harbour :
    (∃ t, Traffic.Reachable harbour t ∧ t.figures = (2, 2, 1) ∧ Traffic.Accounts harbour t) ∧
      ∃ s, Service.Reachable 1 harbour s ∧ s.traffic.figures = (1, 1, 1) ∧
        harbour.files.tree.WellFormed ∧ Service.Accounts 1 harbour s := by
  obtain ⟨htraffic, hservice⟩ := accounts_of_reachable harbour
  refine ⟨?_, ?_⟩
  · have hbegin : Traffic.Reachable harbour mixedTraffic :=
      ((Reachable.begin.join rfl).join rfl).join rfl
    have hrun : (mixedTraffic.run [0, 1, 2, 0, 0]).map figures = some (2, 2, 1) := by cbv
    obtain ⟨t, ht, hfigures⟩ := Option.map_eq_some_iff.mp hrun
    have hreach := reachable_of_run hbegin ht
    exact ⟨t, hreach, hfigures, htraffic t hreach⟩
  · have hcreate : Service.Reachable 1 harbour ⟨_, { machine := harbour }⟩ := .create rfl
    have hjoined := hcreate.enlist (c := uploadCourse) rfl rfl
    have hlook := hjoined.manage (a := .look 0) rfl rfl
    have hrun : ((Traffic.join { machine := harbour } (.session uploadCourse)).run
        (List.replicate 7 0)).map figures = some (1, 1, 1) := by cbv
    obtain ⟨t, ht, hfigures⟩ := Option.map_eq_some_iff.mp hrun
    have hreach := Service.reachable_of_run (i := 0) hlook rfl ht
    exact ⟨_, hreach, hfigures, Session.linkedFiles_wellFormed, hservice 1 _ hreach⟩

/-- A machine on which someone else has a transfer running, with a link to a folder. -/
def shortcut : Machine :=
  ⟨shortcutFiles, ⟨⟨0, 0, []⟩, 1, 0⟩, {}, none⟩

/-- Two receives that rename their files over the link that the way to both of them leads along. -/
def twinTraffic : Traffic :=
  [Party.receiver (.of "l/../l") ⟨{}, .of [.data (bytes "AB")], .fresh⟩,
    .receiver (.of "l/../l") ⟨{}, .of [.data (bytes "CD")], .fresh⟩].foldl
    Traffic.join { machine := shortcut }

/-- Where the first of two receives puts a file in the place of a link on the way, the staged file
of the second cannot be removed: it is left when no transfer is running any more. And the counter
is below what it showed at first when a transfer has ended that was running then. -/
theorem Traffic.staged_left_behind :
    shortcut.files.tree.WellFormed ∧
      (∃ t, Traffic.Reachable shortcut t ∧ t.figures = (0, 0, 1) ∧
        t.machine.ambient.active = shortcut.ambient.active ∧
        t.running < t.staged.length) ∧
      ∃ t, Traffic.Reachable shortcut t ∧
        t.machine.ambient.active < shortcut.ambient.active + t.running := by
  refine ⟨shortcutFiles_wellFormed, ?_, _, .elsewhere .begin ⟨0, 0, []⟩ 0, by decide⟩
  have hbegin : Traffic.Reachable shortcut twinTraffic := (Reachable.begin.join rfl).join rfl
  -- both stage their files before the first of them renames
  have hrun : (twinTraffic.run [0, 0, 0, 1, 1, 1, 0, 1, 0, 1, 0, 1, 0, 1, 0, 1, 0, 1, 1]).map
      (fun t => (t.figures, t.machine.ambient.active)) = some ((0, 0, 1), 1) := by cbv
  obtain ⟨t, ht, hseen⟩ := Option.map_eq_some_iff.mp hrun
  obtain ⟨hfigures, hactive⟩ := Prod.mk.inj hseen
  obtain ⟨hrunning, -, hstaged⟩ : t.running = 0 ∧ t.machine.ambient.own = 0 ∧
      t.staged.length = 1 := by simpa [figures] using hfigures
  exact ⟨t, reachable_of_run hbegin ht, hfigures, hactive, by omega⟩

end Courier
