import Courier.Proofs.Tasks

/-!
# No call is lost

A submission queues its task under the lock and calls only after it has let the lock go, and so
does a stop. In between workers look, fall asleep, stir and finish, and other submissions and
stops come by. The pool still cannot end up with a task in its queue and everybody asleep: while
one worker sleeps, no more tasks wait than calls are due and workers are awake, since a worker
falls asleep only on an empty queue and whatever adds a task adds a call.

The call of a stop wakes all, and in a stopped pool nobody falls asleep again. What is left to do
from there on gets smaller with each look and each end of a task, so that only tasks that do not
end keep the pool from being joined.

Main results:

* `Pool.Watch.move`, `Pool.watch_of_reachable` — the invariant that ties the queue to the calls.
* `Pool.Roused.move`, `Pool.Roused.trace` — a pool after the call of a stop, and its way down.
* `Pool.wakeful_of_reachable` — no call is lost, for any number of workers and in any order.
-/

namespace Courier

namespace Worker

variable {α : Type}

/-- The worker is about to look at the queue. -/
def isAwake : Worker α → Bool
  | .awake => true
  | _ => false

/-- The worker runs a task. -/
def isBusy : Worker α → Bool
  | .busy _ => true
  | _ => false

/-- There is only one way to be awake. -/
theorem eq_awake_of_isAwake {w : Worker α} (h : w.isAwake = true) : w = .awake := by
  cases w with
  | awake => rfl
  | asleep => cases h
  | busy => cases h
  | gone => cases h

/-- A worker that is neither asleep nor gone has something to do. -/
theorem isAwake_or_isBusy {w : Worker α} (hup : w.isAsleep = false) (hin : w.isGone = false) :
    w.isAwake = true ∨ w.isBusy = true := by
  cases w with
  | awake => exact .inl rfl
  | busy => exact .inr rfl
  | asleep => cases hup
  | gone => cases hin

/-- Nobody sleeps who was called. -/
theorem isAsleep_called (w : Worker α) : w.called.isAsleep = false := by
  cases w <;> rfl

/-- A call changes nobody who does not sleep. -/
theorem called_of_up {w : Worker α} (h : w.isAsleep = false) : w.called = w := by
  cases w with
  | asleep => cases h
  | awake => rfl
  | busy => rfl
  | gone => rfl

end Worker

/-- What a worker does of itself, once it is awake. -/
def Action.isWork {α : Type} : Action α → Bool
  | .look _ => true
  | .finish _ _ => true
  | _ => false

namespace Pool

variable {α : Type} {n : Nat} {p q r : Pool α} {a : Action α}

/-! ## How many workers are awake -/

/-- The workers that are about to look at the queue. -/
def awake (p : Pool α) : Nat :=
  p.workers.countP Worker.isAwake

/-- The workers that run a task. -/
def busy (p : Pool α) : Nat :=
  p.workers.countP Worker.isBusy

/-- One worker is given something else to do, and the others are counted as before. -/
theorem countP_set {P : Worker α → Bool} {workers : List (Worker α)} {i : Nat} {w : Worker α}
    (h : workers[i]? = some w) (w' : Worker α) :
    (workers.set i w').countP P + (if P w then 1 else 0) =
      workers.countP P + (if P w' then 1 else 0) := by
  obtain ⟨hi, rfl⟩ := List.getElem?_eq_some_iff.mp h
  -- the worker itself is among those that are counted, if it counts
  have hle := List.boole_getElem_le_countP (p := P) hi
  rw [List.countP_set hi]
  omega

/-- One more is counted if the worker counts now and did not before. -/
theorem countP_set_more {P : Worker α → Bool} {workers : List (Worker α)} {i : Nat}
    {w w' : Worker α} (h : workers[i]? = some w) (hw : P w = false) (hw' : P w' = true) :
    (workers.set i w').countP P = workers.countP P + 1 := by
  simpa [hw, hw'] using countP_set (P := P) h w'

/-- One less is counted if it counted before and does not now. -/
theorem countP_set_less {P : Worker α → Bool} {workers : List (Worker α)} {i : Nat}
    {w w' : Worker α} (h : workers[i]? = some w) (hw : P w = true) (hw' : P w' = false) :
    (workers.set i w').countP P + 1 = workers.countP P := by
  simpa [hw, hw'] using countP_set (P := P) h w'

/-- As many are counted if it counts neither before nor now. -/
theorem countP_set_same {P : Worker α → Bool} {workers : List (Worker α)} {i : Nat}
    {w w' : Worker α} (h : workers[i]? = some w) (hw : P w = false) (hw' : P w' = false) :
    (workers.set i w').countP P = workers.countP P := by
  simpa [hw, hw'] using countP_set (P := P) h w'

/-- Nobody sleeps after a worker has moved, unless it was that one which fell asleep. -/
theorem up_setWorker {i : Nat} {w' : Worker α} (h : ∀ w ∈ p.workers, w.isAsleep = false)
    (hw' : w'.isAsleep = false) : ∀ w ∈ (p.setWorker i w').workers, w.isAsleep = false := by
  intro w hw
  rcases List.mem_or_eq_of_mem_set hw with hw | rfl
  · exact h w hw
  · exact hw'

/-- Nobody sleeps after all were called. -/
theorem up_called (workers : List (Worker α)) :
    ∀ w ∈ workers.map Worker.called, w.isAsleep = false := by
  intro w hw
  obtain ⟨v, -, rfl⟩ := List.mem_map.mp hw
  exact v.isAsleep_called

/-! ## The watch over the queue -/

/-- While a worker sleeps, there is a call due or a worker awake for each task that waits; and
the call of a stop is due only after its flag is set. -/
structure Watch (p : Pool α) : Prop where
  covered : (∃ w ∈ p.workers, w.isAsleep = true) → p.queue.length ≤ p.calls + p.awake
  flagged : 0 < p.stopCalls → p.stopped = true

/-- Nothing needs to be watched while nobody sleeps. -/
theorem Watch.of_up (hup : ∀ w ∈ p.workers, w.isAsleep = false)
    (hflagged : 0 < p.stopCalls → p.stopped = true) : Watch p where
  covered := by
    rintro ⟨w, hw, hasleep⟩
    rw [hup w hw] at hasleep
    cases hasleep
  flagged := hflagged

/-- Nor while no task waits. -/
theorem Watch.of_empty (hqueue : p.queue = [])
    (hflagged : 0 < p.stopCalls → p.stopped = true) : Watch p where
  covered := fun _ => by rw [hqueue]; exact Nat.zero_le _
  flagged := hflagged

/-- A new pool has nothing in its queue. -/
theorem watch_create (h : create n = .ok p) : Watch p := by
  unfold create at h
  split at h
  · cases h
  · cases h
    exact .of_empty rfl nofun

/-- Who sleeps after a worker that did not fall asleep has moved has slept before. -/
theorem asleep_of_setWorker {i : Nat} {v : Worker α} (hv : v.isAsleep = false)
    (h : ∃ w ∈ (p.setWorker i v).workers, w.isAsleep = true) :
    ∃ w ∈ p.workers, w.isAsleep = true := by
  obtain ⟨w, hw, hasleep⟩ := h
  rcases List.mem_or_eq_of_mem_set hw with hw | rfl
  · exact ⟨w, hw, hasleep⟩
  · rw [hv] at hasleep
    cases hasleep

/-- **Every action keeps the watch**: what adds a task adds a call, and what spends a call or
takes a worker from its look takes a task or wakes somebody. -/
theorem Watch.move (h : Watch p) (hmove : Moves p a q) : Watch q := by
  -- one case for each action: the queue, the calls and the workers that are awake change together
  cases hmove with
  | @accept t hopen =>
    -- the task and the call that is due for it come together
    refine ⟨fun hasleep => ?_, h.flagged⟩
    have hcovered := h.covered hasleep
    show (p.queue ++ [t]).length ≤ p.calls + 1 + p.awake
    rw [List.length_append, List.length_singleton]
    omega
  | refuse => exact ⟨h.covered, h.flagged⟩
  | callNone _ hup => exact .of_up hup h.flagged
  | @callOne i hcalls hasleep =>
    -- the call is spent, and the worker that it woke is awake
    refine ⟨fun _ => ?_, h.flagged⟩
    have hcovered := h.covered ⟨_, List.mem_of_getElem? hasleep, rfl⟩
    have hawake : (p.setWorker i .awake).awake = p.awake + 1 := countP_set_more hasleep rfl rfl
    show p.queue.length ≤ p.calls - 1 + (p.setWorker i .awake).awake
    omega
  | stop => exact ⟨h.covered, fun _ => rfl⟩
  | callAll hcalls => exact .of_up (up_called _) fun _ => h.flagged hcalls
  | @take i t rest hawake hqueue =>
    -- one worker less is awake, and one task less waits
    refine ⟨fun hasleep => ?_, h.flagged⟩
    have hcovered := h.covered (asleep_of_setWorker (v := .busy t) rfl hasleep)
    have hless : (p.setWorker i (.busy t)).awake + 1 = p.awake := countP_set_less hawake rfl rfl
    rw [hqueue, List.length_cons] at hcovered
    show rest.length ≤ p.calls + (p.setWorker i (.busy t)).awake
    omega
  | leave _ hqueue => exact .of_empty hqueue h.flagged
  | sleep _ hqueue => exact .of_empty hqueue h.flagged
  | @finish i t ending hbusy =>
    refine ⟨fun hasleep => ?_, h.flagged⟩
    have hcovered := h.covered (asleep_of_setWorker (v := .awake) rfl hasleep)
    have hawake : (p.setWorker i .awake).awake = p.awake + 1 := countP_set_more hbusy rfl rfl
    show p.queue.length ≤ p.calls + (p.setWorker i .awake).awake
    omega
  | @stir i hasleep =>
    refine ⟨fun _ => ?_, h.flagged⟩
    have hcovered := h.covered ⟨_, List.mem_of_getElem? hasleep, rfl⟩
    have hawake : (p.setWorker i .awake).awake = p.awake + 1 := countP_set_more hasleep rfl rfl
    show p.queue.length ≤ p.calls + (p.setWorker i .awake).awake
    omega
  | join => exact .of_up nofun h.flagged

/-- So it is kept by every run. -/
theorem watch_of_reachable (h : Reachable n p) : Watch p := by
  induction h with
  | create h => exact watch_create h
  | step a _ hstep ih => exact ih.move (moves_of_step hstep)

/-! ## After the call of a stop -/

/-- The pool is stopped and everybody has been called. -/
structure Roused (p : Pool α) : Prop where
  stopped : p.stopped = true
  up : ∀ w ∈ p.workers, w.isAsleep = false

/-- In a pool that is stopped nobody falls asleep again. -/
theorem Roused.move (h : Roused p) (hmove : Moves p a q) : Roused q := by
  refine ⟨(hmove.stopped h.stopped).1, ?_⟩
  -- no action wakes nobody and puts anybody to sleep, but a look at an open pool
  cases hmove with
  | accept => exact h.up
  | refuse => exact h.up
  | callNone => exact h.up
  | callOne => exact up_setWorker h.up rfl
  | stop => exact h.up
  | callAll => exact up_called _
  | take => exact up_setWorker h.up rfl
  | leave => exact up_setWorker h.up rfl
  | sleep _ _ hopen =>
    -- only an open pool lets a worker sleep
    rw [h.stopped] at hopen
    cases hopen
  | finish => exact up_setWorker h.up rfl
  | stir => exact up_setWorker h.up rfl
  | join => exact nofun

/-- Nobody does, however long the run is. -/
theorem Roused.run (h : Roused p) (hrun : Run p q) : Roused q := by
  induction hrun with
  | refl => exact h
  | tail _ hstep ih =>
    obtain ⟨a, hstep⟩ := hstep
    exact ih.move (moves_of_step hstep)

/-- The call of a stop rouses the pool: its flag is set by then. -/
theorem Watch.roused (h : Watch p) (hcall : p.step .callAll = some q) : Roused q := by
  cases moves_of_step hcall with
  | callAll hcalls => exact ⟨h.flagged hcalls, up_called _⟩

/-- The looks and ends of tasks that a pool has before it, if nobody sleeps and nothing comes:
a task that waits is looked at and ends, a busy worker ends its task, and each of them looks
once more. -/
def effort (p : Pool α) : Nat :=
  2 * p.queue.length + p.awake + 2 * p.busy

/-- Whatever comes between, the work of a roused pool gets less with each piece of it. -/
theorem Roused.effort_move (h : Roused p) (hmove : Moves p a q) :
    (if a.isWork then 1 else 0) + q.effort ≤ p.effort := by
  unfold effort
  cases hmove with
  | accept hopen =>
    rw [h.stopped] at hopen
    cases hopen
  | refuse => exact Nat.le_of_eq (Nat.zero_add _)
  | callNone => exact Nat.le_of_eq (Nat.zero_add _)
  | callOne _ hasleep =>
    have hup := h.up _ (List.mem_of_getElem? hasleep)
    cases hup
  | stop => exact Nat.le_of_eq (Nat.zero_add _)
  | callAll =>
    -- nobody sleeps, so that the call changes nobody
    have hcalled : p.workers.map Worker.called = p.workers := by
      rw [List.map_congr_left fun w hw => Worker.called_of_up (h.up w hw), List.map_id']
    simp only [awake, busy, hcalled]
    exact Nat.le_of_eq (Nat.zero_add _)
  | @take i t rest hawake hqueue =>
    -- two for a task that waits are enough for its end and the look after it
    have hless : (p.setWorker i (.busy t)).awake + 1 = p.awake := countP_set_less hawake rfl rfl
    have hmore : (p.setWorker i (.busy t)).busy = p.busy + 1 := countP_set_more hawake rfl rfl
    rw [hqueue, List.length_cons]
    show 1 + (2 * rest.length + (p.setWorker i (.busy t)).awake +
      2 * (p.setWorker i (.busy t)).busy) ≤ _
    omega
  | @leave i hawake hqueue =>
    have hless : (p.setWorker i .gone).awake + 1 = p.awake := countP_set_less hawake rfl rfl
    have hsame : (p.setWorker i .gone).busy = p.busy := countP_set_same hawake rfl rfl
    show 1 + (2 * p.queue.length + (p.setWorker i .gone).awake +
      2 * (p.setWorker i .gone).busy) ≤ _
    omega
  | sleep _ _ hopen =>
    rw [h.stopped] at hopen
    cases hopen
  | @finish i t ending hbusy =>
    have hmore : (p.setWorker i .awake).awake = p.awake + 1 := countP_set_more hbusy rfl rfl
    have hless : (p.setWorker i .awake).busy + 1 = p.busy := countP_set_less hbusy rfl rfl
    show 1 + (2 * p.queue.length + (p.setWorker i .awake).awake +
      2 * (p.setWorker i .awake).busy) ≤ _
    omega
  | stir hasleep =>
    have hup := h.up _ (List.mem_of_getElem? hasleep)
    cases hup
  | join =>
    show 0 + (2 * p.queue.length + 0 + 2 * 0) ≤ _
    omega

/-- No order of actions gets more work out of a roused pool than its effort. -/
theorem Roused.trace {actions : List (Action α)} (h : Roused p)
    (htrace : actions.foldlM Pool.step p = some q) :
    actions.countP Action.isWork + q.effort ≤ p.effort := by
  -- by induction on the actions: each piece of work costs at least one
  induction actions generalizing p with
  | nil =>
    cases htrace
    exact Nat.le_of_eq (Nat.zero_add _)
  | cons a actions ih =>
    rw [List.foldlM_cons] at htrace
    obtain ⟨p', hstep, hrest⟩ := Option.bind_eq_some_iff.mp htrace
    have hmove := moves_of_step hstep
    have hfirst := h.effort_move hmove
    have hothers := ih (h.move hmove) hrest
    rw [List.countP_cons]
    omega

/-! ## No call is lost -/

/-- Tasks wait, no call is due, and all who have not gone are asleep. -/
structure Stuck (p : Pool α) : Prop where
  waits : p.queue ≠ []
  quiet : p.calls = 0 ∧ p.stopCalls = 0
  asleep : ∀ w ∈ p.workers, w.isGone = false → w.isAsleep = true

/-- What holds from the call of a stop on. -/
structure Draining (r : Pool α) : Prop where
  stopped : r.stopped = true
  /-- Nobody sleeps. -/
  up : ∀ w ∈ r.workers, w.isAsleep = false
  /-- An awake worker needs nobody else: it looks, and takes a task or goes. -/
  looks : ∀ i, r.workers[i]? = some .awake → ∃ q w, r.step (.look i) = some q ∧
    q.workers[i]? = some w ∧ (w.isBusy = true ∨ w.isGone = true)
  /-- There is an end to that, whatever comes between. -/
  bounded : ∀ (actions : List (Action α)) q, actions.foldlM Pool.step r = some q →
    actions.countP Action.isWork ≤ r.effort
  /-- Who has not gone is about to look or runs a task. -/
  left : ∀ w ∈ r.workers, w.isGone = false → w.isAwake = true ∨ w.isBusy = true
  /-- Once nobody looks and no task runs, no task waits and the pool can be joined. -/
  joins : (∀ w ∈ r.workers, w.isAwake = false ∧ w.isBusy = false) → r.queue = [] ∧
    (r.stopCalls = 0 → r.step .join = some { r with workers := [] })

/-- An awake worker finds a task or goes, since a stopped pool lets nobody sleep. -/
theorem Roused.looks (h : Roused r) {i : Nat} (hi : r.workers[i]? = some .awake) :
    ∃ q w, r.step (.look i) = some q ∧ q.workers[i]? = some w ∧
      (w.isBusy = true ∨ w.isGone = true) := by
  have hlt := (List.getElem?_eq_some_iff.mp hi).1
  have hstep : r.step (.look i) = some (r.look i) := by simp only [step, hi]
  have hput (p : Pool α) (w : Worker α) (hp : p.workers = r.workers) :
      (p.setWorker i w).workers[i]? = some w := by
    rw [setWorker, hp]
    exact List.getElem?_set_self hlt
  -- with an empty queue it goes, otherwise it takes the first task
  by_cases hqueue : r.queue = []
  · refine ⟨_, .gone, hstep, ?_, .inr rfl⟩
    have hlook : r.look i = r.setWorker i .gone := by simp [look, hqueue, h.stopped]
    rw [hlook]
    exact hput r .gone rfl
  · obtain ⟨t, rest, hqueue⟩ := List.exists_cons_of_ne_nil hqueue
    refine ⟨_, .busy t, hstep, ?_, .inl rfl⟩
    simp only [look, hqueue]
    exact hput _ (.busy t) rfl

/-- A roused pool empties itself. -/
theorem Roused.draining (h : Roused r) (hreach : Reachable n r) : Draining r where
  stopped := h.stopped
  up := h.up
  looks := fun _ hi => h.looks hi
  bounded := by
    intro actions q htrace
    have := h.trace htrace
    omega
  left := fun w hw hin => Worker.isAwake_or_isBusy (h.up w hw) hin
  joins := by
    intro hidle
    have hbooks := books_of_reachable hreach
    -- a worker that neither looks nor works nor sleeps has gone
    have hgone : ∀ w ∈ r.workers, w.isGone = true := by
      intro w hw
      by_contra hin
      rw [Bool.not_eq_true] at hin
      obtain ⟨hawake, hbusy⟩ := hidle w hw
      rcases Worker.isAwake_or_isBusy (h.up w hw) hin with hup | hup
      · rw [hawake] at hup
        cases hup
      · rw [hbusy] at hup
        cases hup
    refine ⟨hbooks.queue_of_gone hgone, fun hcalls => ?_⟩
    simp only [step]
    rw [if_pos ⟨h.stopped, hcalls, List.all_eq_true.mpr hgone⟩]

/-- What holds in every pool that a run comes to. -/
structure Wakeful (p : Pool α) : Prop where
  /-- There is no way to be stuck: as long as one worker sleeps, each task that waits has a call
  that is due or a worker that is awake. -/
  unstuck : ¬ Stuck p
  covered : (∃ w ∈ p.workers, w.isAsleep = true) → p.queue.length ≤ p.calls + p.awake
  /-- A worker goes by its own look only, at an empty queue and a stopped pool. -/
  leaves : ∀ a q i, p.step a = some q → q.workers[i]? = some .gone →
    p.workers[i]? = some .gone ∨ a = .look i ∧ p.queue = [] ∧ p.stopped = true
  /-- Whatever comes after the call of a stop, nobody sleeps and the pool empties itself. -/
  called : ∀ q r, p.step .callAll = some q → Run q r → Draining r

/-- Who has gone after a worker moved that did not go had gone before. -/
theorem gone_of_setWorker {i j : Nat} {v : Worker α} (hv : v.isGone = false)
    (h : (p.setWorker j v).workers[i]? = some .gone) : p.workers[i]? = some .gone := by
  rw [setWorker, List.getElem?_set] at h
  by_cases hj : j = i
  · rw [if_pos hj] at h
    split at h
    · cases h
      cases hv
    · cases h
  · rwa [if_neg hj] at h

/-- Among the actions only a look makes a worker go. -/
theorem leaves_of_moves {i : Nat} (h : Moves p a q) (hi : q.workers[i]? = some .gone) :
    p.workers[i]? = some .gone ∨ a = .look i ∧ p.queue = [] ∧ p.stopped = true := by
  -- all other actions leave the workers as they are, or make one awake, busy or asleep
  cases h with
  | accept => exact .inl hi
  | refuse => exact .inl hi
  | callNone => exact .inl hi
  | callOne => exact .inl (gone_of_setWorker (v := .awake) rfl hi)
  | stop => exact .inl hi
  | callAll =>
    refine .inl ?_
    rw [List.getElem?_map] at hi
    obtain ⟨w, hw, hgone⟩ := Option.map_eq_some_iff.mp hi
    cases w with
    | gone => exact hw
    | awake => cases hgone
    | asleep => cases hgone
    | busy => cases hgone
  | @take _ t => exact .inl (gone_of_setWorker (v := .busy t) rfl hi)
  | @leave j _ hqueue hstopped =>
    by_cases hj : j = i
    · exact .inr ⟨by rw [hj], hqueue, hstopped⟩
    · rw [setWorker, List.getElem?_set_ne hj] at hi
      exact .inl hi
  | sleep => exact .inl (gone_of_setWorker (v := .asleep) rfl hi)
  | finish => exact .inl (gone_of_setWorker (v := .awake) rfl hi)
  | stir => exact .inl (gone_of_setWorker (v := .awake) rfl hi)
  | join => simp at hi

/-- The watch and the accounts leave no way to be stuck. -/
theorem Watch.not_stuck (h : Watch p) (hbooks : Books n p) : ¬ Stuck p := by
  intro hstuck
  have hpos := List.length_pos_of_ne_nil hstuck.waits
  by_cases hasleep : ∃ w ∈ p.workers, w.isAsleep = true
  · -- the tasks that wait are covered by workers that are awake, and there are none
    have hcovered := h.covered hasleep
    have hnone : p.awake = 0 := by
      refine List.countP_eq_zero.mpr fun w hw hawake => ?_
      obtain rfl := Worker.eq_awake_of_isAwake hawake
      have := hstuck.asleep _ hw rfl
      cases this
    rw [hstuck.quiet.1, hnone] at hcovered
    omega
  · -- all have gone, which no worker does while a task waits
    refine hstuck.waits (hbooks.queue_of_gone fun w hw => ?_)
    by_contra hin
    rw [Bool.not_eq_true] at hin
    exact hasleep ⟨w, hw, hstuck.asleep w hw hin⟩

/-- **No call is lost** in a pool of `n` workers, whatever the order of its actions. -/
theorem wakeful_of_reachable (h : Reachable n p) : Wakeful p where
  unstuck := (watch_of_reachable h).not_stuck (books_of_reachable h)
  covered := (watch_of_reachable h).covered
  leaves := fun _ _ _ hstep hi => leaves_of_moves (moves_of_step hstep) hi
  called := by
    intro q r hcall hrun
    have hroused := (watch_of_reachable h).roused hcall
    exact (hroused.run hrun).draining (hrun.reachable (.step _ h hcall))

/-- Two workers have gone to sleep, a task has come and a stop after it, and neither has called
yet. -/
def quietTrace : List (Action Nat) :=
  [.look 0, .look 1, .submit 1, .stop]

/-- In this pool a call is due, and after the call of the stop nobody sleeps any more. -/
theorem wakeful_quiet :
    ∃ p r : Pool Nat, quietTrace.foldlM Pool.step { workers := [.awake, .awake] } = some p ∧
      p.workers = [.asleep, .asleep] ∧ p.queue = [1] ∧ p.calls = 1 ∧ p.step .callAll = some r ∧
      Reachable 2 p ∧ Wakeful p ∧ Draining r := by
  obtain ⟨p, r, htrace, hworkers, hqueue, hcalls, hall⟩ :
      ∃ p r : Pool Nat, quietTrace.foldlM Pool.step { workers := [.awake, .awake] } = some p ∧
        p.workers = [.asleep, .asleep] ∧ p.queue = [1] ∧ p.calls = 1 ∧
        p.step .callAll = some r :=
    ⟨_, _, rfl, rfl, rfl, rfl, rfl⟩
  have hreachable : Reachable 2 p := (Reachable.create rfl).trace htrace
  have hwakeful := wakeful_of_reachable hreachable
  exact ⟨p, r, htrace, hworkers, hqueue, hcalls, hall, hreachable, hwakeful,
    hwakeful.called _ _ hall .refl⟩

end Pool

end Courier
