import Mathlib.Data.List.Perm.Basic
import Mathlib.Logic.Relation
import Courier.Pool.Basic

/-!
# Tasks run exactly once

A task that a pool accepts waits in the queue, is taken by one worker, and ends. Each action of
the pool moves at most one task to the next of these places, so none is lost or doubled, whatever
the order of the actions. A worker goes only when the pool is stopped and nothing waits, and from
then on nothing is accepted: once all workers have gone, every accepted task has ended.

Main results:

* `Pool.moves_of_step` — what each action does, with all that it has found out.
* `Pool.Books.move`, `Pool.books_of_reachable` — the accounts that every action keeps.
* `Pool.exactlyOnce_of_reachable` — every accepted task runs exactly once.
-/

namespace Courier

namespace Pool

open scoped List

variable {α : Type}

/-! ## What an action does -/

/-- The actions that are possible in a pool, and what each leads to. A look has three ends: it
takes a task, it sends the worker away, or it sends it to sleep. -/
inductive Moves (p : Pool α) : Action α → Pool α → Prop where
  | accept {t : α} (hopen : p.stopped = false) :
      Moves p (.submit t)
        { p with queue := p.queue ++ [t], accepted := p.accepted ++ [t], calls := p.calls + 1 }
  | refuse {t : α} (hstopped : p.stopped = true) :
      Moves p (.submit t) { p with refused := p.refused ++ [t] }
  | callNone (hcalls : 0 < p.calls) (hup : ∀ w ∈ p.workers, w.isAsleep = false) :
      Moves p (.call none) { p with calls := p.calls - 1 }
  | callOne {i : Nat} (hcalls : 0 < p.calls) (hasleep : p.workers[i]? = some .asleep) :
      Moves p (.call (some i)) ({ p with calls := p.calls - 1 }.setWorker i .awake)
  | stop : Moves p .stop p.stop
  | callAll (hcalls : 0 < p.stopCalls) :
      Moves p .callAll
        { p with stopCalls := p.stopCalls - 1, workers := p.workers.map Worker.called }
  | take {i : Nat} {t : α} {rest : List α} (hawake : p.workers[i]? = some .awake)
      (hqueue : p.queue = t :: rest) :
      Moves p (.look i)
        ({ p with queue := rest, taken := p.taken ++ [t] }.setWorker i (.busy t))
  | leave {i : Nat} (hawake : p.workers[i]? = some .awake) (hqueue : p.queue = [])
      (hstopped : p.stopped = true) : Moves p (.look i) (p.setWorker i .gone)
  | sleep {i : Nat} (hawake : p.workers[i]? = some .awake) (hqueue : p.queue = [])
      (hopen : p.stopped = false) : Moves p (.look i) (p.setWorker i .asleep)
  | finish {i : Nat} {t : α} {ending : Ending} (hbusy : p.workers[i]? = some (.busy t)) :
      Moves p (.finish i ending) (p.finish i t ending)
  | stir {i : Nat} (hasleep : p.workers[i]? = some .asleep) :
      Moves p (.stir i) (p.setWorker i .awake)
  | join (hstopped : p.stopped = true) (hcalls : p.stopCalls = 0)
      (hgone : ∀ w ∈ p.workers, w.isGone = true) : Moves p .join { p with workers := [] }

/-- Every action that is possible is one of these moves. All that is known of a step is read off
here, so nothing else unfolds it. -/
theorem moves_of_step {p q : Pool α} {a : Action α} (h : p.step a = some q) : Moves p a q := by
  cases a with
  | submit t =>
    simp only [step, submit] at h
    by_cases hstopped : p.stopped = true
    · rw [if_pos hstopped] at h
      cases h
      exact .refuse hstopped
    · rw [if_neg hstopped] at h
      cases h
      exact .accept (by simpa using hstopped)
  | call sleeper =>
    cases sleeper with
    | none =>
      simp only [step] at h
      split at h
      · rename_i hcalls
        cases h
        exact .callNone hcalls.1 (by simpa using hcalls.2)
      · cases h
    | some i =>
      simp only [step] at h
      split at h
      · rename_i hasleep
        split at h
        · rename_i hcalls
          cases h
          exact .callOne hcalls hasleep
        · cases h
      · cases h
  | stop =>
    cases h
    exact .stop
  | callAll =>
    simp only [step] at h
    split at h
    · rename_i hcalls
      cases h
      exact .callAll hcalls
    · cases h
  | look i =>
    simp only [step] at h
    split at h
    · rename_i hawake
      cases h
      -- the worker looks at the queue first, and only then at the flag
      unfold look
      cases hqueue : p.queue with
      | cons t rest => exact .take hawake hqueue
      | nil =>
        cases hstopped : p.stopped with
        | true => exact .leave hawake hqueue hstopped
        | false => exact .sleep hawake hqueue hstopped
    · cases h
  | finish i ending =>
    simp only [step] at h
    split at h
    · rename_i t hbusy
      cases h
      exact .finish hbusy
    · cases h
  | stir i =>
    simp only [step] at h
    split at h
    · rename_i hasleep
      cases h
      exact .stir hasleep
    · cases h
  | join =>
    simp only [step] at h
    split at h
    · rename_i hall
      cases h
      exact .join hall.1 hall.2.1 (by simpa using hall.2.2)
    · cases h

/-! ## The tasks of the workers -/

/-- One worker is given something else to do, and the others keep their tasks. -/
theorem running_set {workers : List (Worker α)} {i : Nat} {w : Worker α}
    (h : workers[i]? = some w) (w' : Worker α) :
    (w.task?.toList ++ (workers.set i w').filterMap Worker.task?).Perm
      (w'.task?.toList ++ workers.filterMap Worker.task?) := by
  have hcons (w : Worker α) (ws : List (Worker α)) :
      (w :: ws).filterMap Worker.task? = w.task?.toList ++ ws.filterMap Worker.task? := by
    cases hw : w.task? <;> simp [hw]
  -- by induction on the workers up to the one that changes
  induction workers generalizing i with
  | nil => simp at h
  | cons v workers ih =>
    cases i with
    | zero =>
      obtain rfl : v = w := by simpa using h
      rw [List.set_cons_zero, hcons, hcons, ← List.append_assoc, ← List.append_assoc]
      exact List.perm_append_comm.append_right _
    | succ i =>
      -- the task of the first worker is carried past both sides
      rw [List.set_cons_succ, hcons, hcons, ← List.append_assoc, ← List.append_assoc]
      refine (List.perm_append_comm.append_right _).trans ?_
      refine List.Perm.trans ?_ (List.perm_append_comm.append_right _)
      rw [List.append_assoc, List.append_assoc]
      exact (ih (by simpa using h)).append_left _

/-- The same of a pool. -/
theorem running_setWorker {p : Pool α} {i : Nat} {w : Worker α} (h : p.workers[i]? = some w)
    (w' : Worker α) :
    (w.task?.toList ++ (p.setWorker i w').running).Perm (w'.task?.toList ++ p.running) :=
  running_set h w'

/-- A worker without a task that gets none leaves the tasks as they are. -/
theorem running_setWorker_idle {p : Pool α} {i : Nat} {w w' : Worker α}
    (h : p.workers[i]? = some w) (hw : w.task? = none) (hw' : w'.task? = none) :
    (p.setWorker i w').running.Perm p.running := by
  simpa [hw, hw'] using running_setWorker h w'

/-- A call leaves the tasks of the workers as they are. -/
theorem running_called (workers : List (Worker α)) :
    (workers.map Worker.called).filterMap Worker.task? = workers.filterMap Worker.task? := by
  rw [List.filterMap_map]
  congr 1
  funext w
  cases w <;> rfl

/-! ## The accounts of a pool -/

/-- What every action keeps true of a pool of `n` workers. -/
structure Books (n : Nat) (p : Pool α) : Prop where
  hired : 0 < n
  /-- What was accepted was taken, in that order, or still waits. -/
  order : p.taken ++ p.queue = p.accepted
  places : p.taken.Perm (p.finished ++ p.running)
  /-- Nobody is missing until all are waited for, and then nothing is left to do. -/
  staff : p.workers.length = n ∨ p.workers = [] ∧ p.stopped = true ∧ p.queue = []
  leaves : ∀ w ∈ p.workers, w.isGone = true → p.stopped = true ∧ p.queue = []

variable {n : Nat} {p q : Pool α} {a : Action α}

/-- The accounts of a new pool: all workers are there and nothing has come yet. -/
theorem books_create (h : create n = .ok p) : Books n p := by
  unfold create at h
  split at h
  · cases h
  · cases h
    rename_i hsize
    constructor
    case hired => exact Nat.pos_of_ne_zero hsize
    case order => rfl
    case places => simp [running, Worker.task?]
    case staff => exact .inl (by simp)
    case leaves =>
      intro w hw hgone
      rw [List.eq_of_mem_replicate hw] at hgone
      cases hgone

/-- The accounts do not look at a worker that had no task and gets none, unless it goes. -/
theorem Books.idle {i : Nat} {w w' : Worker α} (h : Books n p) (hi : p.workers[i]? = some w)
    (hw : w.task? = none) (hw' : w'.task? = none)
    (hgone : w'.isGone = true → p.stopped = true ∧ p.queue = []) : Books n (p.setWorker i w') where
  hired := h.hired
  order := h.order
  -- no task changes its place
  places := h.places.trans ((running_setWorker_idle hi hw hw').symm.append_left _)
  staff := by
    refine h.staff.imp (fun hlength => ?_) (fun hnone => ?_)
    · rw [setWorker, List.length_set, hlength]
    · rw [hnone.1] at hi
      simp at hi
  leaves := by
    intro v hv hvgone
    -- only the worker that moved can have gone by this
    rcases List.mem_or_eq_of_mem_set hv with hv | rfl
    · exact h.leaves v hv hvgone
    · exact hgone hvgone

/-- They are kept when a worker takes a task. -/
theorem Books.take {i : Nat} {t : α} {rest : List α} (h : Books n p)
    (hi : p.workers[i]? = some .awake) (hqueue : p.queue = t :: rest) :
    Books n ({ p with queue := rest, taken := p.taken ++ [t] }.setWorker i (.busy t)) where
  hired := h.hired
  order := by
    have horder := h.order
    rw [hqueue] at horder
    rw [← horder]
    exact List.append_assoc ..
  places := by
    -- the task goes from the front of the queue to the worker
    have hrunning : (({ p with queue := rest, taken := p.taken ++ [t] } : Pool α).setWorker i
        (.busy t)).running.Perm ([t] ++ p.running) := running_set hi (.busy t)
    calc p.taken ++ [t]
      _ ~ (p.finished ++ p.running) ++ [t] := h.places.append_right _
      _ = p.finished ++ (p.running ++ [t]) := List.append_assoc ..
      _ ~ p.finished ++ ([t] ++ p.running) := List.perm_append_comm.append_left _
      _ ~ _ := hrunning.symm.append_left _
  staff := by
    refine h.staff.imp (fun hlength => ?_) (fun hnone => ?_)
    · rw [setWorker, List.length_set, hlength]
    · rw [hnone.1] at hi
      simp at hi
  leaves := by
    intro w hw hgone
    rcases List.mem_or_eq_of_mem_set hw with hw | rfl
    · -- no one goes as long as a task waits
      have := (h.leaves w hw hgone).2
      rw [hqueue] at this
      cases this
    · cases hgone

/-- And when a worker ends one, whether it returns or panics. -/
theorem Books.finish {i : Nat} {t : α} (h : Books n p) (hi : p.workers[i]? = some (.busy t))
    (ending : Ending) : Books n (p.finish i t ending) where
  hired := h.hired
  order := h.order
  places := by
    -- the task goes from its worker to those that have ended
    have hrunning : ([t] ++ (p.finish i t ending).running).Perm p.running := running_set hi .awake
    calc p.taken
      _ ~ p.finished ++ p.running := h.places
      _ ~ p.finished ++ ([t] ++ (p.finish i t ending).running) := hrunning.symm.append_left _
      _ = p.finished ++ [t] ++ (p.finish i t ending).running := (List.append_assoc ..).symm
  staff := by
    refine h.staff.imp (fun hlength => ?_) (fun hnone => ?_)
    · rw [← hlength]
      exact List.length_set ..
    · rw [hnone.1] at hi
      simp at hi
  leaves := by
    intro w hw hgone
    rcases List.mem_or_eq_of_mem_set hw with hw | rfl
    · exact h.leaves w hw hgone
    · cases hgone

/-- Whoever went last went because nothing waited. -/
theorem Books.queue_of_gone (h : Books n p) (hgone : ∀ w ∈ p.workers, w.isGone = true) :
    p.queue = [] := by
  rcases h.staff with hlength | ⟨-, -, hnone⟩
  · have hne := h.hired
    rw [← hlength] at hne
    obtain ⟨w, hw⟩ := List.exists_mem_of_length_pos hne
    exact (h.leaves w hw (hgone w hw)).2
  · exact hnone

/-- **Every action keeps the accounts.** -/
theorem Books.move (h : Books n p) (hmove : Moves p a q) : Books n q := by
  -- one case for each action
  cases hmove with
  | @accept t hopen =>
    have horder : p.taken ++ (p.queue ++ [t]) = p.accepted ++ [t] := by
      rw [← h.order, List.append_assoc]
    -- an open pool has lost no worker
    refine ⟨h.hired, horder, h.places, .inl ?_, fun w hw hgone => ?_⟩
    · refine h.staff.resolve_right fun hnone => ?_
      rw [hopen] at hnone
      cases hnone.2.1
    · have := (h.leaves w hw hgone).1
      rw [hopen] at this
      cases this
  | refuse => exact ⟨h.hired, h.order, h.places, h.staff, h.leaves⟩
  | callNone => exact ⟨h.hired, h.order, h.places, h.staff, h.leaves⟩
  | callOne _ hasleep =>
    exact Books.idle (p := { p with calls := p.calls - 1 })
      ⟨h.hired, h.order, h.places, h.staff, h.leaves⟩ hasleep rfl rfl nofun
  | stop =>
    exact ⟨h.hired, h.order, h.places, h.staff.imp id fun hnone => ⟨hnone.1, rfl, hnone.2.2⟩,
      fun w hw hgone => ⟨rfl, (h.leaves w hw hgone).2⟩⟩
  | callAll =>
    refine ⟨h.hired, h.order, ?_, ?_, fun w hw hgone => ?_⟩
    · rw [running, running_called]
      exact h.places
    · simpa using h.staff
    · obtain ⟨v, hv, rfl⟩ := List.mem_map.mp hw
      cases v with
      | gone => exact h.leaves _ hv rfl
      | awake => cases hgone
      | asleep => cases hgone
      | busy => cases hgone
  | take hawake hqueue => exact h.take hawake hqueue
  | leave hawake hqueue hstopped => exact h.idle hawake rfl rfl fun _ => ⟨hstopped, hqueue⟩
  | sleep hawake => exact h.idle hawake rfl rfl nofun
  | finish hbusy => exact h.finish hbusy _
  | stir hasleep => exact h.idle hasleep rfl rfl nofun
  | join hstopped _ hgone =>
    have hqueue := h.queue_of_gone hgone
    have hrunning : p.running = [] := by
      refine List.filterMap_eq_nil_iff.mpr fun w hw => ?_
      have hwgone := hgone w hw
      cases w with
      | gone => rfl
      | awake => cases hwgone
      | asleep => cases hwgone
      | busy => cases hwgone
    refine ⟨h.hired, h.order, ?_, .inr ⟨rfl, hstopped, hqueue⟩, nofun⟩
    have hplaces := h.places
    rw [hrunning] at hplaces
    exact hplaces

/-- So they hold after every run. -/
theorem books_of_reachable (h : Reachable n p) : Books n p := by
  -- by induction on the run, with one move for each step
  induction h with
  | create h => exact books_create h
  | step a _ hstep ih => exact ih.move (moves_of_step hstep)

/-! ## A pool that is stopped -/

/-- One pool comes from another one by some actions. -/
def Run (p q : Pool α) : Prop :=
  Relation.ReflTransGen (fun p q => ∃ a, p.step a = some q) p q

/-- A stopped pool stays stopped and accepts nothing more. -/
theorem Moves.stopped (h : Moves p a q) (hp : p.stopped = true) :
    q.stopped = true ∧ q.accepted = p.accepted := by
  -- only a submission accepts, and it asks the flag first
  cases h with
  | accept hopen =>
    rw [hp] at hopen
    cases hopen
  | stop => exact ⟨rfl, rfl⟩
  | refuse => exact ⟨hp, rfl⟩
  | callNone => exact ⟨hp, rfl⟩
  | callOne => exact ⟨hp, rfl⟩
  | callAll => exact ⟨hp, rfl⟩
  | take => exact ⟨hp, rfl⟩
  | leave => exact ⟨hp, rfl⟩
  | sleep => exact ⟨hp, rfl⟩
  | finish => exact ⟨hp, rfl⟩
  | stir => exact ⟨hp, rfl⟩
  | join => exact ⟨hp, rfl⟩

/-- Nor does any run change that. -/
theorem Run.stopped (h : Run p q) (hp : p.stopped = true) :
    q.stopped = true ∧ q.accepted = p.accepted := by
  induction h with
  | refl => exact ⟨hp, rfl⟩
  | tail _ hstep ih =>
    obtain ⟨a, hstep⟩ := hstep
    obtain ⟨hstopped, haccepted⟩ := (moves_of_step hstep).stopped ih.1
    exact ⟨hstopped, haccepted.trans ih.2⟩

/-- A run leads on from a pool that a run has come to. -/
theorem Run.reachable (h : Run p q) (hp : Reachable n p) : Reachable n q := by
  induction h with
  | refl => exact hp
  | tail _ hstep ih =>
    obtain ⟨a, hstep⟩ := hstep
    exact .step a ih hstep

/-! ## Exactly once -/

/-- A task is in one place only: it waits, or one worker is busy with it, or it has ended. -/
inductive InOnePlace (p : Pool α) (t : α) : Prop where
  | waits (hqueue : t ∈ p.queue) (hrunning : t ∉ p.running) (hfinished : t ∉ p.finished)
  | runs {i : Nat} (hbusy : p.workers[i]? = some (Worker.busy t))
      (honly : ∀ j, p.workers[j]? = some (Worker.busy t) → j = i) (hqueue : t ∉ p.queue)
      (hfinished : t ∉ p.finished)
  | ended (hfinished : t ∈ p.finished) (hqueue : t ∉ p.queue) (hrunning : t ∉ p.running)

/-- What is true of the tasks of a pool of `n` workers at every moment. -/
structure ExactlyOnce (n : Nat) (p : Pool α) : Prop where
  /-- The accepted tasks are those in the three places, each as often as it was accepted. -/
  places : p.accepted.Perm (p.queue ++ p.running ++ p.finished)
  counted : p.accepted.length = p.queue.length + p.running.length + p.finished.length
  /-- Where no task is accepted twice, each is in one place. -/
  onePlace : p.accepted.Nodup → ∀ t ∈ p.accepted, InOnePlace p t
  /-- Tasks are taken in the order in which they were accepted. -/
  order : p.taken ++ p.queue = p.accepted
  bounded : p.running.length ≤ n
  /-- After the stop a submission fails, and nothing but what was accepted before is ever taken. -/
  closed : p.stopped = true → ∀ t, p.submit t = .error .shutDown ∧
    p.step (.submit t) = some { p with refused := p.refused ++ [t] } ∧
    ∀ q, Run p q → q.accepted = p.accepted ∧ q.taken <+: p.accepted
  /-- However a task ends, it has ended and its worker looks for the next one. -/
  ended : ∀ i ending q, p.step (.finish i ending) = some q → ∃ t,
    p.workers[i]? = some (.busy t) ∧ q.finished = p.finished ++ [t] ∧
    q.workers = p.workers.set i .awake
  /-- Until the workers are waited for all `n` are there, and one goes only from a stopped pool
  with nothing in its queue. -/
  staff : (p.workers.length = n ∨ p.workers = []) ∧
    ∀ w ∈ p.workers, w.isGone = true → p.stopped = true ∧ p.queue = []
  /-- Once the workers were waited for, every accepted task has run, and run once. -/
  joined : p.workers = [] → p.stopped = true ∧ p.queue = [] ∧ p.running = [] ∧
    p.taken = p.accepted ∧ p.accepted.Perm p.finished

/-- If the tasks at hand are distinct, two workers are not busy with the same one. -/
theorem eq_of_busy {workers : List (Worker α)} (h : (workers.filterMap Worker.task?).Nodup)
    {i j : Nat} {t : α} (hi : workers[i]? = some (.busy t)) (hj : workers[j]? = some (.busy t)) :
    i = j := by
  have hmem {ws : List (Worker α)} {k : Nat} (hk : ws[k]? = some (.busy t)) :
      t ∈ ws.filterMap Worker.task? :=
    List.mem_filterMap.mpr ⟨_, List.mem_of_getElem? hk, rfl⟩
  -- by induction on the workers: either both are later ones, or one is the first
  induction workers generalizing i j with
  | nil => simp at hi
  | cons w workers ih =>
    have htail : (workers.filterMap Worker.task?).Nodup :=
      h.sublist ((List.sublist_cons_self w workers).filterMap _)
    -- a first worker busy with `t` would have it twice in the list
    have hfirst {k : Nat} (hw : w = .busy t) (hk : workers[k]? = some (.busy t)) : False := by
      subst hw
      exact (List.nodup_cons.mp h).1 (hmem hk)
    cases i with
    | zero =>
      cases j with
      | zero => rfl
      | succ j => exact (hfirst (by simpa using hi) (by simpa using hj)).elim
    | succ i =>
      cases j with
      | zero => exact (hfirst (by simpa using hj) (by simpa using hi)).elim
      | succ j => exact congrArg (· + 1) (ih htail (by simpa using hi) (by simpa using hj))

/-- **The accepted tasks are those in the three places**, counted as often as they were accepted.
-/
theorem Books.perm (h : Books n p) : p.accepted ~ p.queue ++ p.running ++ p.finished := by
  calc p.accepted
    _ = p.taken ++ p.queue := h.order.symm
    _ ~ p.queue ++ p.taken := List.perm_append_comm
    _ ~ p.queue ++ (p.finished ++ p.running) := h.places.append_left _
    _ ~ p.queue ++ (p.running ++ p.finished) := List.perm_append_comm.append_left _
    _ = p.queue ++ p.running ++ p.finished := (List.append_assoc ..).symm

/-- If no task was accepted twice, each is in one of the places, and there once. -/
theorem Books.inOnePlace (h : Books n p) (hdistinct : p.accepted.Nodup) {t : α}
    (ht : t ∈ p.accepted) : InOnePlace p t := by
  have hnodup := h.perm.nodup_iff.mp hdistinct
  obtain ⟨hwaiting, hfinished, hapart⟩ := List.nodup_append.mp hnodup
  obtain ⟨hqueue, hrunning, hapart'⟩ := List.nodup_append.mp hwaiting
  -- without repetition the three lists have no task in common
  have hmem := h.perm.mem_iff.mp ht
  simp only [List.mem_append] at hmem hapart
  rcases hmem with (hq | hr) | hf
  · exact .waits hq (fun hr => hapart' t hq t hr rfl) fun hf => hapart t (.inl hq) t hf rfl
  · obtain ⟨w, hw, hbusy⟩ := List.mem_filterMap.mp hr
    have hw' : w = .busy t := by
      cases w with
      | busy u => exact congrArg _ (Option.some.inj hbusy)
      | awake => cases hbusy
      | asleep => cases hbusy
      | gone => cases hbusy
    subst hw'
    obtain ⟨i, hi⟩ := List.mem_iff_getElem?.mp hw
    exact .runs hi (fun j hj => eq_of_busy hrunning hj hi) (fun hq => hapart' t hq t hr rfl)
      fun hf => hapart t (.inr hr) t hf rfl
  · exact .ended hf (fun hq => hapart t (.inl hq) t hf rfl) fun hr => hapart t (.inr hr) t hf rfl

/-- **Every accepted task runs exactly once**, in the order in which the tasks were accepted and
on at most `n` workers at once. -/
theorem exactlyOnce_of_reachable (h : Reachable n p) : ExactlyOnce n p := by
  have hbooks := books_of_reachable h
  constructor
  case places => exact hbooks.perm
  case counted => simpa [Nat.add_assoc] using hbooks.perm.length_eq
  case onePlace => exact fun hdistinct t ht => hbooks.inOnePlace hdistinct ht
  case order => exact hbooks.order
  case bounded =>
    rcases hbooks.staff with hlength | ⟨hnone, -⟩
    · rw [← hlength]
      exact List.length_filterMap_le ..
    · rw [running, hnone]
      exact Nat.zero_le n
  -- after the stop nothing is accepted, so what runs later is what waits now
  case closed =>
    intro hstopped t
    have hsubmit : p.submit t = .error .shutDown := by simp [submit, hstopped]
    refine ⟨hsubmit, by simp [step, hsubmit], fun q hq => ?_⟩
    have haccepted := (hq.stopped hstopped).2
    refine ⟨haccepted, ?_⟩
    rw [← haccepted, ← (books_of_reachable (hq.reachable h)).order]
    exact List.prefix_append ..
  case ended =>
    intro i ending q hq
    cases moves_of_step hq with
    | finish hbusy => exact ⟨_, hbusy, rfl, rfl⟩
  case staff => exact ⟨hbooks.staff.imp id (·.1), hbooks.leaves⟩
  -- workers leave only when nothing waits, so with all of them gone every task is over
  case joined =>
    intro hnone
    obtain ⟨-, hstopped, hqueue⟩ := hbooks.staff.resolve_left fun hlength => by
      have := hbooks.hired
      rw [← hlength, hnone] at this
      cases this
    have hrunning : p.running = [] := by rw [running, hnone]; rfl
    have horder := hbooks.order
    have hperm := hbooks.perm
    rw [hqueue, List.append_nil] at horder
    rw [hqueue, hrunning] at hperm
    exact ⟨hstopped, hqueue, hrunning, horder, hperm⟩

/-- A trace of actions leads from a reachable pool to a reachable one. -/
theorem Reachable.trace {actions : List (Action α)} (h : Reachable n p)
    (htrace : actions.foldlM Pool.step p = some q) : Reachable n q := by
  induction actions generalizing p with
  | nil =>
    cases htrace
    exact h
  | cons a actions ih =>
    rw [List.foldlM_cons] at htrace
    obtain ⟨p', hstep, hrest⟩ := Option.bind_eq_some_iff.mp htrace
    exact ih (.step a h hstep) hrest

/-- Three tasks on two workers. The first one panics, the last one waits when the pool is stopped,
and a fourth one comes too late. -/
def stormyTrace : List (Action Nat) :=
  [.look 0, .submit 1, .call (some 0), .look 0, .submit 2, .submit 3, .look 1, .finish 0 .panicked,
    .stop, .submit 4, .look 0, .finish 1 .returned, .callAll, .look 1, .finish 0 .returned, .look 0,
    .join]

/-- After this trace the three tasks have ended, the first one by a panic, and the fourth one was
refused. -/
theorem exactlyOnce_stormy :
    ∃ p : Pool Nat, stormyTrace.foldlM Pool.step { workers := [.awake, .awake] } = some p ∧
      p.workers = [] ∧ p.panics = [0] ∧ p.refused = [4] ∧ Reachable 2 p ∧ ExactlyOnce 2 p := by
  obtain ⟨p, htrace, hworkers, hpanics, hrefused⟩ :
      ∃ p : Pool Nat, stormyTrace.foldlM Pool.step { workers := [.awake, .awake] } = some p ∧
        p.workers = [] ∧ p.panics = [0] ∧ p.refused = [4] :=
    ⟨_, rfl, rfl, rfl, rfl⟩
  have hreachable : Reachable 2 p := (Reachable.create rfl).trace htrace
  exact ⟨p, htrace, hworkers, hpanics, hrefused, hreachable, exactlyOnce_of_reachable hreachable⟩

end Pool

end Courier
