import Chaos.PoolDestroy

/-!
# The workers of a thread pool that runs

`Run` sets `m_running` and calls `Thread::Start` of every thread, which starts a thread only as long as its `m_started`
is not set. `Stop` clears `m_running` and joins the threads, but nothing clears `m_started`: the workers of the first
`Run` are inside `PoolWorkFunc` until `Stop`, and a `Run` after that has none.
-/
namespace Chaos

open GuardedRuns Threads

/-- `m_started` of the thread. -/
def WorkerPc.started (pc : WorkerPc) : Bool := pc ≠ .unstarted

/-- A pool with a note: `up` says that a call of `Run` has returned 0 and `Stop` was not called since. -/
structure NotedPool where
  pool : ThreadPool
  up : Bool
  deriving DecidableEq, Repr

namespace NotedPool

def new (nThreadNum : ℤ) (processors : ℕ) : NotedPool := ⟨.new nThreadNum processors, false⟩

/-- The note after a step to `t`. `Run` returns 0 at the end of its loop over the threads; a call that finds
`m_running` set returns -1 at once and changes nothing. -/
def note (up : Bool) (t : ThreadPool) : ThreadPoolOp → Bool
  | .startThread => up || t.caller = .idle
  | .stop => false
  | _ => up

def step (s : NotedPool) (op : ThreadPoolOp) : Option NotedPool := (s.pool.step op).map fun t => ⟨t, note s.up t op⟩

/-- A call of `Run` that sets `m_running` finds no thread with `m_started` set. -/
def runOk (s : NotedPool) : ThreadPoolOp → Prop
  | .run => s.pool.running = true ∨ ∀ pc ∈ s.pool.workers, pc.started = false
  | _ => True

instance (s : NotedPool) : (op : ThreadPoolOp) → Decidable (runOk s op)
  | .run => inferInstanceAs (Decidable (_ ∨ _))
  | .startThread | .work _ | .pushTask _ | .stepPush _ _ | .stop | .stepStop _ | .destroy | .destroyJoin =>
    inferInstanceAs (Decidable True)

end NotedPool

namespace ThreadPool

/-- All `m` workers are inside `PoolWorkFunc`. There is one at least, and with a task in the queue one of them is
awake or a signal is going to be sent. -/
structure Staffed (s : ThreadPool) (m : ℕ) : Prop where
  count : s.workers.length = m
  inside : ∀ pc ∈ s.workers, pc.loops = true
  manned : s.workers ≠ []
  served : s.queue ≠ [] → (∃ pc ∈ s.workers, pc ≠ .blocked) ∨ ∃ k : ℕ, s.pushes[k]? = some .signalling

section Phases
variable {s t : ThreadPool} {op : ThreadPoolOp}

/-- A pool that serves goes on with it as long as no call of `Stop` is there. -/
theorem Serving.goOn (h : Serving s) (happart : CallsApart s) (hstops : ∀ pc ∈ s.stops, pc = .returned)
    (hop : op ≠ .stop) (ht : ThreadPoolPass s op t) : Serving t ∧ ∀ pc ∈ t.stops, pc = .returned := by
  have hnone {c : ℕ} {pc : StopPc} (hc : s.stops[c]? = some pc) : pc = .returned := hstops pc (stop_mem hc)
  have hstops' : ∀ pc ∈ t.stops, pc = .returned := by
    cases ht with
    | stop => exact absurd rfl hop
    | lockStop hc | clear hc | late hc | broadcast hc | join hc | joined hc => exact nomatch hnone hc
    | runs | ranBefore | started | startedBefore | runEnd | move | lock | wait | back | take | finish | pushTask
    | refused | passed | lockPush | emplace | signal | lost | destroy | destroyJoin | destroyed => exact hstops
  refine ⟨?_, hstops'⟩
  rcases h.step happart ht with hserving | ⟨c, hstopping⟩
  · exact hserving
  · rcases hstopping.joined with hc | ⟨i, hc, -⟩ <;> exact nomatch hstops' _ (stop_mem hc)

/-- A pool that is over has a worker that has left. -/
theorem Life.left_mem (h : Life s) (hover : Over s) : WorkerPc.left ∈ s.workers := by
  obtain ⟨pc, hpc⟩ := List.exists_mem_of_ne_nil _ h.kept.awake.manned
  exact hover.workers pc hpc ▸ hpc

/-- The loop of `Run` over the threads begins when `Run` sets `m_running`. -/
theorem starting_before {j : ℕ} (ht : ThreadPoolPass s op t) (hj : t.caller = .starting j) :
    op = .run ∧ s.running = false ∨ ∃ i, s.caller = .starting i := by
  cases ht with
  | runs _ _ hrun => exact Or.inl ⟨rfl, hrun⟩
  | started hcaller | startedBefore hcaller => exact Or.inr ⟨_, hcaller⟩
  | runEnd | destroy | destroyJoin | destroyed => cases hj
  | ranBefore | move | lock | wait | back | take | finish | pushTask | refused | passed | lockPush | emplace | signal
  | lost | stop | lockStop | clear | late | broadcast | join | joined => exact Or.inr ⟨j, hj⟩

/-- It goes on until it has gone over all of them. -/
theorem starting_after {j : ℕ} (ht : ThreadPoolPass s op t) (hj : s.caller = .starting j) :
    op = .startThread ∧ t.caller = .idle ∨ ∃ i, t.caller = .starting i := by
  cases ht with
  | runEnd => exact Or.inl ⟨rfl, rfl⟩
  | started | startedBefore => exact Or.inr ⟨_, rfl⟩
  | runs hcaller | ranBefore hcaller | stop hcaller | destroy hcaller | destroyJoin hcaller | destroyed hcaller =>
    exact nomatch hcaller.symm.trans hj
  | move | lock | wait | back | take | finish | pushTask | refused | passed | lockPush | emplace | signal | lost
  | lockStop | clear | late | broadcast | join | joined => exact Or.inr ⟨j, hj⟩

/-- Nobody takes a task of a pool that is over: what `PushTask` queues stays in the queue. -/
theorem Over.queue_step (h : Over s) (ht : ThreadPoolPass s op t) : t.taken = s.taken ∧ s.queue <+: t.queue := by
  have hleft {i : ℕ} {pc : WorkerPc} (hi : s.workers[i]? = some pc) : pc = .left :=
    h.workers pc (List.mem_of_getElem? hi)
  cases ht with
  | take hi => exact nomatch hleft hi
  | emplace => exact ⟨rfl, List.prefix_append _ _⟩
  | runs | ranBefore | started | startedBefore | runEnd | move | lock | wait | back | finish | pushTask | refused
  | passed | lockPush | signal | lost | stop | lockStop | clear | late | broadcast | join | joined | destroy
  | destroyJoin | destroyed => exact ⟨rfl, List.prefix_rfl⟩

theorem Over.queue_exec {ops : List ThreadPoolOp} (h : Over s) (ht : exec ThreadPool.step s ops = some t) :
    t.taken = s.taken ∧ s.queue <+: t.queue := by
  induction ops generalizing s with
  | nil =>
    cases ht
    exact ⟨rfl, List.prefix_rfl⟩
  | cons op ops ih =>
    obtain ⟨r, hr, ht⟩ := exec_cons_eq_some.mp ht
    have hpass := threadPoolPass_of_step hr
    obtain ⟨htaken, hqueue⟩ := h.queue_step hpass
    obtain ⟨htaken', hqueue'⟩ := ih (h.step hpass) ht
    exact ⟨htaken'.trans htaken, hqueue.trans hqueue'⟩

end Phases

end ThreadPool

namespace NotedPool

section Notes
variable {s t : NotedPool} {op : ThreadPoolOp} {m : ℕ}

/-- A call of `Run` that succeeds has begun, and `Stop` was not called since. -/
def Called (s : NotedPool) : Prop := s.up = true ∨ ∃ j, s.pool.caller = .starting j

/-- What is known as long as each such call finds threads that were not started. -/
structure Attended (m : ℕ) (s : NotedPool) : Prop where
  life : s.pool.Life
  count : s.pool.workers.length = m
  called : s.Called → s.pool.Serving ∧ ∀ pc ∈ s.pool.stops, pc = .returned
  apart : s.up = true → ∀ j, s.pool.caller ≠ .starting j

/-- The loop of a call of `Run` goes over threads that have all ended. -/
structure Doomed (s : NotedPool) : Prop where
  life : s.pool.Life
  ended : s.pool.Over
  caller : ∃ j, s.pool.caller = .starting j

/-- The property of a state: after a `Run` that has returned 0 and before the next `Stop` the pool has its workers. -/
def HasWorkers (m : ℕ) (s : NotedPool) : Prop := s.up = true → s.pool.Staffed m

theorem pass_of_step (ht : s.step op = some t) :
    ∃ p, ThreadPoolPass s.pool op p ∧ t = ⟨p, note s.up p op⟩ := by
  obtain ⟨p, hp, rfl⟩ := Option.map_eq_some_iff.mp ht
  exact ⟨p, threadPoolPass_of_step hp, rfl⟩

/-- The note changes nothing of the pool. -/
theorem exec_pool_iff {p : ThreadPool} {ops : List ThreadPoolOp} :
    exec ThreadPool.step s.pool ops = some p ↔ ∃ up, exec NotedPool.step s ops = some ⟨p, up⟩ := by
  induction ops generalizing s with
  | nil =>
    constructor
    · intro hp
      cases hp
      exact ⟨s.up, rfl⟩
    · rintro ⟨up, hup⟩
      cases hup
      rfl
  | cons op ops ih =>
    constructor
    · intro hp
      obtain ⟨r, hr, hp⟩ := exec_cons_eq_some.mp hp
      obtain ⟨up, hup⟩ := (@ih ⟨r, note s.up r op⟩).mp hp
      exact ⟨up, exec_cons_eq_some.mpr ⟨_, Option.map_eq_some_iff.mpr ⟨r, hr, rfl⟩, hup⟩⟩
    · rintro ⟨up, hup⟩
      obtain ⟨t, ht, hup⟩ := exec_cons_eq_some.mp hup
      obtain ⟨r, hr, rfl⟩ := Option.map_eq_some_iff.mp ht
      exact exec_cons_eq_some.mpr ⟨r, hr, ih.mpr ⟨up, hup⟩⟩

/-- Only `Run` can be the step with which such a call begins. -/
theorem called_before {p : ThreadPool} (hp : ThreadPoolPass s.pool op p) (hcalled : Called ⟨p, note s.up p op⟩) :
    op = .run ∨ op ≠ .stop ∧ s.Called := by
  rcases hcalled with hup | ⟨j, hj⟩
  · cases op with
    | run => exact Or.inl rfl
    | startThread =>
      refine Or.inr ⟨ThreadPoolOp.noConfusion, Or.inr ?_⟩
      cases hp with
      | started hcaller | startedBefore hcaller | runEnd hcaller => exact ⟨_, hcaller⟩
    | stop => cases hup
    | work | pushTask | stepPush | stepStop | destroy | destroyJoin =>
      exact Or.inr ⟨ThreadPoolOp.noConfusion, Or.inl hup⟩
  · rcases ThreadPool.starting_before hp hj with ⟨rfl, -⟩ | hstarting
    · exact Or.inl rfl
    · refine Or.inr ⟨?_, Or.inr hstarting⟩
      rintro rfl
      cases hp with
      | stop hcaller => exact nomatch hcaller.symm.trans hj

/-- While `Run` goes over the threads it has not returned. -/
theorem up_before {p : ThreadPool} {j : ℕ} (hup : note s.up p op = true) (hj : p.caller = .starting j) :
    s.up = true := by
  cases op with
  | startThread => simpa [note, hj] using hup
  | stop => cases hup
  | run | work | pushTask | stepPush | stepStop | destroy | destroyJoin => exact hup

/-- The call finds the threads as the constructor has made them. -/
theorem Attended.run (h : Attended m s) (hok : runOk s .run) (hrun : s.pool.running = false)
    (hstops : s.pool.stopsReturned = true) : s.pool.Fresh := by
  rcases h.life.phase.fresh_or_over hrun hstops with hfresh | hover
  · exact hfresh
  · rcases hok with hrunning | hunstarted
    · exact nomatch hrun.symm.trans hrunning
    · exact nomatch hunstarted .left (h.life.left_mem hover)

/-- The step lemma. -/
theorem Attended.step (h : Attended m s) (hok : runOk s op) (ht : s.step op = some t) : Attended m t := by
  obtain ⟨p, hp, rfl⟩ := pass_of_step ht
  constructor
  · exact h.life.step hp
  · exact (ThreadPool.length_of_pass hp).trans h.count
  · intro hcalled
    rcases called_before hp hcalled with rfl | ⟨hop, hbefore⟩
    · cases hp with
      | runs hcaller hstops hrun =>
        have hfresh := h.run hok hrun hstops
        rcases hfresh.step (.runs hcaller hstops hrun) with hfresh' | hserving
        · exact nomatch hfresh'.ran
        · exact ⟨hserving, ThreadPool.all_returned hstops⟩
      | ranBefore => exact h.called hcalled
    · obtain ⟨hserving, hstops⟩ := h.called hbefore
      exact hserving.goOn h.life.apart hstops hop hp
  · intro hup j hj
    have hbefore := up_before hup hj
    rcases ThreadPool.starting_before hp hj with ⟨-, hrun⟩ | ⟨i, hi⟩
    · exact nomatch hrun.symm.trans (h.called (Or.inl hbefore)).1.running
    · exact h.apart hbefore i hi

theorem attended_new {nThreadNum : ℤ} {processors : ℕ} (hprocessors : 0 < processors) :
    Attended (ThreadPool.threadNum nThreadNum processors) (.new nThreadNum processors) where
  life := ThreadPool.life_new hprocessors
  count := List.length_replicate
  called := by
    rintro (hup | ⟨j, hj⟩)
    · cases hup
    · cases hj
  apart hup := by cases hup

theorem Attended.hasWorkers (h : Attended m s) : s.HasWorkers m := by
  intro hup
  have hserving := (h.called (Or.inl hup)).1
  exact ⟨h.count, hserving.inside (h.apart hup), h.life.kept.awake.manned, h.life.kept.awake.served⟩

/-- A `Run` that finds a thread with `m_started` set has ended threads only. -/
theorem Attended.miss (h : Attended m s) (hnot : ¬ runOk s op) (ht : s.step op = some t) : Doomed t := by
  obtain ⟨p, hp, rfl⟩ := pass_of_step ht
  have hlife := h.life.step hp
  cases op with
  | run =>
    cases hp with
    | ranBefore _ hrun => exact absurd (Or.inl hrun) hnot
    | runs hcaller hstops hrun =>
      rcases h.life.phase.fresh_or_over hrun hstops with hfresh | hover
      · refine absurd (Or.inr ?_) hnot
        intro pc hpc
        rw [hfresh.workers pc hpc]
        rfl
      · exact ⟨hlife, hover.step (.runs hcaller hstops hrun), 0, rfl⟩
  | startThread | work | pushTask | stepPush | stop | stepStop | destroy | destroyJoin => exact absurd trivial hnot

/-- From there on no task is taken, and what is queued stays in the queue. -/
theorem Attended.miss_takes_nothing {u : NotedPool} {ops : List ThreadPoolOp} (h : Attended m s) (hnot : ¬ runOk s op)
    (ht : s.step op = some t) (hu : exec NotedPool.step t ops = some u) :
    u.pool.taken = t.pool.taken ∧ t.pool.queue <+: u.pool.queue :=
  (h.miss hnot ht).ended.queue_exec (exec_pool_iff.mpr ⟨u.up, hu⟩)

/-- When such a `Run` returns no worker is inside. -/
theorem Doomed.step (h : Doomed s) (ht : s.step op = some t) (hgood : t.HasWorkers m) : Doomed t := by
  obtain ⟨p, hp, rfl⟩ := pass_of_step ht
  have hlife := h.life.step hp
  have hover := h.ended.step hp
  obtain ⟨j, hj⟩ := h.caller
  rcases ThreadPool.starting_after hp hj with ⟨rfl, hidle⟩ | hstarting
  · have hup : note s.up p .startThread = true := by simp [note, hidle]
    exact nomatch (hgood hup).inside .left (hlife.left_mem hover)
  · exact ⟨hlife, hover, hstarting⟩

end Notes

section Runs

/-- A run in which each `Run` that sets `m_running` finds no thread with `m_started` set has its workers in every
state after a `Run` that returned 0 and before the next `Stop`; and where no call of `Run` is going on at its end no
other run has. -/
theorem running_pool_has_workers (nThreadNum : ℤ) (processors : ℕ) (ops : List ThreadPoolOp) (t : NotedPool)
    (hprocessors : 0 < processors) (ht : exec NotedPool.step (.new nThreadNum processors) ops = some t) :
    (Guarded NotedPool.step runOk (.new nThreadNum processors) ops →
      Always NotedPool.step (HasWorkers (ThreadPool.threadNum nThreadNum processors)) (.new nThreadNum processors) ops) ∧
    ((∀ j, t.pool.caller ≠ .starting j) →
      Always NotedPool.step (HasWorkers (ThreadPool.threadNum nThreadNum processors)) (.new nThreadNum processors) ops →
      Guarded NotedPool.step runOk (.new nThreadNum processors) ops) := by
  have hnew : Attended _ (NotedPool.new nThreadNum processors) := attended_new hprocessors
  constructor
  · exact always_of_guarded (fun _ h => h.hasWorkers) (fun _ _ _ h => h.step) hnew
  · intro hend
    refine guarded_of_always (fun _ _ _ h => h.step) (fun _ _ _ h => h.miss) (fun _ _ _ h => h.step) hnew ht ?_
    rintro ⟨-, -, j, hj⟩
    exact hend j hj

end Runs

/-- A `Stop` before the first `Run`, two calls of `Run` of which the second returns -1, and a `Stop` up to its end. -/
def stoppedOnce : List ThreadPoolOp :=
  [.stop, .stepStop 0, .stepStop 0, .run, .startThread, .startThread, .run, .work 0, .stop, .stepStop 1, .stepStop 1,
    .stepStop 1, .work 0, .work 0, .work 0, .work 0, .stepStop 1, .stepStop 1]

/-- A `Run` and a task after that. -/
def runAgain : List ThreadPoolOp :=
  stoppedOnce ++ [.run, .startThread, .startThread, .pushTask false, .stepPush 0 0, .stepPush 0 0, .stepPush 0 0,
    .stepPush 0 0]

theorem stoppedOnce_isSome : (exec NotedPool.step (.new 1 8) stoppedOnce).isSome = true := by decide +kernel

theorem runAgain_isSome : (exec NotedPool.step (.new 1 8) runAgain).isSome = true := by decide +kernel

def stoppedOnceEnd : NotedPool := (exec NotedPool.step (.new 1 8) stoppedOnce).get stoppedOnce_isSome

def runAgainEnd : NotedPool := (exec NotedPool.step (.new 1 8) runAgain).get runAgain_isSome

theorem runAgainEnd_idle : runAgainEnd.pool.caller = .idle := by decide +kernel

theorem running_pool_has_workers_sample :
    Always NotedPool.step (HasWorkers 1) (.new 1 8) stoppedOnce ∧
    ¬ Always NotedPool.step (HasWorkers 1) (.new 1 8) runAgain := by
  constructor
  · exact (running_pool_has_workers 1 8 stoppedOnce stoppedOnceEnd (by decide) (Option.some_get _).symm).1
      (by decide +kernel)
  · intro h
    have hend : ∀ j, runAgainEnd.pool.caller ≠ .starting j := by
      intro j hj
      exact nomatch runAgainEnd_idle.symm.trans hj
    have hguarded := (running_pool_has_workers 1 8 runAgain runAgainEnd (by decide) (Option.some_get _).symm).2 hend h
    exact absurd hguarded (by decide +kernel)

/-- After `Run`, `Stop` and `Run` the one worker has left `PoolWorkFunc`. -/
theorem run_again_has_no_workers :
    ¬ ∀ (nThreadNum : ℤ) (processors : ℕ) (ops : List ThreadPoolOp) (t : NotedPool), 0 < processors →
      exec NotedPool.step (.new nThreadNum processors) ops = some t →
      t.HasWorkers (ThreadPool.threadNum nThreadNum processors) := by
  intro h
  have hstaffed := h 1 8 runAgain runAgainEnd (by decide) (Option.some_get _).symm (by decide +kernel)
  exact absurd (hstaffed.inside .left (by decide +kernel)) (by decide)

end NotedPool

end Chaos
