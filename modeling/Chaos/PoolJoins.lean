import Chaos.DBPoolSteps
import Chaos.PoolDestroy

/-!
# The flags when a pool is destroyed

`~ThreadPool` joins its workers exactly when `m_running` is still set, and `~DBPool` stops its thread pool exactly
when `m_started` is still set, on which the tasks of the workers loop. Without a `Stop` before it the first joins
workers that do not leave; the second does so after a `Stop`, and without one if a worker is in a `Work`.
-/
namespace Chaos

open GuardedRuns

namespace ThreadPool
variable {s t : ThreadPool} {op : ThreadPoolOp}

/-- A worker that runs a task is in the loop. -/
theorem Over.not_running (h : Over s) (i task : ℕ) : s.workers[i]? ≠ some (.running task) :=
  fun hi => nomatch h.workers _ (List.mem_of_getElem? hi)

/-- What the threads of a pool do by themselves is neither `Run` nor a call of `Stop`. -/
theorem own_same (hown : s.own op = true) (ht : ThreadPoolPass s op t) :
    t.ran = s.ran ∧ t.stopCalled = s.stopCalled := by
  cases op with
  | work i =>
    have hframe := frame_of_work ht
    exact ⟨hframe.ran, hframe.stopCalled⟩
  | stepPush k j =>
    have hframe := frame_of_stepPush ht
    exact ⟨hframe.ran, hframe.stopCalled⟩
  | startThread | stepStop c | destroyJoin => cases ht <;> exact ⟨rfl, rfl⟩
  | run | pushTask null | stop | destroy => cases hown

end ThreadPool

/-- The thread is in the destructor. -/
def DBCallerPc.destroys : DBCallerPc → Bool
  | .stopping _ | .deleting => true
  | .idle | .running | .pushing _ _ | .awaiting _ _ _ => false

namespace DBPool

/-- The worker is inside `Work`. -/
def InWork (s : DBPool) (i : ℕ) : Prop := s.busy i = true ∧ s.works[i]? ≠ some .ended

/-- The destructor waits for the workers, in `ThreadPool::Stop` or in `~ThreadPool`. -/
def DestructorJoins (s : DBPool) : Prop :=
  (∃ c j, s.caller = .stopping c ∧ s.threadPool.stops[c]? = some (.joining j)) ∨
    ∃ j, s.caller = .deleting ∧ s.threadPool.caller = .joining j

/-- Each flag on which a worker loops is false. -/
def FlagsDown (s : DBPool) : Prop := s.threadPool.FlagsDown ∧ ∀ i, s.InWork i → s.started = false

/-- What is known of a pool of connections: its thread pool runs from the first `Start` on, and is stopped by the
destructor only, when that finds `m_started` set. -/
structure Life (s : DBPool) : Prop where
  life : s.threadPool.Life
  called : s.startCalled = s.threadPool.ran
  started : s.started = true ∨ s.caller ≠ .idle ∧ s.caller ≠ .deleting → s.startCalled = true
  stopping : ∀ c, s.caller = .stopping c → s.started = true ∧ s.threadPool.stopCalled = true
  deleting : s.caller = .deleting → s.started = true → s.threadPool.Over
  quiet : s.threadPool.stopCalled = true → s.started = true ∧ s.caller.destroys = true

section Invariant
variable {s t : DBPool} {op : DBPoolOp} {p : ThreadPool}

/-- A step of the thread pool that is neither `Run` nor a call of `Stop`. -/
theorem Life.thread {o : ThreadPoolOp} {works : List DBWorkPc} (h : Life s) (hp : ThreadPoolPass s.threadPool o p)
    (hsame : p.ran = s.threadPool.ran ∧ p.stopCalled = s.threadPool.stopCalled) :
    Life { s with threadPool := p, works := works } where
  life := h.life.step hp
  called := h.called.trans hsame.1.symm
  started := h.started
  stopping c hc := ⟨(h.stopping c hc).1, hsame.2.trans (h.stopping c hc).2⟩
  deleting hdeleting hstarted := (h.deleting hdeleting hstarted).step hp
  quiet hstop := h.quiet (hsame.2.symm.trans hstop)

/-- Outside the destructor the thread pool is not stopped. -/
theorem Life.not_stopped (h : Life s) (hcaller : s.caller.destroys = false) : s.threadPool.stopCalled = false := by
  rw [Bool.eq_false_iff]
  intro hstop
  exact nomatch hcaller.symm.trans (h.quiet hstop).2

/-- A call goes on outside the destructor. -/
theorem Life.call {caller : DBCallerPc} {started : Bool} (h : Life s) (hhere : s.caller.destroys = false)
    (hthere : caller.destroys = false) (hcalled : started = true ∨ caller ≠ .idle → s.startCalled = true) :
    Life { s with caller := caller, started := started } where
  life := h.life
  called := h.called
  started hbusy := by
    rcases hbusy with hstarted | ⟨hidle, -⟩
    · exact hcalled (Or.inl hstarted)
    · exact hcalled (Or.inr hidle)
  stopping c hc := by
    obtain rfl : caller = .stopping c := hc
    cases hthere
  deleting hdeleting := by
    obtain rfl : caller = .deleting := hdeleting
    cases hthere
  quiet hstop := nomatch (h.not_stopped hhere).symm.trans hstop

/-- A call that is not over goes on. -/
theorem Life.goOn {caller : DBCallerPc} {started : Bool} (h : Life s) (hidle : s.caller ≠ .idle)
    (hhere : s.caller.destroys = false) (hthere : caller.destroys = false) :
    Life { s with caller := caller, started := started } := by
  refine h.call hhere hthere fun _ => h.started (Or.inr ⟨hidle, ?_⟩)
  intro hdeleting
  rw [hdeleting] at hhere
  cases hhere

/-- The first `Start` sets the thread pool running. -/
theorem Life.start (h : Life s) (hcaller : s.caller = .idle) (hp : ThreadPoolPass s.threadPool .run p) :
    Life { s with threadPool := p, caller := .running, startCalled := true } := by
  have hnot : s.threadPool.stopCalled = false := h.not_stopped (by rw [hcaller]; rfl)
  have hpool : p.ran = true ∧ p.stopCalled = false := by
    cases hp with
    | runs hidle hstops hrun => exact ⟨rfl, hnot⟩
    | ranBefore hidle hrun =>
      rcases h.life.phase with hfresh | hserving | ⟨c, hstopping⟩ | hover
      · exact nomatch hfresh.running.symm.trans hrun
      · exact ⟨hserving.ran, hnot⟩
      · exact ⟨hstopping.ran, hnot⟩
      · exact ⟨hover.ran, hnot⟩
  refine ⟨h.life.step hp, hpool.1.symm, fun _ => rfl, nofun, nofun, ?_⟩
  intro hstop
  exact nomatch hpool.2.symm.trans hstop

/-- When the call of `ThreadPool::Stop` in the destructor has returned every worker has left. -/
theorem Life.over {c : ℕ} (h : Life s) (hcaller : s.caller = .stopping c)
    (hstops : s.threadPool.stopsReturned = true) : s.threadPool.Over := by
  have hcalled := (h.stopping c hcaller).2
  have hreturned := ThreadPool.all_returned hstops
  rcases h.life.phase with hfresh | hserving | ⟨d, hstopping⟩ | hover
  · exact nomatch hfresh.stopCalled.symm.trans hcalled
  · obtain ⟨pc, hpc, hahead⟩ := hserving.stopCalled.mp hcalled
    rw [hreturned pc hpc] at hahead
    cases hahead
  · rcases hstopping.joined with hd | ⟨j, hd, -⟩ <;> exact nomatch hreturned _ (ThreadPool.stop_mem hd)
  · exact hover

/-- The step lemma. -/
theorem Life.step (h : Life s) (ht : DBPoolPass s op t) : Life t := by
  have hidle (hcaller : s.caller = .idle) : s.caller.destroys = false := by rw [hcaller]; rfl
  cases ht with
  | thread hown hp => exact h.thread hp (ThreadPool.own_same hown hp)
  | work hbusy hi hmove => exact ⟨h.life, h.called, h.started, h.stopping, h.deleting, h.quiet⟩
  | workEnd hbusy hi hp =>
    have hframe := ThreadPool.frame_of_work hp
    exact h.thread hp ⟨hframe.ran, hframe.stopCalled⟩
  | startAgain | nothingToRecover => exact h
  | query => exact ⟨h.life, h.called, h.started, h.stopping, h.deleting, h.quiet⟩
  | start hcaller hstarted hp => exact h.start hcaller hp
  | runEnd hcaller => exact h.goOn (by rw [hcaller]; exact DBCallerPc.noConfusion) (by rw [hcaller]; rfl) rfl
  | @pushTask starting left p hcaller hp =>
    have hframe := ThreadPool.frame_of_pushTask hp
    have hpushed : Life { s with threadPool := p, works := s.works } :=
      h.thread hp ⟨hframe.ran, hframe.stopCalled⟩
    exact hpushed.goOn (by rw [hcaller]; exact DBCallerPc.noConfusion) (by rw [hcaller]; rfl) rfl
  | pushEnd hcaller | callEnd hcaller =>
    exact h.goOn (by rw [hcaller]; exact DBCallerPc.noConfusion) (by rw [hcaller]; rfl) rfl
  | stop hcaller =>
    refine h.call (hidle hcaller) (hidle hcaller) ?_
    rintro (hstarted | hnot)
    · cases hstarted
    · exact absurd hcaller hnot
  | recover hcaller hstarted hlive => exact h.call (hidle hcaller) rfl fun _ => h.started (Or.inl hstarted)
  | destroyStarted hcaller hstarted hp =>
    have hran : s.threadPool.ran = true := h.called.symm.trans (h.started (Or.inl hstarted))
    cases hp with
    | stop hpool =>
      refine ⟨h.life.step (.stop hpool), h.called, fun _ => h.started (Or.inl hstarted), ?_, nofun, ?_⟩
      · intro c hc
        exact ⟨hstarted, hran⟩
      · intro hstop
        exact ⟨hstarted, rfl⟩
  | destroyStopped hcaller hstarted hp =>
    have hnot := h.not_stopped (hidle hcaller)
    cases hp with
    | destroy hpool hstops hpushes =>
      refine ⟨h.life.step (.destroy hpool hstops hpushes), h.called, ?_, nofun, ?_, ?_⟩
      · rintro (hset | ⟨-, hdeleting⟩)
        · exact h.started (Or.inl hset)
        · exact absurd rfl hdeleting
      · intro _ hset
        exact nomatch hstarted.symm.trans hset
      · intro hstop
        exact nomatch hnot.symm.trans hstop
  | delete hcaller hc hp =>
    obtain ⟨hstarted, hcalled⟩ := h.stopping _ hcaller
    cases hp with
    | destroy hpool hstops hpushes =>
      have hover := h.over hcaller hstops
      refine ⟨h.life.step (.destroy hpool hstops hpushes), h.called, fun _ => h.started (Or.inl hstarted), nofun, ?_, ?_⟩
      · intro _ _
        exact hover.step (.destroy hpool hstops hpushes)
      · intro _
        exact ⟨hstarted, rfl⟩

end Invariant

section Runs
variable {dbType maxConn : ℤ} {mysqlEnable redisEnable : Bool} {processors : ℕ} {ops : List DBPoolOp} {s : DBPool}

theorem life_new (hprocessors : 0 < processors) : Life (.new dbType maxConn mysqlEnable redisEnable processors) where
  life := ThreadPool.life_new hprocessors
  called := rfl
  started hbusy := by
    rcases hbusy with hstarted | ⟨hidle, -⟩
    · cases hstarted
    · exact absurd rfl hidle
  stopping := nofun
  deleting := nofun
  quiet := nofun

theorem life_of_exec (hprocessors : 0 < processors)
    (hs : exec DBPool.step (.new dbType maxConn mysqlEnable redisEnable processors) ops = some s) : Life s :=
  invariant_of_exec (fun _ _ _ h ht => h.step (dbPoolPass_of_step ht)) (life_new hprocessors) hs

theorem Life.not_inWork (hover : s.threadPool.Over) (i : ℕ) : ¬ s.InWork i := by
  rintro ⟨hbusy, -⟩
  rw [busy] at hbusy
  split at hbusy
  · rename_i task hi
    exact hover.not_running i task hi
  · cases hbusy

/-- While the destructor joins the workers, which flags are down. -/
theorem Life.flagsDown_iff (h : Life s) (hjoins : s.DestructorJoins) :
    s.FlagsDown ↔ s.startCalled = false ∨ s.started = true ∧ ∀ i, ¬ s.InWork i := by
  rcases hjoins with ⟨c, j, hcaller, hc⟩ | ⟨j, hcaller, hpool⟩
  · obtain ⟨hstarted, hcalled⟩ := h.stopping c hcaller
    have hstart : s.startCalled ≠ false := by
      rw [h.started (Or.inl hstarted)]
      exact Bool.noConfusion
    have hdown : s.threadPool.FlagsDown := by
      rcases h.life.phase with hfresh | hserving | ⟨d, hstopping⟩ | hover
      · exact nomatch hfresh.stopCalled.symm.trans hcalled
      · exact nomatch hserving.stops _ (ThreadPool.stop_mem hc)
      · exact fun _ _ _ => hstopping.running
      · exact hover.flagsDown
    constructor
    · intro hflags
      refine Or.inr ⟨hstarted, ?_⟩
      intro i hwork
      exact nomatch hstarted.symm.trans (hflags.2 i hwork)
    · rintro (hnever | ⟨-, hnone⟩)
      · exact absurd hnever hstart
      · exact ⟨hdown, fun i hwork => absurd hwork (hnone i)⟩
  · have hpoolDown := h.life.flagsDown_iff hpool
    cases hstarted : s.started with
    | true =>
      have hover := h.deleting hcaller hstarted
      exact iff_of_true ⟨hover.flagsDown, fun i hwork => absurd hwork (Life.not_inWork hover i)⟩
        (Or.inr ⟨rfl, Life.not_inWork hover⟩)
    | false =>
      have hnot : s.threadPool.stopCalled ≠ true := by
        intro hstop
        exact nomatch hstarted.symm.trans (h.quiet hstop).1
      rw [h.called, FlagsDown, hpoolDown, or_iff_left hnot]
      constructor
      · rintro ⟨hran, -⟩
        exact Or.inl hran
      · rintro (hran | ⟨hset, -⟩)
        · exact ⟨hran, fun _ _ => hstarted⟩
        · cases hset

end Runs

end DBPool

/-- When `~ThreadPool` joins the workers the flag they loop on is down if and only if `Run` was never called or `Stop`
was called after it. When `~DBPool` does, both flags are down if and only if `Start` was never called, or `m_started`
is set and no worker is inside `Work`. -/
theorem destructors_join_iff (processors : ℕ) (hprocessors : 0 < processors) :
    (∀ (nThreadNum : ℤ) (ops : List ThreadPoolOp) (s : ThreadPool) (j : ℕ),
      exec ThreadPool.step (.new nThreadNum processors) ops = some s → s.caller = .joining j →
        (s.FlagsDown ↔ s.ran = false ∨ s.stopCalled = true)) ∧
    (∀ (dbType maxConn : ℤ) (mysqlEnable redisEnable : Bool) (ops : List DBPoolOp) (s : DBPool),
      exec DBPool.step (.new dbType maxConn mysqlEnable redisEnable processors) ops = some s → s.DestructorJoins →
        (s.FlagsDown ↔ s.startCalled = false ∨ s.started = true ∧ ∀ i, ¬ s.InWork i)) := by
  constructor
  · intro nThreadNum ops s j hs hcaller
    exact (ThreadPool.life_of_exec hprocessors hs).flagsDown_iff hcaller
  · intro dbType maxConn mysqlEnable redisEnable ops s hs hjoins
    exact (DBPool.life_of_exec hprocessors hs).flagsDown_iff hjoins

/-- `Run` and `Stop`, then the destructor. -/
def stoppedSample : List ThreadPoolOp :=
  [.run, .startThread, .startThread, .work 0, .stop, .stepStop 0, .stepStop 0, .stepStop 0, .work 0, .work 0, .work 0,
    .work 0, .stepStop 0, .stepStop 0, .destroy]

/-- `Start` of a pool with one connection, whose worker has begun the `Work`. -/
def startedSample : List DBPoolOp :=
  [.start, .thread .startThread, .thread .startThread, .runEnd, .pushTask] ++
    List.replicate 4 (.thread (.stepPush 0 0)) ++ [.pushEnd, .callEnd] ++ List.replicate 5 (.thread (.work 0))

/-- The destructor up to its joins. -/
def destroyedSample : List DBPoolOp := .destroy :: List.replicate 3 (.thread (.stepStop 0))

theorem stoppedSample_isSome : (exec ThreadPool.step (.new 1 8) stoppedSample).isSome = true := by decide +kernel

def stoppedSampleEnd : ThreadPool := (exec ThreadPool.step (.new 1 8) stoppedSample).get stoppedSample_isSome

/-- The connect to a `mysql` comes back with false, and the `Work` has ended. -/
def refusedSample : List DBPoolOp := startedSample ++ [.work 0 true, .workEnd 0] ++ destroyedSample

theorem refusedSample_isSome : (exec DBPool.step (.new 1 1 true true 8) refusedSample).isSome = true := by
  decide +kernel

def refusedSampleEnd : DBPool := (exec DBPool.step (.new 1 1 true true 8) refusedSample).get refusedSample_isSome

theorem refusedSample_workers : refusedSampleEnd.threadPool.workers = [.outer] := by decide +kernel

theorem destructors_join_sample : stoppedSampleEnd.FlagsDown ∧ refusedSampleEnd.FlagsDown := by
  have h := destructors_join_iff 8 (by decide)
  constructor
  · exact (h.1 1 stoppedSample stoppedSampleEnd 0 (Option.some_get _).symm (by decide +kernel)).mpr
      (Or.inr (by decide +kernel))
  · refine (h.2 1 1 true true refusedSample refusedSampleEnd (Option.some_get _).symm ?_).mpr ?_
    · exact Or.inl ⟨0, 0, by decide +kernel, by decide +kernel⟩
    · refine Or.inr ⟨by decide +kernel, ?_⟩
      rintro i ⟨hbusy, -⟩
      rw [DBPool.busy, refusedSample_workers] at hbusy
      cases i <;> cases hbusy

theorem servingSample_isSome :
    (exec ThreadPool.step (.new 1 8) [.run, .startThread, .startThread, .destroy]).isSome = true := by decide +kernel

theorem joinedSample_isSome :
    (exec DBPool.step (.new 2 1 true true 8) (startedSample ++ destroyedSample)).isSome = true := by decide +kernel

/-- A pool that runs is destroyed, and a pool of connections that is started: the workers loop on. -/
theorem destructors_join_forever :
    (¬ ∀ (nThreadNum : ℤ) (processors : ℕ) (ops : List ThreadPoolOp) (s : ThreadPool) (j : ℕ), 0 < processors →
      exec ThreadPool.step (.new nThreadNum processors) ops = some s → s.caller = .joining j → s.FlagsDown) ∧
    (¬ ∀ (dbType maxConn : ℤ) (mysqlEnable redisEnable : Bool) (processors : ℕ) (ops : List DBPoolOp) (s : DBPool),
      0 < processors → exec DBPool.step (.new dbType maxConn mysqlEnable redisEnable processors) ops = some s →
        s.DestructorJoins → s.FlagsDown) := by
  constructor
  · intro h
    have hdown := h 1 8 _ _ 0 (by decide) (Option.some_get servingSample_isSome).symm (by decide +kernel)
    exact absurd (hdown .outer (by decide +kernel) rfl) (by decide +kernel)
  · intro h
    have hdown := h 2 1 true true 8 _ _ (by decide) (Option.some_get joinedSample_isSome).symm
      (Or.inl ⟨0, 0, by decide +kernel, by decide +kernel⟩)
    exact absurd (hdown.2 0 ⟨by decide +kernel, by decide +kernel⟩) (by decide +kernel)

end Chaos
