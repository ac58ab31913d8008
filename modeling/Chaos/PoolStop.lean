import Chaos.PoolSteps

/-!
# The stop of a pool

`Stop` tells the loops of the centres that are in `m_centres`, and `Exit` has no effect on a centre whose loop has
not begun. A `Stop` that comes when each task of the pool has come to its loop, or comes there before its centre
is visited, leaves no loop running.
-/
namespace Chaos.PoolStop

open CentrePool GuardedRuns

/-! ## A stopped pool -/

/-- The loop of the centre is still to begin. -/
def willRun (w : Work) : Bool := w.isInit && match w.pc with
  | .pushing | .counting | .starting | .reporting | .entering => true
  | .looping | .ended | .returned => false

/-- No loop runs or will, and there is no task to come with one. -/
structure Stopped (s : CentrePool) : Prop where
  loops : ∀ w ∈ s.works, w.running = false ∧ willRun w = false
  queued : s.queued = 0
  starts : ∀ call ∈ s.starts, call.pc.tasksLeft = 0

/-- `Stop` begins when all tasks of the pool have pushed their centres, and visits a centre when its loop has
begun, or never will; the pool is not started meanwhile. -/
def stopOk (_ : ℤ) (s : CentrePool) : PoolOp → Prop
  | .stopBegin => s.queued = 0 ∧ (∀ call ∈ s.starts, call.pc.tasksLeft = 0) ∧
      ∀ w ∈ s.works, w.pc = .pushing → willRun w = false
  | .stopVisit => ∀ rest ∈ s.stopRest, ∀ c ∈ rest.head?, ∀ w ∈ s.works[c]?, willRun w = false
  | .start _ => s.started = true ∨ s.stopRest = none
  | .pushTask _ | .startEnd _ | .wake _ | .begin _ | .pushCentre _ | .count _ | .setStarted _ | .report _ _
  | .enterLoop _ | .leave _ | .fail _ | .exit _ | .return _ | .stopEnd | .registerCheck | .registerBegin
  | .registerVisit _ | .registerEnd | .registerCall _ | .poolStop => True

instance (worked : ℤ) (s : CentrePool) : (op : PoolOp) → Decidable (stopOk worked s op)
  | .stopBegin => inferInstanceAs (Decidable (_ ∧ _))
  | .stopVisit => inferInstanceAs (Decidable (∀ rest ∈ s.stopRest, _))
  | .start _ => inferInstanceAs (Decidable (_ ∨ _))
  | .pushTask _ | .startEnd _ | .wake _ | .begin _ | .pushCentre _ | .count _ | .setStarted _ | .report _ _
  | .enterLoop _ | .leave _ | .fail _ | .exit _ | .return _ | .stopEnd | .registerCheck | .registerBegin
  | .registerVisit _ | .registerEnd | .registerCall _ | .poolStop => isTrue trivial

/-! ## What is still ahead of a `Stop` -/

/-- Only the centres of the list run or will, and no task is to come. -/
structure Ahead (s : CentrePool) (rest : List ℕ) : Prop where
  loops : ∀ (i : ℕ) (w : Work), s.works[i]? = some w → w.running = true ∨ willRun w = true → i ∈ rest
  queued : s.queued = 0
  starts : ∀ call ∈ s.starts, call.pc.tasksLeft = 0

/-- While a `Stop` walks the centres it has not visited are ahead, once it has returned none is. -/
structure StopInv (s : CentrePool) : Prop where
  listed : Listed s
  walk : ∀ rest ∈ s.stopRest, Ahead s rest
  stopped : s.stopped = true → Ahead s []

section Invariant
variable {s t : CentrePool} {i k : ℕ} {rest : List ℕ} {w w' : Work} {call : StartCall}
  {cb : Bool} {left : ℕ}

theorem Ahead.frame (h : Ahead s rest) (hworks : t.works = s.works) (hqueued : t.queued = s.queued)
    (hstarts : t.starts = s.starts) : Ahead t rest := by
  constructor
  · rw [hworks]
    exact h.loops
  · rw [hqueued]
    exact h.queued
  · rw [hstarts]
    exact h.starts

/-- A task moves that does not come to its loop. -/
theorem Ahead.move (h : Ahead s rest) (hi : s.works[i]? = some w)
    (hmove : w'.running = true ∨ willRun w' = true → w.running = true ∨ willRun w = true) :
    Ahead (s.setWork i w') rest := by
  refine ⟨?_, h.queued, h.starts⟩
  intro c v hc hv
  rcases setWork_cases hi hc with ⟨rfl, rfl⟩ | ⟨-, hc⟩
  · exact h.loops c w hi (hmove hv)
  · exact h.loops c v hc hv

theorem Ahead.moveTo (h : Ahead s rest) (hi : s.works[i]? = some w) (pc : WorkPc)
    (hpc : willRun { w with pc := pc } = true → willRun w = true) : Ahead (s.setWork i { w with pc := pc }) rest :=
  h.move hi (Or.imp_right hpc)

theorem Ahead.exit (h : Ahead s rest) (hi : s.works[i]? = some w) :
    Ahead (s.setWork i { w with running := false }) rest := h.move hi fun hv => Or.inr (hv.resolve_left nofun)

/-- The centre at the head has been visited. -/
theorem Ahead.visit (h : Ahead s (i :: rest)) (hi : s.works[i]? = some w) (hw : willRun w = false) :
    Ahead (s.setWork i { w with running := false }) rest := by
  refine ⟨?_, h.queued, h.starts⟩
  intro c v hc hv
  rcases setWork_cases hi hc with ⟨-, rfl⟩ | ⟨hci, hc⟩
  · have hrun := hv.resolve_left nofun
    exact absurd hrun (by simpa [willRun] using hw)
  · exact List.mem_of_ne_of_mem hci (h.loops c v hc hv)

theorem Ahead.setStart (h : Ahead s rest) (hcall : call.pc.tasksLeft = 0) : Ahead (s.setStart k call) rest := by
  refine ⟨h.loops, h.queued, ?_⟩
  intro call' hmem
  rcases List.mem_or_eq_of_mem_set hmem with hmem | rfl
  · exact h.starts call' hmem
  · exact hcall

/-- The steps that neither begin or end a walk nor start the pool. -/
theorem StopInv.keep (h : StopInv s) (hlisted : Listed t) (hwalk : ∀ rest ∈ t.stopRest, rest ∈ s.stopRest)
    (hstopped : t.stopped = s.stopped) (hahead : ∀ rest, Ahead s rest → Ahead t rest) : StopInv t := by
  refine ⟨hlisted, fun rest hrest => hahead rest (h.walk rest (hwalk rest hrest)), fun hstop => ?_⟩
  rw [hstopped] at hstop
  exact hahead [] (h.stopped hstop)

theorem ahead_of_listed (h : Listed s) (hqueued : s.queued = 0) (hstarts : ∀ call ∈ s.starts, call.pc.tasksLeft = 0)
    (hpushing : ∀ w ∈ s.works, w.pc = .pushing → willRun w = false) : Ahead s s.centres := by
  refine ⟨?_, hqueued, hstarts⟩
  intro i w hi hw
  refine (h.centres i).mpr ⟨w, hi, fun hpc => ?_⟩
  rcases hw with hrun | hrun
  · rw [h.not_running hi (by simp [hpc])] at hrun
    cases hrun
  · rw [hpushing w (List.mem_of_getElem? hi) hpc] at hrun
    cases hrun

theorem Ahead.start (h : Ahead s rest) (hstarted : s.started = true) (cb : Bool) : Ahead (s.start cb) rest := by
  rw [CentrePool.start, if_pos hstarted]
  refine ⟨h.loops, h.queued, ?_⟩
  intro call hcall
  rw [List.mem_append, List.mem_singleton] at hcall
  rcases hcall with hcall | rfl
  · exact h.starts call hcall
  · rfl

theorem StopInv.start (h : StopInv s) (hok : s.started = true ∨ s.stopRest = none) (cb : Bool)
    (hlisted : Listed (s.start cb)) : StopInv (s.start cb) := by
  by_cases hstarted : s.started = true
  · refine h.keep hlisted ?_ ?_ (fun rest hahead => hahead.start hstarted cb) <;>
      rw [CentrePool.start, if_pos hstarted]
    exact fun rest hrest => hrest
  · have hnone := hok.resolve_left hstarted
    rw [CentrePool.start, if_neg hstarted] at hlisted ⊢
    refine ⟨hlisted, ?_, ?_⟩
    · intro rest hrest
      change rest ∈ s.stopRest at hrest
      rw [hnone] at hrest
      cases hrest
    · intro hstop
      cases hstop

theorem StopInv.pushTask (h : StopInv s) (hk : s.starts[k]? = some ⟨cb, .pushing (left + 1)⟩)
    (hlisted : Listed (s.pushTask.setStart k call)) : StopInv (s.pushTask.setStart k call) := by
  have hnot : ∀ rest, ¬Ahead s rest := fun rest hahead =>
    absurd (hahead.starts _ (List.mem_of_getElem? hk)) (Nat.succ_ne_zero left)
  obtain ⟨-, -, hwalk, -, hstopped⟩ := s.pushTask_same
  refine h.keep hlisted ?_ hstopped fun rest hahead => absurd hahead (hnot rest)
  rw [CentrePool.stopRest, setStart_walk, hwalk]
  exact fun rest hrest => hrest

theorem stopInv_step (worked worked' : ℤ) (s : CentrePool) (op : PoolOp) (s' : CentrePool) (h : StopInv s)
    (hok : stopOk worked s op) (hpass : PoolPass worked s op worked' s') : StopInv s' := by
  have hlisted := listed_step h.listed hpass
  cases hpass with
  | start cb => exact h.start hok cb hlisted
  | pushTask hk => exact h.pushTask hk hlisted
  | @stored k hk =>
    refine h.keep hlisted (fun _ hrest => hrest) rfl fun rest hahead => ?_
    have hcall : Ahead (s.setStart k ⟨true, .returned⟩) rest := hahead.setStart rfl
    exact hcall.frame rfl rfl rfl
  | waits _ _ | wake _ => exact h.keep hlisted (fun _ hrest => hrest) rfl fun rest hahead => hahead.setStart rfl
  | begin _ hqueued _ =>
    exact h.keep hlisted (fun _ hrest => hrest) rfl fun rest hahead => absurd hahead.queued hqueued.ne'
  | pushCentre hi hpc _ =>
    refine h.keep hlisted (fun _ hrest => hrest) rfl fun rest hahead => ?_
    exact (hahead.moveTo hi .counting (by simp [willRun, hpc])).frame rfl rfl rfl
  | count hi hpc =>
    refine h.keep hlisted (fun _ hrest => hrest) rfl fun rest hahead => hahead.moveTo hi _ ?_
    split <;> simp [willRun, hpc]
  | setStarted hi hpc =>
    refine h.keep hlisted (fun _ hrest => hrest) rfl fun rest hahead => ?_
    exact (hahead.moveTo hi .reporting (by simp [willRun, hpc])).frame rfl rfl rfl
  | called hi hpc _ | lost hi hpc _ _ =>
    refine h.keep hlisted (fun _ hrest => hrest) rfl fun rest hahead => ?_
    exact (hahead.moveTo hi .entering (by simp [willRun, hpc])).frame rfl rfl rfl
  | @woken i k w cb hi hpc _ _ =>
    refine h.keep hlisted (fun _ hrest => hrest) rfl fun rest hahead => ?_
    have hcall : Ahead (s.setStart k ⟨cb, .returned⟩) rest := hahead.setStart rfl
    exact (hcall.moveTo hi .entering (by simp [willRun, hpc])).frame rfl rfl rfl
  | refused hi hpc _ | leave hi _ _ | returns hi _ =>
    exact h.keep hlisted (fun _ hrest => hrest) rfl fun rest hahead => hahead.moveTo hi _ (by simp [willRun])
  | loops hi hpc hinit _ =>
    refine h.keep hlisted (fun _ hrest => hrest) rfl fun rest hahead => hahead.move hi fun _ => Or.inr ?_
    simp [willRun, hinit, hpc]
  | fail hi _ =>
    exact h.keep hlisted (fun _ hrest => hrest) rfl fun rest hahead => hahead.move hi (by simp [willRun])
  | exit hi _ => exact h.keep hlisted (fun _ hrest => hrest) rfl fun rest hahead => hahead.exit hi
  | stopBegin hwalk =>
    refine ⟨hlisted, ?_, fun hstop => (h.stopped hstop).frame rfl rfl rfl⟩
    rintro rest ⟨⟩
    exact (ahead_of_listed h.listed hok.1 hok.2.1 hok.2.2).frame rfl rfl rfl
  | @stopVisit c rest w hwalk hc _ =>
    have hrest : c :: rest ∈ s.stopRest := by
      rw [CentrePool.stopRest, hwalk]
      rfl
    refine ⟨hlisted, ?_, fun hstop => ((h.stopped hstop).exit hc).frame rfl rfl rfl⟩
    rintro rest' ⟨⟩
    exact ((h.walk _ hrest).visit hc (hok _ hrest c rfl w hc)).frame rfl rfl rfl
  | stopEnd hwalk =>
    refine ⟨hlisted, nofun, fun _ => ?_⟩
    exact (h.walk [] (by rw [CentrePool.stopRest, hwalk]; rfl)).frame rfl rfl rfl
  | registerCheck _ | notStarted _ | registerCall _ _ _ | poolStop =>
    exact h.keep hlisted (fun _ hrest => hrest) rfl fun rest hahead => hahead.frame rfl rfl rfl
  | registerBegin _ _ | registerVisit _ _ _ _ _ | registerEnd _ =>
    exact h.keep hlisted nofun rfl fun rest hahead => hahead.frame rfl rfl rfl

end Invariant

/-! ## Runs -/

theorem stopInv_new (n : ℕ) : StopInv (.new n) := ⟨.new n, nofun, nofun⟩

theorem Ahead.stopped {s : CentrePool} (h : Ahead s []) : Stopped s := by
  refine ⟨?_, h.queued, h.starts⟩
  intro w hw
  obtain ⟨i, hi⟩ := List.mem_iff_getElem?.mp hw
  have hnot : ¬(w.running = true ∨ willRun w = true) := fun hv => absurd (h.loops i w hi hv) List.not_mem_nil
  simpa using hnot

/-- In every run with such steps alone no loop runs or will in a pool after `Stop` has returned. -/
theorem stop_not_lost {threadNums : ℕ → ℕ} {ops : List (ℕ × PoolOp)} {s : PoolProcess}
    (hrun : exec poolStep (.start threadNums) ops = some s)
    (hok : Guarded poolStep (onPool stopOk) (.start threadNums) ops) (i : ℕ) (hstop : (s.pools i).stopped = true) :
    Stopped (s.pools i) := by
  have hinv : StopInv (s.pools i) := pool_invariant stopInv_step (fun i => stopInv_new _) hok hrun i
  exact (hinv.stopped hstop).stopped

/-- Two tasks, one of them with a centre whose `Init` has failed; `Stop` comes when the other is in its loop. -/
def stopSample : List (ℕ × PoolOp) :=
  [(0, .start true), (0, .pushTask 0), (0, .pushTask 0), (0, .startEnd 0), (0, .begin true), (0, .pushCentre 0),
    (0, .count 0), (0, .enterLoop 0), (0, .begin false), (0, .pushCentre 1), (0, .stopBegin), (0, .stopVisit),
    (0, .leave 0), (0, .stopVisit), (0, .stopEnd), (0, .count 1), (0, .setStarted 1), (0, .report 1 0),
    (0, .enterLoop 1), (0, .return 0), (0, .return 1), (0, .poolStop)]

def stopSampleEnd : PoolProcess := (exec poolStep (.start fun _ => 2) stopSample).get (by decide +kernel)

theorem stop_not_lost_sample : Stopped (stopSampleEnd.pools 0) ∧ (stopSampleEnd.pools 0).works.length = 2 := by
  have hok : Guarded poolStep (onPool stopOk) (.start fun _ => 2) stopSample := by decide +kernel
  exact ⟨stop_not_lost (Option.some_get _).symm hok 0 (by decide +kernel), by decide +kernel⟩

/-- `Stop` comes between the count of a task and its loop. -/
def lostStop : List (ℕ × PoolOp) :=
  [(0, .start true), (0, .pushTask 0), (0, .startEnd 0), (0, .begin true), (0, .pushCentre 0), (0, .count 0),
    (0, .setStarted 0), (0, .report 0 0), (0, .stopBegin), (0, .stopVisit), (0, .stopEnd), (0, .enterLoop 0)]

theorem not_stop_not_lost :
    ¬ ∀ (threadNums : ℕ → ℕ) (ops : List (ℕ × PoolOp)) (s : PoolProcess) (i : ℕ),
      exec poolStep (.start threadNums) ops = some s → (s.pools i).stopped = true → Stopped (s.pools i) := by
  intro h
  have hstopped := h (fun _ => 1) lostStop _ 0 (Option.some_get (by decide +kernel)).symm (by decide +kernel)
  have hloops := hstopped.loops ⟨true, .looping, true⟩ (by decide +kernel)
  exact absurd hloops.1 (by decide)

end Chaos.PoolStop
