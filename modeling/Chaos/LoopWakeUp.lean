import Chaos.CentreSteps

/-!
# The loop in the poller and the wake-up

`MakeWaittingToActive` drains `m_waittingEvs` before the timeout is computed and the poller blocks, and
`PushEvent` broadcasts the condition variable, on which no poller here waits; `AddTimer` and `Exit` write
the eventfd. A cancel between the drain and the end of the poll is seen only if something else wakes the
loop.
-/
namespace Chaos.LoopWakeUp

open GuardedRuns

/-- About to block or blocked in the poller. -/
def blocks : LoopPc → Bool
  | .poll timeoutMs => timeoutMs != 0
  | _ => false

/-- The front of the heap is expired or due. -/
def frontDue (o : Objects) (t : Timer) (clk : ℕ) : Bool :=
  match t.heap.front with
  | none => false
  | some p =>
    match o.store p with
    | none => true
    | some e => decide (((e.nextTime : ℤ) - clk).bmod 4294967296 ≤ 0)

/-- No cancel takes effect while the loop is in the poller, and the loop computes its timeout with
nothing waiting, unless a wake-up is pending or, for the latter, the timeout is going to be 0. -/
def wakeUpOk (self : ℕ) (s : CentreState) : CentreOp → Prop
  | .cancel p => s.cancels self p = true → blocks s.centre.pc = true → 0 < s.centre.eventFd
  | .control (.calcTimeout clk) => s.centre.waittingEvs ≠ [] →
    0 < s.centre.eventFd ∨ s.centre.activeEvs ≠ [] ∨ frontDue s.objs s.centre.timer clk = true
  | _ => True

instance (self : ℕ) (s : CentreState) (op : CentreOp) : Decidable (wakeUpOk self s op) := by
  unfold wakeUpOk
  split <;> infer_instance

/-- A wake-up is pending whenever the loop blocks with entries waiting. -/
def WakeUpPending (s : CentreState) : Prop :=
  blocks s.centre.pc = true → s.centre.waittingEvs ≠ [] → 0 < s.centre.eventFd

theorem getNextTimeout_of_frontDue {o : Objects} {t : Timer} {clk : ℕ} (h : frontDue o t clk = true) :
    Timer.getNextTimeout o t clk = 0 := by
  rw [frontDue] at h
  rw [Timer.getNextTimeout]
  cases hfront : t.heap.front with
  | none => simp [hfront] at h
  | some p =>
    cases he : o.store p with
    | none => simp only [he]
    | some e =>
      simp only [hfront, he, decide_eq_true_eq] at h
      simp only [he, gt_iff_lt, if_neg (not_lt.mpr h)]

theorem WakeUpPending.control {self : ℕ} {s : CentreState} {op : ControlOp} {c : EventCentre}
    (h : WakeUpPending s) (hok : wakeUpOk self s (.control op)) (hc : controlStep s op = some c) :
    WakeUpPending { s with centre := c } := by
  cases op with
  | exit =>
    simp only [controlStep, Option.some.injEq] at hc
    subst hc
    split_ifs
    · intro _ _
      exact Nat.succ_pos _
    · exact h
  | calcTimeout clk =>
    simp only [controlStep, Option.ite_none_right_eq_some, Option.some.injEq] at hc
    obtain ⟨_, rfl⟩ := hc
    intro hblocks hwaitting
    rcases hok hwaitting with hfd | hactive | hdue
    · exact hfd
    · simp [blocks, CentreState.calculateTimeoutMs, hactive] at hblocks
    · have htimeout : s.calculateTimeoutMs clk = 0 := by
        rw [CentreState.calculateTimeoutMs]
        split_ifs
        · rfl
        · exact getNextTimeout_of_frontDue hdue
      simp [blocks, htimeout] at hblocks
  | start | stop | launchBegin now | processBegin | processEnd =>
    simp only [controlStep, Option.ite_none_right_eq_some, Option.some.injEq] at hc
    obtain ⟨_, rfl⟩ := hc
    intro hblocks
    cases hblocks
  | pollReturn | pollFail | launchEnd =>
    simp only [controlStep] at hc
    split at hc
    · simp only [Option.ite_none_right_eq_some, Option.some.injEq] at hc
      first
        | subst hc
          intro hblocks
          cases hblocks
        | obtain ⟨_, rfl⟩ := hc
          intro hblocks
          cases hblocks
    · cases hc

/-- The step lemma. -/
theorem wakeUpPending_step {n self : ℕ} {s t : CentreState} {op : CentreOp}
    (h : WakeUpPending s) (hok : wakeUpOk self s op) (ht : centreStep n self s op = some t) :
    WakeUpPending t := by
  cases centrePass_of_centreStep ht with
  | object hobj => exact h
  | control hc => exact h.control hok hc
  | refused hp =>
    rw [WakeUpPending]
    rw [CentreState.afterRegister_centre]
    exact h
  | registerIo hp hheld he hc hio hkey =>
    rw [WakeUpPending]
    rw [CentreState.afterRegister_centre]
    exact h
  | registerTimer hp hheld he hc htimer hkey =>
    rw [WakeUpPending]
    rw [CentreState.afterRegister_centre]
    intro _ _
    exact Nat.succ_pos _
  | ignored hnot => exact h
  | unmarked he hm => exact h
  | cancel hp hpc he hc =>
    intro hblocks _
    exact hok (CentreState.cancels_eq he hc) hblocks
  | makeWaitting hpc =>
    intro hblocks
    cases hblocks
  | notActive => exact h
  | pushActive hpc hio hfd he hc =>
    intro hblocks
    simp [CentreState.afterPush, hpc, blocks] at hblocks
  | launch hpc hl =>
    intro hblocks
    simp [CentreState.afterPass, hpc, blocks] at hblocks
  | delete hpc hact he hfront =>
    intro hblocks
    simp [CentreState.withActive, hpc, blocks] at hblocks
  | skip hpc hact he hfront hc => exact h
  | wakeUp hpc hact he hfront hself =>
    intro hblocks
    simp [hpc, blocks] at hblocks
  | handle hpc hact he hfront hc hself =>
    intro hblocks
    cases hblocks
  | handleEnd hpc he =>
    intro hblocks
    cases hblocks

/-- In a run that meets `wakeUpOk` at every step a wake-up is pending whenever the loop is about to block
or blocked with entries waiting. -/
theorem wake_up_not_lost {fd : ℕ} {ops : List CentreOp} {s : CentreState}
    (hg : Guarded (centreStep 1 0) (wakeUpOk 0) (.start fd) ops)
    (hs : exec (centreStep 1 0) (.start fd) ops = some s) :
    blocks s.centre.pc = true → s.centre.waittingEvs ≠ [] → 0 < s.centre.eventFd := by
  have hstart : WakeUpPending (.start fd) := by
    intro hblocks
    cases hblocks
  exact (invariant_of_guarded (fun _ _ _ => wakeUpPending_step) hstart hg hs : WakeUpPending s)

/-- The loop blocks without timers; a registered timer writes the eventfd, and a cancel follows it. -/
def wakeUpSample : List CentreOp :=
  [.object (.create evIoread 20 0 0 false), .register 1 true true, .control .start, .makeWaitting,
    .control (.calcTimeout 0), .object (.create evTimeout 1 5 0 true), .register 2 true true,
    .cancel 1]

def wakeUpSampleEnd : CentreState :=
  (exec (centreStep 1 0) (.start 3) wakeUpSample).get (by decide +kernel)

theorem wake_up_not_lost_sample : 0 < wakeUpSampleEnd.centre.eventFd :=
  wake_up_not_lost
    (show Guarded (centreStep 1 0) (wakeUpOk 0) (.start 3) wakeUpSample by decide +kernel)
    (Option.some_get _).symm (by decide +kernel) (by decide +kernel)

/-- A cancel from another thread while the loop blocks without timers leaves it blocked. -/
theorem wake_up_lost :
    ¬ ∀ (fd : ℕ) (ops : List CentreOp) (s : CentreState),
      exec (centreStep 1 0) (.start fd) ops = some s →
        blocks s.centre.pc = true → s.centre.waittingEvs ≠ [] → 0 < s.centre.eventFd := by
  intro h
  have hrun := h 3 [.object (.create evIoread 20 0 0 false), .register 1 true true, .control .start,
    .makeWaitting, .control (.calcTimeout 0), .cancel 1] _ (Option.some_get (by decide +kernel)).symm
  revert hrun
  decide +kernel

end Chaos.LoopWakeUp
