import Chaos.MinHeapQueue
import Chaos.TimerLaunch

/-!
# Re-arming a periodic timer

`SetNextTime` changes the deadline of the root in place, `Push` adds the timer once more and `Pop` takes the
root away. Between the first and the last the array is in order below the root only.
-/
namespace Chaos.Timer

open MinHeap

/-- Every entry is a timer that is there. -/
def AllLive (o : Objects) (t : Timer) : Prop := ∀ q ∈ t.heap.heap, (o.store q).isSome

instance (o : Objects) (t : Timer) : Decidable (AllLive o t) :=
  inferInstanceAs (Decidable (∀ q ∈ t.heap.heap, (o.store q).isSome))

theorem AllLive.keys {o : Objects} {t : Timer} (h : AllLive o t) : Live (deadline o) t.heap.heap := by
  intro q hq
  rw [deadline, Option.isSome_map]
  exact h q hq

/-- Of live timers the order between parents and children is the order along the paths. -/
theorem AllLive.ordered_iff {o : Objects} {t : Timer} (h : AllLive o t) :
    Ordered o t ↔ InOrder (timerCmp o) t.heap.heap := by
  rw [timerCmp_eq]
  exact h.keys.inOrder_iff.symm

theorem setNextTime_store (o : Objects) (p clk q : ℕ) :
    ((setNextTime o p clk).store q).isSome = (o.store q).isSome := by
  rcases eq_or_ne q p with rfl | hne
  · rw [setNextTime, Objects.modify_self, Option.isSome_map]
  · rw [setNextTime, Objects.modify_of_ne o p q _ hne]

section Rearm
variable {s : LaunchState} {p clk : ℕ}

theorem AllLive.launchLoopTimer (h : AllLive s.objs s.timer) (hfront : s.timer.heap.front = some p) :
    AllLive (launchLoopTimer clk s p).objs (launchLoopTimer clk s p).timer := by
  intro q hq
  have hold := h q ((perm_launchLoopTimer hfront).mem_iff.mp hq)
  rwa [← setNextTime_store s.objs p clk] at hold

/-- Distinct live timers meet the conditions for re-arming the root. -/
theorem AllLive.rearmOk (h : AllLive s.objs s.timer) (hnodup : s.timer.heap.heap.Nodup)
    (hfront : s.timer.heap.front = some p) : rearmOk (setNextTime s.objs p clk) s.timer p := by
  have hlive : AllLive (setNextTime s.objs p clk) s.timer := by
    intro q hq
    rw [setNextTime_store]
    exact h q hq
  obtain ⟨xs, hxs⟩ := front_eq hfront
  refine ⟨?_, hlive.keys.pushOk 2 p, ?_⟩
  · -- the root is the only entry of the timer
    intro i hi htwo hget
    rw [hxs, show i - 1 = i - 2 + 1 by omega, List.getElem?_cons_succ] at hget
    rw [hxs, List.nodup_cons] at hnodup
    exact absurd (List.mem_of_getElem? hget) hnodup.1
  · have hpushed : AllLive (setNextTime s.objs p clk) (s.timer.push (setNextTime s.objs p clk) p) := by
      intro q hq
      rcases List.mem_cons.mp ((perm_push _ s.timer.heap p).mem_iff.mp hq) with rfl | hq
      · exact hlive q (by rw [hxs]; exact List.mem_cons_self)
      · exact hlive q hq
    exact hpushed.keys.popOk

/-- `SetNextTime`, `Push` and `Pop` of the root end with a heap in order that holds the same timers, of which
the root alone has another deadline. -/
theorem rearm_restores (hlive : AllLive s.objs s.timer) (hnodup : s.timer.heap.heap.Nodup)
    (hord : InOrder (timerCmp s.objs) s.timer.heap.heap) (hfront : s.timer.heap.front = some p) :
    InOrder (timerCmp (launchLoopTimer clk s p).objs) (launchLoopTimer clk s p).timer.heap.heap ∧
      (launchLoopTimer clk s p).timer.heap.heap.Perm s.timer.heap.heap ∧
      (launchLoopTimer clk s p).timer.heap.heap.Nodup ∧
      (launchLoopTimer clk s p).objs.store p =
        (s.objs.store p).map (fun e => { e with nextTime := clk + e.timeoutMs }) ∧
      ∀ q, q ≠ p → (launchLoopTimer clk s p).objs.store q = s.objs.store q := by
  have hperm := @perm_launchLoopTimer p s clk hfront
  refine ⟨?_, hperm, hperm.nodup_iff.mpr hnodup, Objects.modify_self s.objs p _, fun q hq => ?_⟩
  · apply (hlive.launchLoopTimer hfront).ordered_iff.mp
    exact (hlive.ordered_iff.mpr hord).rearm hfront (hlive.rearmOk hnodup hfront)
  · exact Objects.modify_of_ne s.objs p q _ hq

end Rearm

/-- Five timers in order; the clock has stepped back since. -/
def rearmSample : LaunchState where
  objs := ((((Objects.empty.create (timerEvent 1 10 10 true)).create (timerEvent 2 20 15 false)).create
    (timerEvent 3 30 0 false)).create (timerEvent 4 25 12 true)).create (timerEvent 5 40 5 false)
  timer := ⟨⟨[0, 1, 2, 3, 4], 64⟩, [(1, 0), (2, 1), (3, 2), (4, 3), (5, 4)]⟩
  active := []

theorem rearm_restores_sample :
    InOrder (timerCmp (launchLoopTimer 3 rearmSample 0).objs) (launchLoopTimer 3 rearmSample 0).timer.heap.heap ∧
      (launchLoopTimer 3 rearmSample 0).timer.heap.heap.Perm rearmSample.timer.heap.heap ∧
      (launchLoopTimer 3 rearmSample 0).timer.heap.heap.Nodup ∧
      (launchLoopTimer 3 rearmSample 0).objs.store 0 =
        (rearmSample.objs.store 0).map (fun e => { e with nextTime := 3 + e.timeoutMs }) ∧
      ∀ q, q ≠ 0 → (launchLoopTimer 3 rearmSample 0).objs.store q = rearmSample.objs.store q :=
  rearm_restores (by decide) (by decide) (by decide) rfl

end Chaos.Timer
