import Chaos.PoolRest
import Chaos.WindowsPool
import Mathlib.Algebra.Order.BigOperators.Group.Finset

/-!
# The pool on Windows makes the runs of the pool on POSIX threads

A worker that a signal has woken on POSIX threads may still be in `CondWait` on Windows: the event has not let it go
yet, or another one has reset the event before. On POSIX threads such a worker is one that has not come to the mutex
yet. So every run on Windows is a run on POSIX threads, with wake-ups that nobody sent, over the same queue.
-/
namespace Chaos

open GuardedRuns Threads

namespace ThreadPool
variable {s t : ThreadPool} {op : ThreadPoolOp}

/-- Each case is a step, but for a `Run` that finds `m_running` set and changes nothing. -/
theorem step_of_threadPoolPass (ht : ThreadPoolPass s op t) :
    t = s ∧ op.isCall = true ∨ s.step op = some t := by
  refine or_iff_not_imp_left.mpr fun hmoved => ?_
  cases ht with
  | runs hcaller hstops hrun => simp [ThreadPool.step, ThreadPool.run, hcaller, hstops, hrun]
  | ranBefore => exact absurd ⟨rfl, rfl⟩ hmoved
  | started hcaller hj =>
    obtain ⟨hlt, -⟩ := List.getElem?_eq_some_iff.mp hj
    simp [ThreadPool.step, ThreadPool.startThread, hcaller, hj, Nat.not_le.mpr hlt]
  | startedBefore hcaller hj hlt =>
    simp [ThreadPool.step, ThreadPool.startThread, hcaller, hj, Nat.not_le.mpr hlt]
  | runEnd hcaller hj => simp [ThreadPool.step, ThreadPool.startThread, hcaller, hj]
  | move hi hmove =>
    rw [ThreadPool.step, hi, Option.bind_some]
    cases hmove with
    | stays hrun | leaves hrun | takes hrun => simp [ThreadPool.work, hrun]
    | waits hq hrun => simp [ThreadPool.work, hq, hrun]
    | goes hgo =>
      have hnot : ¬ (s.queue = [] ∧ s.running = true) := by
        intro h
        cases hgo with
        | inl hq => exact hq h.1
        | inr hrun => cases hrun.symm.trans h.2
      rw [ThreadPool.work, if_neg hnot]
    | wakes => rfl
  | lock hi hpc howner =>
    rw [ThreadPool.step, hi, Option.bind_some]
    rcases hpc with rfl | rfl <;> simp [ThreadPool.work, lock, howner]
  | wait hi | finish hi =>
    rw [ThreadPool.step, hi]
    rfl
  | back hi hrun =>
    rw [ThreadPool.step, hi, Option.bind_some]
    simp [ThreadPool.work, hrun]
  | take hi hq =>
    rw [ThreadPool.step, hi, Option.bind_some]
    simp [ThreadPool.work, hq]
  | pushTask null hcaller => simp [ThreadPool.step, hcaller]
  | refused hk hrefused =>
    rw [ThreadPool.step, hk, Option.bind_some]
    rcases hrefused with rfl | hrun
    · rfl
    · simp [stepPush, hrun]
  | passed hk hrun =>
    rw [ThreadPool.step, hk, Option.bind_some]
    simp [stepPush, hrun]
  | lockPush hk howner =>
    rw [ThreadPool.step, hk, Option.bind_some]
    simp [stepPush, lock, howner]
  | emplace hk =>
    rw [ThreadPool.step, hk]
    rfl
  | signal hk hj =>
    rw [ThreadPool.step, hk, Option.bind_some]
    simp [stepPush, condSignal, hj]
  | @lost k j hk hnone =>
    have hj : s.workers[j]? ≠ some .blocked := fun hj => hnone (List.mem_of_getElem? hj)
    rw [ThreadPool.step, hk, Option.bind_some]
    simp [stepPush, condSignal, hj, hnone]
  | stop hcaller => simp [ThreadPool.step, hcaller]
  | lockStop hc howner =>
    rw [ThreadPool.step, hc, Option.bind_some]
    simp [stepStop, lock, howner]
  | clear hc hrun | late hc hrun =>
    rw [ThreadPool.step, hc, Option.bind_some]
    simp [stepStop, hrun]
  | broadcast hc =>
    rw [ThreadPool.step, hc]
    rfl
  | join hc hj =>
    obtain ⟨hlt, -⟩ := List.getElem?_eq_some_iff.mp hj
    rw [ThreadPool.step, hc, Option.bind_some]
    simp [stepStop, joins, hj, Nat.not_le.mpr hlt]
  | joined hc hj =>
    rw [ThreadPool.step, hc, Option.bind_some]
    simp [stepStop, hj]
  | destroy hcaller hstops hpushes => simp [ThreadPool.step, hcaller, hstops, hpushes]
  | @destroyJoin j hcaller hj =>
    have hlt : j < s.workers.length := by
      cases hj with
      | inl hleft => exact (List.getElem?_eq_some_iff.mp hleft).1
      | inr hnever => exact (List.getElem?_eq_some_iff.mp hnever).1
    simp [ThreadPool.step, ThreadPool.destroyJoin, joins, hcaller, hj, Nat.not_le.mpr hlt]
  | destroyed hcaller hj => simp [ThreadPool.step, ThreadPool.destroyJoin, hcaller, hj]

/-! ## Workers that are woken earlier -/

/-- The worker `x` stands for `y`. -/
def Ahead (x y : WorkerPc) : Prop := x = y ∨ x = .woken ∧ y = .blocked

theorem Ahead.refl (x : WorkerPc) : Ahead x x := .inl rfl

theorem Ahead.eq_of_ne {x y : WorkerPc} (h : Ahead x y) (hy : y ≠ .blocked) : x = y := by
  cases h with
  | inl heq => exact heq
  | inr hwoken => exact absurd hwoken.2 hy

section Lists
variable {xs ys : List WorkerPc} {i : ℕ} {y : WorkerPc}

theorem ahead_get_of_ne (h : List.Forall₂ Ahead xs ys) (hi : ys[i]? = some y) (hy : y ≠ .blocked) :
    xs[i]? = some y := by
  obtain ⟨x, hx, hxy⟩ := forall₂_get h hi
  exact hxy.eq_of_ne hy ▸ hx

/-- Workers that are woken one after the other stand for the same. -/
theorem ahead_set_left (h : List.Forall₂ Ahead xs ys) (hi : xs[i]? = some .blocked) :
    List.Forall₂ Ahead (xs.set i .woken) ys := by
  induction h generalizing i with
  | nil => cases hi
  | @cons a b _ _ hhead htail ih =>
    cases i with
    | zero =>
      cases hi
      refine .cons ?_ htail
      cases hhead with
      | inl heq => exact .inr ⟨rfl, heq.symm⟩
      | inr hwoken => cases hwoken.1
    | succ i => exact .cons hhead (ih hi)

theorem ahead_map_wake (h : List.Forall₂ Ahead xs ys) : List.Forall₂ Ahead (xs.map wake) ys := by
  induction h with
  | nil => exact .nil
  | @cons a b _ _ hhead htail ih =>
    refine .cons ?_ ih
    cases a with
    | blocked =>
      cases hhead with
      | inl heq => exact .inr ⟨rfl, heq.symm⟩
      | inr hwoken => cases hwoken.1
    | unstarted | outer | locking | checking | waiting | woken | testing | taking | running | left => exact hhead

end Lists

/-- A step that neither wakes nor sends anything is made as well with workers that are woken earlier. -/
theorem ahead_step {xs : List WorkerPc} (h : List.Forall₂ Ahead xs s.workers) (ht : ThreadPoolPass s op t)
    (hwork : ∀ i, op = .work i → s.workers[i]? ≠ some .blocked)
    (hpush : ∀ k j, op = .stepPush k j → s.pushes[k]? ≠ some .signalling)
    (hstop : ∀ c, op = .stepStop c → s.stops[c]? ≠ some .broadcasting) :
    ∃ ys, ThreadPoolPass { s with workers := xs } op { t with workers := ys } ∧ List.Forall₂ Ahead ys t.workers := by
  have hlength := h.length_eq
  cases ht with
  | runs hcaller hstops hrun => exact ⟨xs, .runs hcaller hstops hrun, h⟩
  | ranBefore hcaller hrun => exact ⟨xs, .ranBefore hcaller hrun, h⟩
  | started hcaller hj =>
    exact ⟨_, .started hcaller (ahead_get_of_ne h hj WorkerPc.noConfusion), forall₂_set h (.refl _) _⟩
  | @startedBefore j hcaller hj hlt =>
    refine ⟨xs, .startedBefore hcaller ?_ (hlength ▸ hlt), h⟩
    obtain ⟨x, hx, hxy⟩ := forall₂_get h (List.getElem?_eq_getElem hlt)
    intro hnever
    obtain rfl := Option.some.inj (hx.symm.trans hnever)
    cases hxy with
    | inl heq => exact hj ((List.getElem?_eq_getElem hlt).trans (congrArg some heq.symm))
    | inr hwoken => cases hwoken.1
  | runEnd hcaller hj => exact ⟨xs, .runEnd hcaller (hlength ▸ hj), h⟩
  | @move i pc pc' hi hmove =>
    have hne : pc ≠ .blocked := by
      rintro rfl
      exact hwork i rfl hi
    have hmove' : WorkerMove { s with workers := xs } pc pc' := by
      cases hmove with
      | stays hrun => exact .stays hrun
      | leaves hrun => exact .leaves hrun
      | waits hq hrun => exact .waits hq hrun
      | goes hgo => exact .goes hgo
      | wakes => exact .wakes
      | takes hrun => exact .takes hrun
    exact ⟨_, .move (ahead_get_of_ne h hi hne) hmove', forall₂_set h (.refl _) _⟩
  | @lock i pc hi hpc howner =>
    have hne : pc ≠ .blocked := by rcases hpc with rfl | rfl <;> exact WorkerPc.noConfusion
    exact ⟨_, .lock (ahead_get_of_ne h hi hne) hpc howner, forall₂_set h (.refl _) _⟩
  | wait hi => exact ⟨_, .wait (ahead_get_of_ne h hi WorkerPc.noConfusion), forall₂_set h (.refl _) _⟩
  | back hi hrun => exact ⟨_, .back (ahead_get_of_ne h hi WorkerPc.noConfusion) hrun, forall₂_set h (.refl _) _⟩
  | take hi hq => exact ⟨_, .take (ahead_get_of_ne h hi WorkerPc.noConfusion) hq, forall₂_set h (.refl _) _⟩
  | finish hi => exact ⟨_, .finish (ahead_get_of_ne h hi WorkerPc.noConfusion), forall₂_set h (.refl _) _⟩
  | pushTask null hcaller => exact ⟨xs, .pushTask null hcaller, h⟩
  | refused hk hrefused => exact ⟨xs, .refused hk hrefused, h⟩
  | passed hk hrun => exact ⟨xs, .passed hk hrun, h⟩
  | lockPush hk howner => exact ⟨xs, .lockPush hk howner, h⟩
  | emplace hk => exact ⟨xs, .emplace hk, h⟩
  | signal hk | lost hk => exact absurd hk (hpush _ _ rfl)
  | stop hcaller => exact ⟨xs, .stop hcaller, h⟩
  | lockStop hc howner => exact ⟨xs, .lockStop hc howner, h⟩
  | clear hc hrun => exact ⟨xs, .clear hc hrun, h⟩
  | late hc hrun => exact ⟨xs, .late hc hrun, h⟩
  | broadcast hc => exact absurd hc (hstop _ rfl)
  | join hc hj => exact ⟨xs, .join hc (ahead_get_of_ne h hj WorkerPc.noConfusion), h⟩
  | joined hc hj => exact ⟨xs, .joined hc (hlength ▸ hj), h⟩
  | destroy hcaller hstops hpushes => exact ⟨xs, .destroy hcaller hstops hpushes, h⟩
  | destroyJoin hcaller hj =>
    refine ⟨xs, .destroyJoin hcaller ?_, h⟩
    cases hj with
    | inl hleft => exact .inl (ahead_get_of_ne h hleft WorkerPc.noConfusion)
    | inr hnever => exact .inr (ahead_get_of_ne h hnever WorkerPc.noConfusion)
  | destroyed hcaller hj => exact ⟨xs, .destroyed hcaller (hlength ▸ hj), h⟩

end ThreadPool

/-! ## Inside the condition -/

/-- How many accesses of `CondWait` are to come. -/
def CondWaitPc.left : CondWaitPc → ℕ
  | .storeNormal => 1
  | .resetEvent => 2
  | .readCount => 3
  | .readBroadcast => 4
  | .readSingle => 5
  | .uncount => 6
  | .wait => 7
  | .count => 8

def CondSignalPc.left : CondSignalPc → ℕ
  | .setEvent => 1
  | .storeSingle => 2
  | .readBroadcast => 3

def CondBroadCastPc.left : CondBroadCastPc → ℕ
  | .setEvent => 1
  | .storeBroadcast => 2

theorem WaitMove.left_lt {cond cond' : Condition} {pc pc' : CondWaitPc} (h : WaitMove cond pc pc' cond') :
    pc'.left < pc.left := by
  cases h <;> simp [CondWaitPc.left]

namespace WindowsPool

open ThreadPool

section Inside
variable {s t : WindowsPool} {i k c : ℕ}

def waitLeft (s : WindowsPool) (i : ℕ) : ℕ := if s.pool.workers[i]? = some .blocked then (s.waitPc i).left else 0

def signalLeft (s : WindowsPool) (k : ℕ) : ℕ :=
  if s.pool.pushes[k]? = some .signalling then (s.signalPc k).left else 0

def broadCastLeft (s : WindowsPool) (c : ℕ) : ℕ :=
  if s.pool.stops[c]? = some .broadcasting then (s.broadCastPc c).left else 0

/-- How many accesses of the condition are to come from those who are inside of it. -/
def condLeft (s : WindowsPool) : ℕ :=
  ∑ i ∈ Finset.range s.pool.workers.length, s.waitLeft i + ∑ k ∈ Finset.range s.pool.pushes.length, s.signalLeft k +
    ∑ c ∈ Finset.range s.pool.stops.length, s.broadCastLeft c

theorem condLeft_le (s : WindowsPool) :
    s.condLeft ≤ s.pool.workers.length * 8 + s.pool.pushes.length * 3 + s.pool.stops.length * 2 := by
  have hwait (i : ℕ) : s.waitLeft i ≤ 8 := by
    rw [waitLeft]
    split
    · cases s.waitPc i <;> simp [CondWaitPc.left]
    · exact Nat.zero_le _
  have hsignal (k : ℕ) : s.signalLeft k ≤ 3 := by
    rw [signalLeft]
    split
    · cases s.signalPc k <;> simp [CondSignalPc.left]
    · exact Nat.zero_le _
  have hbroadCast (c : ℕ) : s.broadCastLeft c ≤ 2 := by
    rw [broadCastLeft]
    split
    · cases s.broadCastPc c <;> simp [CondBroadCastPc.left]
    · exact Nat.zero_le _
  have hsum (f : ℕ → ℕ) (n most : ℕ) (h : ∀ i, f i ≤ most) : ∑ i ∈ Finset.range n, f i ≤ n * most := by
    simpa using Finset.sum_le_card_nsmul (Finset.range n) f most fun i _ => h i
  exact Nat.add_le_add (Nat.add_le_add (hsum _ _ 8 hwait) (hsum _ _ 3 hsignal)) (hsum _ _ 2 hbroadCast)

/-- One thread goes on inside, and the others are where they were. -/
theorem sum_range_lt {n : ℕ} {f g : ℕ → ℕ} (hi : i < n) (hlt : f i < g i) (hsame : ∀ j ≠ i, f j = g j) :
    ∑ j ∈ Finset.range n, f j < ∑ j ∈ Finset.range n, g j := by
  apply Finset.sum_lt_sum _ ⟨i, Finset.mem_range.mpr hi, hlt⟩
  intro j _
  by_cases hji : j = i
  · exact hji ▸ Nat.le_of_lt hlt
  · exact Nat.le_of_eq (hsame j hji)

theorem condLeft_goWait {pc : CondWaitPc} {cond : Condition} (hi : s.pool.workers[i]? = some .blocked)
    (hlt : pc.left < (s.waitPc i).left) : (s.goWait i pc cond).condLeft < s.condLeft := by
  obtain ⟨hlen, -⟩ := List.getElem?_eq_some_iff.mp hi
  refine Nat.add_lt_add_right (Nat.add_lt_add_right (sum_range_lt hlen ?_ ?_) _) _
  · simpa [waitLeft, goWait, hi] using hlt
  · intro j hji
    simp [waitLeft, goWait, Function.update_of_ne hji]

theorem condLeft_endWait {cond : Condition} (hi : s.pool.workers[i]? = some .blocked) :
    (s.endWait i cond).condLeft < s.condLeft := by
  obtain ⟨hlen, hget⟩ := List.getElem?_eq_some_iff.mp hi
  have hpos : 0 < (s.waitPc i).left := by
    cases s.waitPc i <;> simp [CondWaitPc.left]
  have hsum : ∑ j ∈ Finset.range s.pool.workers.length, (s.endWait i cond).waitLeft j <
      ∑ j ∈ Finset.range s.pool.workers.length, s.waitLeft j := by
    apply sum_range_lt hlen
    · simpa [waitLeft, endWait, setWorker, hlen, hget] using hpos
    · intro j hji
      simp [waitLeft, endWait, setWorker, set_of_ne hji]
  simp only [condLeft, show (s.endWait i cond).pool.workers.length = s.pool.workers.length from List.length_set]
  exact Nat.add_lt_add_right (Nat.add_lt_add_right hsum _) _

theorem condLeft_goSignal {pc : CondSignalPc} {cond : Condition} (hk : s.pool.pushes[k]? = some .signalling)
    (hlt : pc.left < (s.signalPc k).left) : (s.goSignal k pc cond).condLeft < s.condLeft := by
  obtain ⟨hlen, -⟩ := List.getElem?_eq_some_iff.mp hk
  refine Nat.add_lt_add_right (Nat.add_lt_add_left (sum_range_lt hlen ?_ ?_) _) _
  · simpa [signalLeft, goSignal, hk] using hlt
  · intro j hjk
    simp [signalLeft, goSignal, Function.update_of_ne hjk]

theorem condLeft_goBroadCast {pc : CondBroadCastPc} {cond : Condition} (hc : s.pool.stops[c]? = some .broadcasting)
    (hlt : pc.left < (s.broadCastPc c).left) :
    { s with cond := cond, broadCastPc := Function.update s.broadCastPc c pc }.condLeft < s.condLeft := by
  obtain ⟨hlen, -⟩ := List.getElem?_eq_some_iff.mp hc
  refine Nat.add_lt_add_left (sum_range_lt hlen ?_ ?_) _
  · simpa [broadCastLeft, hc] using hlt
  · intro j hjc
    simp [broadCastLeft, Function.update_of_ne hjc]

end Inside

/-! ## The two pools -/

/-- The pool on POSIX threads is where the pool on Windows is, with some workers woken that are in `CondWait` still. -/
structure Refines (s : WindowsPool) (a : ThreadPool) : Prop where
  workers : List.Forall₂ Ahead a.workers s.pool.workers
  rest : a = { s.pool with workers := a.workers }

/-- The other pool follows: it makes a step, of a call if this is one, or waits for one inside the condition, or for a
`Run` that has nothing to do. -/
def Follows (s : WindowsPool) (a : ThreadPool) (op : ThreadPoolOp) (t : WindowsPool) : Prop :=
  ∃ b, Refines t b ∧ ((∃ op' : ThreadPoolOp, op'.isCall = op.isCall ∧ a.step op' = some b) ∨
    b = a ∧ (op.isCall = true ∨ t.condLeft < s.condLeft))

variable {s t : WindowsPool} {a : ThreadPool} {op : ThreadPoolOp} {i k c : ℕ}

theorem Follows.of_step {b : ThreadPool} {op' : ThreadPoolOp} (hb : Refines t b) (hop : a.step op' = some b)
    (hcall : op'.isCall = op.isCall) : Follows s a op t := ⟨b, hb, .inl ⟨op', hcall, hop⟩⟩

/-- A step of the pools alone. -/
theorem Refines.step {p : ThreadPool} (h : Refines s a) (hp : ThreadPoolPass s.pool op p) (ht : t.pool = p)
    (hwork : ∀ i, op = .work i → s.pool.workers[i]? ≠ some .blocked)
    (hpush : ∀ k j, op = .stepPush k j → s.pool.pushes[k]? ≠ some .signalling)
    (hstop : ∀ c, op = .stepStop c → s.pool.stops[c]? ≠ some .broadcasting) : Follows s a op t := by
  obtain ⟨ys, hpass, hys⟩ := ahead_step h.workers hp hwork hpush hstop
  rw [← h.rest] at hpass
  subst ht
  have href : Refines t { t.pool with workers := ys } := ⟨hys, rfl⟩
  cases step_of_threadPoolPass hpass with
  | inl hidle => exact ⟨_, href, .inr ⟨hidle.1, .inl hidle.2⟩⟩
  | inr hstep => exact .of_step href hstep rfl

/-- The worker comes to the mutex, where the other pool may have it already. -/
theorem Refines.wakes {cond : Condition} (h : Refines s a) (hi : s.pool.workers[i]? = some .blocked) :
    Follows s a (.work i) (s.endWait i cond) := by
  have href : Refines (s.endWait i cond) (a.setWorker i .woken) := by
    refine ⟨forall₂_set h.workers (.refl _) i, ?_⟩
    rw [h.rest]
    rfl
  obtain ⟨x, hx, hahead⟩ := forall₂_get h.workers hi
  cases hahead with
  | inl hblocked =>
    subst hblocked
    have hstep : a.step (.work i) = some (a.setWorker i .woken) := by
      rw [ThreadPool.step, hx]
      rfl
    exact .of_step href hstep rfl
  | inr hwoken =>
    obtain ⟨rfl, -⟩ := hwoken
    have hsame : a.setWorker i .woken = a := by
      obtain ⟨hlt, hget⟩ := List.getElem?_eq_some_iff.mp hx
      rw [setWorker, ← hget, List.set_getElem_self]
    exact ⟨_, href, .inr ⟨hsame, .inr (condLeft_endWait hi)⟩⟩

/-- `CondSignal` is over, and the other pool has woken somebody who waits there. -/
theorem Refines.signal {j : ℕ} (h : Refines s a) (hk : s.pool.pushes[k]? = some .signalling)
    (ht : t.pool = s.pool.unlock.setPush k .returned) : Follows s a (.stepPush k j) t := by
  have hk' : a.pushes[k]? = some .signalling := by rwa [h.rest]
  by_cases hblocked : .blocked ∈ a.workers
  · obtain ⟨j, hj⟩ := List.getElem?_of_mem hblocked
    have href : Refines t ((a.setWorker j .woken).unlock.setPush k .returned) := by
      refine ⟨ht ▸ ahead_set_left h.workers hj, ?_⟩
      rw [h.rest, ht]
      rfl
    have hstep : a.step (.stepPush k j) = some ((a.setWorker j .woken).unlock.setPush k .returned) := by
      rw [ThreadPool.step, hk', Option.bind_some]
      simp [ThreadPool.stepPush, ThreadPool.condSignal, hj]
    exact .of_step href hstep rfl
  · have href : Refines t (a.unlock.setPush k .returned) := by
      refine ⟨ht ▸ h.workers, ?_⟩
      rw [h.rest, ht]
      rfl
    have hstep : a.step (.stepPush k a.workers.length) = some (a.unlock.setPush k .returned) := by
      rw [ThreadPool.step, hk', Option.bind_some]
      simp [ThreadPool.stepPush, ThreadPool.condSignal, hblocked]
    exact .of_step href hstep rfl

theorem Refines.broadcast (h : Refines s a) (hc : s.pool.stops[c]? = some .broadcasting)
    (ht : t.pool = s.pool.unlock.setStop c (.joining 0)) : Follows s a (.stepStop c) t := by
  have hc' : a.stops[c]? = some .broadcasting := by rwa [h.rest]
  have href : Refines t (a.condBroadCast.unlock.setStop c (.joining 0)) := by
    refine ⟨ht ▸ ahead_map_wake h.workers, ?_⟩
    rw [h.rest, ht]
    rfl
  have hstep : a.step (.stepStop c) = some (a.condBroadCast.unlock.setStop c (.joining 0)) := by
    rw [ThreadPool.step, hc']
    rfl
  exact .of_step href hstep rfl

theorem Refines.same (h : Refines s a) (ht : t.pool = s.pool) (hlt : t.condLeft < s.condLeft) : Follows s a op t :=
  ⟨a, ⟨ht ▸ h.workers, ht ▸ h.rest⟩, .inr ⟨rfl, .inr hlt⟩⟩

/-- The step lemma. -/
theorem refines_step (h : Refines s a) (ht : WindowsPass s op t) : Follows s a op t := by
  cases ht with
  | plain hplain hp =>
    apply h.step hp rfl
    · rintro i rfl
      exact hplain.2
    · rintro k j rfl
      exact hplain.2
    · rintro c rfl
      exact hplain.2
  | @enters i hi =>
    have hp : ThreadPoolPass s.pool (.work i) (s.pool.unlock.setWorker i .blocked) := .wait hi
    apply h.step hp rfl
    · intro c hc hblocked
      cases hc
      cases hi.symm.trans hblocked
    · exact nofun
    · exact nofun
  | goes hi hmove => exact h.same rfl (condLeft_goWait hi hmove.left_lt)
  | leaves hi => exact h.wakes hi
  | @emplace k j hk =>
    have hp : ThreadPoolPass s.pool (.stepPush k j) ((s.pool.emplace k).setPush k .signalling) := .emplace hk
    apply h.step hp rfl
    · exact nofun
    · intro c d hc hsignalling
      cases hc
      cases hk.symm.trans hsignalling
    · exact nofun
  | skips hk | signal hk => exact h.signal hk rfl
  | reads hk hpc | storeSingle hk hpc =>
    refine h.same rfl (condLeft_goSignal hk ?_)
    simp [hpc, CondSignalPc.left]
  | storeBroadcast hc hpc =>
    refine h.same rfl (condLeft_goBroadCast hc ?_)
    simp [hpc, CondBroadCastPc.left]
  | @test c p hc hp =>
    apply h.step hp rfl
    · exact nofun
    · exact nofun
    · intro d hd hbroadcasting
      cases hd
      cases hc.symm.trans hbroadcasting
  | broadcast hc => exact h.broadcast hc rfl

section Runs
variable {nThreadNum : ℤ} {processors : ℕ}

/-- A run on POSIX threads comes to where `s` is. -/
def Made (nThreadNum : ℤ) (processors : ℕ) (s : WindowsPool) : Prop :=
  ∃ ops a, exec ThreadPool.step (.new nThreadNum processors) ops = some a ∧ Refines s a

theorem made_new : Made nThreadNum processors (.new nThreadNum processors) :=
  ⟨[], _, rfl, List.forall₂_same.mpr fun pc _ => .refl pc, rfl⟩

theorem made_step (h : Made nThreadNum processors s) (ht : WindowsPass s op t) : Made nThreadNum processors t := by
  obtain ⟨ops, a, hops, ha⟩ := h
  obtain ⟨b, hb, hfollows⟩ := refines_step ha ht
  cases hfollows with
  | inl hstep =>
    obtain ⟨op', -, hop⟩ := hstep
    refine ⟨ops ++ [op'], b, ?_, hb⟩
    rw [exec_append, hops]
    exact exec_of_step hop rfl
  | inr hsame => exact ⟨ops, b, hsame.1 ▸ hops, hb⟩

/-- Every run on Windows is a run on POSIX threads with the same queue, the same tasks accepted, taken and finished,
the same owner of the mutex, flag and calls; a worker differs only where it is woken there and in `CondWait` here. -/
theorem windows_refines (nThreadNum : ℤ) (processors : ℕ) (ops : List ThreadPoolOp) (s : WindowsPool)
    (hs : exec WindowsPool.step (.new nThreadNum processors) ops = some s) :
    ∃ ops' a, exec ThreadPool.step (.new nThreadNum processors) ops' = some a ∧ Refines s a := by
  have hmade : Made nThreadNum processors s :=
    invariant_of_exec (fun _ _ _ h ht => made_step h (windowsPass_of_step ht)) made_new hs
  exact hmade

end Runs

/-- Two workers wait, a task is queued and its signal sent, and the first worker is let go by the event. -/
def signalSample : List ThreadPoolOp :=
  [.run, .startThread, .startThread, .startThread] ++ List.replicate 5 (.work 0) ++ List.replicate 5 (.work 1) ++
    .pushTask false :: List.replicate 6 (.stepPush 0 0) ++ [.work 0]

theorem signalSample_isSome : (exec WindowsPool.step (.new 2 8) signalSample).isSome = true := by decide +kernel

def signalEnd : WindowsPool := (exec WindowsPool.step (.new 2 8) signalSample).get signalSample_isSome

theorem windows_refines_signal : signalEnd.pool.accepted = [0] ∧
    ∃ ops' a, exec ThreadPool.step (.new 2 8) ops' = some a ∧ Refines signalEnd a :=
  ⟨by decide +kernel, windows_refines 2 8 signalSample signalEnd (Option.some_get _).symm⟩

end WindowsPool

end Chaos
