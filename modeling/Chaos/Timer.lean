import Chaos.Events
import Chaos.MinHeap
import Chaos.Word32

/-!
# The timer of a centre

`net/Timer.h` and `net/Timer.cpp`. The heap holds weak pointers and `TimerCmp` reads the deadlines
through them; `m_timerMap` is a list of ids and pointers. `Launch` is its loop body `launchIter`, run
until it has nothing to do; a pass takes the clock reading that `SetNextTime` may make in it.
-/
namespace Chaos

open Word32

structure Timer where
  heap : MinHeap ℕ
  timerMap : List (ℕ × ℕ)

/-- `TimerCmp`, false when one of the two is expired. -/
def timerCmp (o : Objects) (l r : ℕ) : Bool :=
  match o.store l, o.store r with
  | some l, some r => decide (l.nextTime < r.nextTime)
  | _, _ => false

namespace Timer

def new : Timer := ⟨.new, []⟩

def push (t : Timer) (o : Objects) (p : ℕ) : Timer := { t with heap := t.heap.push (timerCmp o) p }

def pop (t : Timer) (o : Objects) : Timer := { t with heap := t.heap.pop (timerCmp o) }

/-- `AddTimer`, `none` when it answers -1; the caller writes the eventfd. -/
def addTimer (o : Objects) (t : Timer) (p : ℕ) : Option (Objects × Timer) :=
  match o.store p with
  | none => none
  | some e =>
    if (t.timerMap.lookup e.evKey).isSome then none
    else some ({ o.addOwner p with curTimers := add32 o.curTimers 1 },
      { t.push o p with timerMap := (e.evKey, p) :: t.timerMap })

/-- `DelTimer` of the object `e`: the pointer that was erased with its key is left to the caller to
release, who may still hold it. The counter goes down whether or not the key was there. -/
def delTimer (o : Objects) (t : Timer) (e : Event) : Objects × Timer × Option ℕ :=
  let erased := t.timerMap.lookup e.evKey
  let o := match erased with
    | some q => o.dropOwner q
    | none => o
  ({ o with curTimers := sub32 o.curTimers 1 },
    { t with timerMap := t.timerMap.filter fun entry => entry.1 != e.evKey }, erased)

/-- `SetNextTime` with the clock at `clk`. -/
def setNextTime (o : Objects) (p clk : ℕ) : Objects :=
  o.modify p fun e => { e with nextTime := clk + e.timeoutMs }

structure LaunchState where
  objs : Objects
  timer : Timer
  active : List ℕ

/-- `SetNextTime` and `Push` again, then `Pop`. -/
def launchLoopTimer (clk : ℕ) (s : LaunchState) (p : ℕ) : LaunchState :=
  let o := setNextTime s.objs p clk
  { s with objs := o, timer := (s.timer.push o p).pop o }

/-- The objects after `DelTimer` of `p` while `Launch` holds it: an erased entry of another object with
the same id is released at once. -/
def afterErase (o : Objects) (t : Timer) (p : ℕ) (e : Event) : Objects :=
  match (delTimer o t e).2.2 with
  | some q => if q = p then (delTimer o t e).1 else (delTimer o t e).1.release q
  | none => (delTimer o t e).1

/-- `DelTimer`, `Pop`, and the release of the object that `Launch` held. -/
def launchDelTimer (s : LaunchState) (p : ℕ) (e : Event) : LaunchState :=
  let o := afterErase s.objs s.timer p e
  { s with objs := o.release p, timer := (delTimer s.objs s.timer e).2.1.pop o }

/-- One pass of the loop of `Launch`, `none` when it ends. -/
def launchIter (now : ℕ) (s : LaunchState) (clk : ℕ) : Option LaunchState :=
  match s.timer.heap.front with
  | none => none
  | some p =>
    match s.objs.store p with
    | none => some { s with timer := s.timer.pop s.objs }
    | some e =>
      if now < e.nextTime then none
      else if e.isSuspend then
        if e.isLoop then some (launchLoopTimer clk s p) else some (launchDelTimer s p e)
      else
        let s := { s with active := s.active ++ [p] }
        if e.isLoop then some (launchLoopTimer clk s p)
        else some { s with timer := s.timer.pop s.objs }

/-- What one pass of `Launch` does. -/
inductive LaunchPass (now clk : ℕ) (s : LaunchState) : LaunchState → Prop
  | expired {p : ℕ} (hfront : s.timer.heap.front = some p) (hp : s.objs.store p = none) :
    LaunchPass now clk s { s with timer := s.timer.pop s.objs }
  | rearm {p : ℕ} {e : Event} (hfront : s.timer.heap.front = some p) (hp : s.objs.store p = some e)
    (hdue : e.nextTime ≤ now) (hloop : e.isLoop = true) :
    LaunchPass now clk s (launchLoopTimer clk
      { s with active := if e.isSuspend then s.active else s.active ++ [p] } p)
  | delete {p : ℕ} {e : Event} (hfront : s.timer.heap.front = some p) (hp : s.objs.store p = some e)
    (hdue : e.nextTime ≤ now) (hloop : e.isLoop = false) (hsuspend : e.isSuspend = true) :
    LaunchPass now clk s (launchDelTimer s p e)
  | once {p : ℕ} {e : Event} (hfront : s.timer.heap.front = some p) (hp : s.objs.store p = some e)
    (hdue : e.nextTime ≤ now) (hloop : e.isLoop = false) (hsuspend : e.isSuspend = false) :
    LaunchPass now clk s { s with active := s.active ++ [p], timer := s.timer.pop s.objs }

theorem launchPass_of_launchIter {now clk : ℕ} {s s' : LaunchState}
    (h : launchIter now s clk = some s') : LaunchPass now clk s s' := by
  rw [launchIter] at h
  cases hfront : s.timer.heap.front with
  | none => simp [hfront] at h
  | some p =>
    cases hp : s.objs.store p with
    | none =>
      simp only [hfront, hp, Option.some.injEq] at h
      exact h ▸ .expired hfront hp
    | some e =>
      simp only [hfront, hp] at h
      split_ifs at h with hdue hsuspend hloop hloop
      · rw [← Option.some.inj h]
        have hpass := @LaunchPass.rearm now clk _ _ _ hfront hp (Nat.le_of_not_lt hdue) hloop
        rwa [if_pos hsuspend] at hpass
      · rw [← Option.some.inj h]
        exact .delete hfront hp (Nat.le_of_not_lt hdue) (Bool.eq_false_iff.mpr hloop) hsuspend
      · rw [← Option.some.inj h]
        have hpass := @LaunchPass.rearm now clk _ _ _ hfront hp (Nat.le_of_not_lt hdue) hloop
        rwa [if_neg hsuspend] at hpass
      · rw [← Option.some.inj h]
        exact .once hfront hp (Nat.le_of_not_lt hdue) (Bool.eq_false_iff.mpr hloop)
          (Bool.eq_false_iff.mpr hsuspend)

/-- `Launch` ends at an empty heap or at a live root that is not due. -/
theorem launchIter_eq_none {now clk : ℕ} {s : LaunchState} (h : launchIter now s clk = none) :
    s.timer.heap.heap = [] ∨ ∃ p e, s.timer.heap.front = some p ∧ s.objs.store p = some e ∧
      now < e.nextTime := by
  rw [launchIter] at h
  cases hfront : s.timer.heap.front with
  | none => exact Or.inl (List.head?_eq_none_iff.mp hfront)
  | some p =>
    cases hp : s.objs.store p with
    | none => simp [hfront, hp] at h
    | some e =>
      simp only [hfront, hp] at h
      split_ifs at h with hdue
      exact Or.inr ⟨p, e, rfl, hp, hdue⟩

/-- `GetNextTimeout` with the clock at `clk`: -1 without timers, 0 for an expired or due front. -/
def getNextTimeout (o : Objects) (t : Timer) (clk : ℕ) : ℤ :=
  match t.heap.front with
  | none => -1
  | some p =>
    match o.store p with
    | none => 0
    | some e =>
      let timeout := ((e.nextTime : ℤ) - clk).bmod 4294967296
      if timeout > 0 then timeout else 0

end Timer

end Chaos
