import Chaos.ThreadPoolSteps
import Mathlib.Logic.Function.Basic

/-!
# The thread pool on Windows

`Condition` of `thread/Condition.h` is built there from a manual-reset event, a count of those who wait and a note of
what was sent last. `CondWait` gives the mutex back before it waits and takes it again behind; in between it does one
access after the other while others go on. A wait on the event can end as long as the event is set. The rest of the
pool is as on POSIX threads: `WorkerPc.blocked` is everything between `UnLock` and `Lock` in `CondWait`,
`PushPc.signalling` and `StopPc.broadcasting` are the calls of `CondSignal` and `CondBroadCast`.
-/
namespace Chaos

inductive CondState where
  | csCondNormal
  | csCondBroadcast
  | csCondSingle
  deriving DecidableEq, Repr

structure Condition where
  cond : Bool
  waitThreadNum : ℤ
  state : CondState
  deriving DecidableEq, Repr

/-- The next access of `CondWait` between `UnLock` and `Lock`; the three reads are those of its test. -/
inductive CondWaitPc where
  | count
  | wait
  | uncount
  | readSingle
  | readBroadcast
  | readCount
  | resetEvent
  | storeNormal
  deriving DecidableEq, Repr

inductive CondSignalPc where
  | readBroadcast
  | storeSingle
  | setEvent
  deriving DecidableEq, Repr

inductive CondBroadCastPc where
  | storeBroadcast
  | setEvent
  deriving DecidableEq, Repr

/-- `waitPc`, `signalPc` and `broadCastPc` say where the workers and the calls of `PushTask` and `Stop` are in the
functions of the condition, as far as they are in one. -/
structure WindowsPool where
  pool : ThreadPool
  cond : Condition
  waitPc : ℕ → CondWaitPc
  signalPc : ℕ → CondSignalPc
  broadCastPc : ℕ → CondBroadCastPc

namespace WindowsPool

def new (nThreadNum : ℤ) (processors : ℕ) : WindowsPool :=
  ⟨.new nThreadNum processors, ⟨false, 0, .csCondNormal⟩, fun _ => .count, fun _ => .readBroadcast,
    fun _ => .storeBroadcast⟩

variable (s : WindowsPool)

/-- The worker goes on inside `CondWait`. -/
def goWait (i : ℕ) (pc : CondWaitPc) (cond : Condition) : WindowsPool :=
  { s with cond := cond, waitPc := Function.update s.waitPc i pc }

/-- It comes to the `Lock` at the end. -/
def endWait (i : ℕ) (cond : Condition) : WindowsPool :=
  { s with cond := cond, pool := s.pool.setWorker i .woken }

/-- `CondWait`, whose loop is left after one turn: a wait without an end does not time out. -/
def condWait (i : ℕ) : CondWaitPc → Option WindowsPool
  | .count => some (s.goWait i .wait { s.cond with waitThreadNum := s.cond.waitThreadNum + 1 })
  | .wait => if s.cond.cond then some (s.goWait i .uncount s.cond) else none
  | .uncount => some (s.goWait i .readSingle { s.cond with waitThreadNum := s.cond.waitThreadNum - 1 })
  | .readSingle => some (s.goWait i (if s.cond.state = .csCondSingle then .resetEvent else .readBroadcast) s.cond)
  | .readBroadcast =>
    some (if s.cond.state = .csCondBroadcast then s.goWait i .readCount s.cond else s.endWait i s.cond)
  | .readCount => some (if s.cond.waitThreadNum = 0 then s.goWait i .resetEvent s.cond else s.endWait i s.cond)
  | .resetEvent => some (s.goWait i .storeNormal { s.cond with cond := false })
  | .storeNormal => some (s.endWait i { s.cond with state := .csCondNormal })

/-- `PushTask` returns. -/
def endSignal (k : ℕ) (cond : Condition) : WindowsPool :=
  { s with cond := cond, pool := s.pool.unlock.setPush k .returned }

def goSignal (k : ℕ) (pc : CondSignalPc) (cond : Condition) : WindowsPool :=
  { s with cond := cond, signalPc := Function.update s.signalPc k pc }

def condSignal (k : ℕ) : CondSignalPc → WindowsPool
  | .readBroadcast =>
    if s.cond.state = .csCondBroadcast then s.endSignal k s.cond else s.goSignal k .storeSingle s.cond
  | .storeSingle => s.goSignal k .setEvent { s.cond with state := .csCondSingle }
  | .setEvent => s.endSignal k { s.cond with cond := true }

def condBroadCast (c : ℕ) : CondBroadCastPc → WindowsPool
  | .storeBroadcast => { s with
      cond := { s.cond with state := .csCondBroadcast }
      broadCastPc := Function.update s.broadCastPc c .setEvent }
  | .setEvent => { s with
      cond := { s.cond with cond := true }
      pool := s.pool.unlock.setStop c (.joining 0) }

/-- A step that the condition has no part in. -/
def plain (op : ThreadPoolOp) : Option WindowsPool := (s.pool.step op).map fun p => { s with pool := p }

/-- The steps of the pool; the signal of a `stepPush` names no worker here. -/
def step : ThreadPoolOp → Option WindowsPool
  | .work i => match s.pool.workers[i]? with
    | some .waiting => some { s with
        pool := s.pool.unlock.setWorker i .blocked
        waitPc := Function.update s.waitPc i .count }
    | some .blocked => s.condWait i (s.waitPc i)
    | _ => s.plain (.work i)
  | .stepPush k j => match s.pool.pushes[k]? with
    | some .emplacing => some { s with
        pool := (s.pool.emplace k).setPush k .signalling
        signalPc := Function.update s.signalPc k .readBroadcast }
    | some .signalling => some (s.condSignal k (s.signalPc k))
    | _ => s.plain (.stepPush k j)
  | .stepStop c => match s.pool.stops[c]? with
    | some .testing => (s.plain (.stepStop c)).map fun t =>
        { t with broadCastPc := Function.update s.broadCastPc c .storeBroadcast }
    | some .broadcasting => some (s.condBroadCast c (s.broadCastPc c))
    | _ => s.plain (.stepStop c)
  | op => s.plain op

end WindowsPool

/-! ## What a step does -/

/-- The steps of a worker inside `CondWait`. -/
inductive WaitMove (cond : Condition) : CondWaitPc → CondWaitPc → Condition → Prop where
  | count : WaitMove cond .count .wait { cond with waitThreadNum := cond.waitThreadNum + 1 }
  | wait (h : cond.cond = true) : WaitMove cond .wait .uncount cond
  | uncount : WaitMove cond .uncount .readSingle { cond with waitThreadNum := cond.waitThreadNum - 1 }
  | single (h : cond.state = .csCondSingle) : WaitMove cond .readSingle .resetEvent cond
  | notSingle (h : cond.state ≠ .csCondSingle) : WaitMove cond .readSingle .readBroadcast cond
  | broadcast (h : cond.state = .csCondBroadcast) : WaitMove cond .readBroadcast .readCount cond
  | last (h : cond.waitThreadNum = 0) : WaitMove cond .readCount .resetEvent cond
  | resetEvent : WaitMove cond .resetEvent .storeNormal { cond with cond := false }

/-- Its steps to the end. -/
inductive WaitEnd (cond : Condition) : CondWaitPc → Condition → Prop where
  | notBroadcast (h : cond.state ≠ .csCondBroadcast) : WaitEnd cond .readBroadcast cond
  | notLast (h : cond.waitThreadNum ≠ 0) : WaitEnd cond .readCount cond
  | storeNormal : WaitEnd cond .storeNormal { cond with state := .csCondNormal }

/-- The condition has no part in the step. -/
def WindowsPool.Plain (s : WindowsPool) : ThreadPoolOp → Prop
  | .work i => s.pool.workers[i]? ≠ some .waiting ∧ s.pool.workers[i]? ≠ some .blocked
  | .stepPush k _ => s.pool.pushes[k]? ≠ some .emplacing ∧ s.pool.pushes[k]? ≠ some .signalling
  | .stepStop c => s.pool.stops[c]? ≠ some .testing ∧ s.pool.stops[c]? ≠ some .broadcasting
  | _ => True

open WindowsPool

inductive WindowsPass (s : WindowsPool) : ThreadPoolOp → WindowsPool → Prop where
  | plain {op : ThreadPoolOp} {p : ThreadPool} (hplain : s.Plain op) (hp : ThreadPoolPass s.pool op p) :
      WindowsPass s op { s with pool := p }
  | enters {i : ℕ} (hi : s.pool.workers[i]? = some .waiting) : WindowsPass s (.work i)
      { s with pool := s.pool.unlock.setWorker i .blocked, waitPc := Function.update s.waitPc i .count }
  | goes {i : ℕ} {pc : CondWaitPc} {cond : Condition} (hi : s.pool.workers[i]? = some .blocked)
      (hmove : WaitMove s.cond (s.waitPc i) pc cond) : WindowsPass s (.work i) (s.goWait i pc cond)
  | leaves {i : ℕ} {cond : Condition} (hi : s.pool.workers[i]? = some .blocked)
      (hend : WaitEnd s.cond (s.waitPc i) cond) : WindowsPass s (.work i) (s.endWait i cond)
  | emplace {k j : ℕ} (hk : s.pool.pushes[k]? = some .emplacing) : WindowsPass s (.stepPush k j)
      { s with
        pool := (s.pool.emplace k).setPush k .signalling
        signalPc := Function.update s.signalPc k .readBroadcast }
  | skips {k j : ℕ} (hk : s.pool.pushes[k]? = some .signalling) (hpc : s.signalPc k = .readBroadcast)
      (hstate : s.cond.state = .csCondBroadcast) : WindowsPass s (.stepPush k j) (s.endSignal k s.cond)
  | reads {k j : ℕ} (hk : s.pool.pushes[k]? = some .signalling) (hpc : s.signalPc k = .readBroadcast)
      (hstate : s.cond.state ≠ .csCondBroadcast) :
      WindowsPass s (.stepPush k j) (s.goSignal k .storeSingle s.cond)
  | storeSingle {k j : ℕ} (hk : s.pool.pushes[k]? = some .signalling) (hpc : s.signalPc k = .storeSingle) :
      WindowsPass s (.stepPush k j) (s.goSignal k .setEvent { s.cond with state := .csCondSingle })
  | signal {k j : ℕ} (hk : s.pool.pushes[k]? = some .signalling) (hpc : s.signalPc k = .setEvent) :
      WindowsPass s (.stepPush k j) (s.endSignal k { s.cond with cond := true })
  | test {c : ℕ} {p : ThreadPool} (hc : s.pool.stops[c]? = some .testing)
      (hp : ThreadPoolPass s.pool (.stepStop c) p) : WindowsPass s (.stepStop c)
      { s with pool := p, broadCastPc := Function.update s.broadCastPc c .storeBroadcast }
  | storeBroadcast {c : ℕ} (hc : s.pool.stops[c]? = some .broadcasting) (hpc : s.broadCastPc c = .storeBroadcast) :
      WindowsPass s (.stepStop c) { s with
        cond := { s.cond with state := .csCondBroadcast }
        broadCastPc := Function.update s.broadCastPc c .setEvent }
  | broadcast {c : ℕ} (hc : s.pool.stops[c]? = some .broadcasting) (hpc : s.broadCastPc c = .setEvent) :
      WindowsPass s (.stepStop c) { s with
        cond := { s.cond with cond := true }
        pool := s.pool.unlock.setStop c (.joining 0) }

section Inversion
variable {s t : WindowsPool} {op : ThreadPoolOp} {i k c j : ℕ}

theorem plain_pass (hplain : s.Plain op) (h : s.plain op = some t) : WindowsPass s op t := by
  obtain ⟨p, hp, rfl⟩ := Option.map_eq_some_iff.mp h
  exact .plain hplain (threadPoolPass_of_step hp)

theorem condWait_pass (hi : s.pool.workers[i]? = some .blocked) (h : s.condWait i (s.waitPc i) = some t) :
    WindowsPass s (.work i) t := by
  cases hpc : s.waitPc i with
  | count =>
    rw [hpc] at h
    cases h
    exact .goes hi (hpc ▸ .count)
  | wait =>
    rw [hpc] at h
    obtain ⟨hset, ht⟩ := Option.ite_none_right_eq_some.mp h
    cases ht
    exact .goes hi (hpc ▸ .wait hset)
  | uncount =>
    rw [hpc] at h
    cases h
    exact .goes hi (hpc ▸ .uncount)
  | readSingle =>
    rw [hpc] at h
    cases h
    split_ifs with hstate
    · exact .goes hi (hpc ▸ .single hstate)
    · exact .goes hi (hpc ▸ .notSingle hstate)
  | readBroadcast =>
    rw [hpc] at h
    cases h
    split_ifs with hstate
    · exact .goes hi (hpc ▸ .broadcast hstate)
    · exact .leaves hi (hpc ▸ .notBroadcast hstate)
  | readCount =>
    rw [hpc] at h
    cases h
    split_ifs with hlast
    · exact .goes hi (hpc ▸ .last hlast)
    · exact .leaves hi (hpc ▸ .notLast hlast)
  | resetEvent =>
    rw [hpc] at h
    cases h
    exact .goes hi (hpc ▸ .resetEvent)
  | storeNormal =>
    rw [hpc] at h
    cases h
    exact .leaves hi (hpc ▸ .storeNormal)

theorem condSignal_pass (hk : s.pool.pushes[k]? = some .signalling) :
    WindowsPass s (.stepPush k j) (s.condSignal k (s.signalPc k)) := by
  cases hpc : s.signalPc k with
  | readBroadcast =>
    rw [condSignal]
    split_ifs with hstate
    · exact .skips hk hpc hstate
    · exact .reads hk hpc hstate
  | storeSingle => exact .storeSingle hk hpc
  | setEvent => exact .signal hk hpc

theorem condBroadCast_pass (hc : s.pool.stops[c]? = some .broadcasting) :
    WindowsPass s (.stepStop c) (s.condBroadCast c (s.broadCastPc c)) := by
  cases hpc : s.broadCastPc c with
  | storeBroadcast => exact .storeBroadcast hc hpc
  | setEvent => exact .broadcast hc hpc

/-- Every step is one of the cases. -/
theorem windowsPass_of_step (h : s.step op = some t) : WindowsPass s op t := by
  cases op with
  | work i =>
    rw [WindowsPool.step] at h
    split at h
    · next hi =>
      cases h
      exact .enters hi
    · next hi => exact condWait_pass hi h
    · next hwaiting hblocked => exact plain_pass ⟨hwaiting, hblocked⟩ h
  | stepPush k j =>
    rw [WindowsPool.step] at h
    split at h
    · next hk =>
      cases h
      exact .emplace hk
    · next hk =>
      cases h
      exact condSignal_pass hk
    · next hemplacing hsignalling => exact plain_pass ⟨hemplacing, hsignalling⟩ h
  | stepStop c =>
    rw [WindowsPool.step] at h
    split at h
    · next hc =>
      obtain ⟨u, hu, rfl⟩ := Option.map_eq_some_iff.mp h
      obtain ⟨p, hp, rfl⟩ := Option.map_eq_some_iff.mp hu
      exact .test hc (threadPoolPass_of_step hp)
    · next hc =>
      cases h
      exact condBroadCast_pass hc
    · next htesting hbroadcasting => exact plain_pass ⟨htesting, hbroadcasting⟩ h
  | run | startThread | pushTask | stop | destroy | destroyJoin => exact plain_pass trivial h

end Inversion

end Chaos
