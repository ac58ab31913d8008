import Chaos.EventCentre

/-!
# The pool of centres

`EventCentrePool` of `net/Event.cpp` over the `ThreadPool` of `thread/ThreadPool.cpp`. The calls of `Start`,
the `Work` tasks, `Stop` and `RegisterEvent` run on threads of their own: a step is what one of them does
between two points where another one can step in. The centre of a `Work` is a local of it, its address is the
number of the `Work`; the counter of the tasks is one for all pools.
-/
namespace Chaos

/-- Where a `Work` is; in `starting` and `reporting` it is in the branch of the last task to count. -/
inductive WorkPc where
  | pushing
  | counting
  | starting
  | reporting
  | entering
  | looping
  | ended
  | returned
  deriving DecidableEq, Repr

/-- A `Work` with what its centre says: `m_isInit` and `m_running`. -/
structure Work where
  isInit : Bool
  pc : WorkPc
  running : Bool
  deriving DecidableEq, Repr

/-- Where a call of `Start` is: it has tasks left to push, or waits on the condition variable. -/
inductive StartPc where
  | pushing (left : ℕ)
  | waiting
  | returned
  deriving DecidableEq, Repr

/-- A call of `Start`, with or without a callback. -/
structure StartCall where
  cb : Bool
  pc : StartPc
  deriving DecidableEq, Repr

/-- Who has the mutex and goes through `m_centres`: the centres ahead, and `pCentre` of `RegisterEvent`. -/
inductive Walk where
  | stop (rest : List ℕ)
  | register (rest : List ℕ) (pCentre : Option ℕ)
  deriving DecidableEq, Repr

/-- `poolRunning` and `queued` are of the thread pool. `checked` and `chosen` are the calls of `RegisterEvent`
that have seen `m_started` and those that have chosen a centre. What follows is only noted: how long `m_centres`
was at each call of the callback, how many signals were sent, and whether a `Stop` has returned since the last
`Start`. -/
structure CentrePool where
  threadNum : ℕ
  started : Bool
  startedCb : Bool
  poolRunning : Bool
  queued : ℕ
  works : List Work
  centres : List ℕ
  starts : List StartCall
  walk : Option Walk
  checked : ℕ
  chosen : List ℕ
  calls : List ℕ
  signals : ℕ
  stopped : Bool

inductive PoolOp where
  | start (cb : Bool)
  | pushTask (k : ℕ)
  | startEnd (k : ℕ)
  | wake (k : ℕ)
  | begin (isInit : Bool)
  | pushCentre (i : ℕ)
  | count (i : ℕ)
  | setStarted (i : ℕ)
  | report (i k : ℕ)
  | enterLoop (i : ℕ)
  | leave (i : ℕ)
  | fail (i : ℕ)
  | exit (i : ℕ)
  | return (i : ℕ)
  | stopBegin
  | stopVisit
  | stopEnd
  | registerCheck
  | registerBegin
  | registerVisit (less : Bool)
  | registerEnd
  | registerCall (c : ℕ)
  | poolStop
  deriving DecidableEq, Repr

namespace CentrePool

variable (s : CentrePool)

def new (threadNum : ℕ) : CentrePool :=
  ⟨threadNum, false, false, false, 0, [], [], [], none, 0, [], [], 0, false⟩

def setWork (i : ℕ) (w : Work) : CentrePool := { s with works := s.works.set i w }

def setStart (k : ℕ) (call : StartCall) : CentrePool := { s with starts := s.starts.set k call }

/-- What the `Work` does when it is there. -/
def onWork {α : Type} (i : ℕ) (pc : WorkPc) (next : Work → Option α) : Option α :=
  s.works[i]?.bind fun w => if w.pc = pc then next w else none

/-- What the `Work` does whose local the centre is, when it has not returned. -/
def onCentre {α : Type} (c : ℕ) (next : Work → Option α) : Option α :=
  s.works[c]?.bind fun w => if w.pc = .returned then none else next w

def onStart {α : Type} (k : ℕ) (pc : StartPc) (next : StartCall → Option α) : Option α :=
  s.starts[k]?.bind fun call => if call.pc = pc then next call else none

/-- `EventCentrePool::Start` up to its loop. -/
def start (cb : Bool) : CentrePool :=
  if s.started then { s with starts := s.starts ++ [⟨cb, .returned⟩] }
  else { s with
    poolRunning := true
    starts := s.starts ++ [⟨cb, .pushing s.threadNum⟩]
    stopped := false }

/-- `ThreadPool::PushTask`. -/
def pushTask : CentrePool := if s.poolRunning then { s with queued := s.queued + 1 } else s

/-- The end of `Start`: the callback is stored, or the call locks the mutex and waits. -/
def startEnd (k : ℕ) (call : StartCall) : Option CentrePool :=
  if call.cb then some ({ s with startedCb := true }.setStart k { call with pc := .returned })
  else if s.walk = none then some (s.setStart k { call with pc := .waiting })
  else none

/-- How many threads are in a task. -/
def busy : ℕ := s.works.countP fun w => w.pc ≠ .returned

/-- A thread takes a task; whether `Init` of the new centre succeeds is given. -/
def begin (isInit : Bool) : Option CentrePool :=
  if s.poolRunning ∧ 0 < s.queued ∧ s.busy < s.threadNum then
    some { s with queued := s.queued - 1, works := s.works ++ [⟨isInit, .pushing, false⟩] }
  else none

/-- `CondSignal` wakes one of the calls that wait. -/
def signal (k : ℕ) : Option CentrePool :=
  let t := { s with signals := s.signals + 1 }
  if s.starts.all fun call => call.pc ≠ .waiting then some t
  else s.onStart k .waiting fun call => some (t.setStart k { call with pc := .returned })

/-- The last part of the branch of `Work`. -/
def report (k : ℕ) : Option CentrePool :=
  if s.startedCb then some { s with calls := s.calls ++ [s.centres.length] } else s.signal k

/-- `EventCentre::EventLoop` up to its loop. -/
def enterLoop (i : ℕ) (w : Work) : CentrePool :=
  if !w.isInit then s.setWork i { w with pc := .ended }
  else if w.running then s.setWork i { w with pc := .ended }
  else s.setWork i { w with pc := .looping, running := true }

/-- A choice of `RegisterEvent` between `pCentre` and the next centre, which is taken when it has less events. -/
def choose (pCentre : Option ℕ) (c : ℕ) (less : Bool) : ℕ :=
  match pCentre with
  | none => c
  | some q => if less then c else q

/-- A step of a pool, with the counter of the tasks. -/
def step (worked : ℤ) (s : CentrePool) : PoolOp → Option (ℤ × CentrePool)
  | .start cb => some (worked, s.start cb)
  | .pushTask k => s.starts[k]?.bind fun call => match call.pc with
    | .pushing (left + 1) => some (worked, s.pushTask.setStart k { call with pc := .pushing left })
    | _ => none
  | .startEnd k => s.onStart k (.pushing 0) fun call => (s.startEnd k call).map fun t => (worked, t)
  | .wake k => s.onStart k .waiting fun call => some (worked, s.setStart k { call with pc := .returned })
  | .begin isInit => (s.begin isInit).map fun t => (worked, t)
  | .pushCentre i => s.onWork i .pushing fun w =>
      if s.walk = none then
        some (worked, { s with centres := s.centres ++ [i] }.setWork i { w with pc := .counting })
      else none
  | .count i => s.onWork i .counting fun w =>
      let worked := intAdd worked 1
      some (worked, s.setWork i { w with pc := if s.threadNum ≤ worked then .starting else .entering })
  | .setStarted i => s.onWork i .starting fun w =>
      some (worked, { s with started := true }.setWork i { w with pc := .reporting })
  | .report i k => s.onWork i .reporting fun w =>
      (s.report k).map fun t => (worked, t.setWork i { w with pc := .entering })
  | .enterLoop i => s.onWork i .entering fun w => some (worked, s.enterLoop i w)
  | .leave i => s.onWork i .looping fun w =>
      if w.running then none else some (worked, s.setWork i { w with pc := .ended })
  | .fail i => s.onWork i .looping fun w => some (worked, s.setWork i { w with pc := .ended, running := false })
  | .exit i => s.onWork i .looping fun w => some (worked, s.setWork i { w with running := false })
  | .return i => s.onWork i .ended fun w => some (worked, s.setWork i { w with pc := .returned })
  | .stopBegin => if s.walk = none then some (worked, { s with walk := some (.stop s.centres) }) else none
  | .stopVisit => match s.walk with
    | some (.stop (c :: rest)) => s.onCentre c fun w =>
        some (worked, { s with walk := some (.stop rest) }.setWork c { w with running := false })
    | _ => none
  | .stopEnd => if s.walk = some (.stop []) then
      some (worked, { s with started := false, walk := none, stopped := true }) else none
  | .registerCheck => if s.started then some (worked, { s with checked := s.checked + 1 }) else some (worked, s)
  | .registerBegin => if 0 < s.checked ∧ s.walk = none then
      some (worked, { s with checked := s.checked - 1, walk := some (.register s.centres none) }) else none
  | .registerVisit less => match s.walk with
    | some (.register (c :: rest) pCentre) => s.onCentre c fun _ => s.onCentre (pCentre.getD c) fun _ =>
        some (worked, { s with walk := some (.register rest (some (choose pCentre c less))) })
    | _ => none
  | .registerEnd => match s.walk with
    | some (.register [] pCentre) => some (worked, { s with walk := none, chosen := s.chosen ++ pCentre.toList })
    | _ => none
  | .registerCall c => if c ∈ s.chosen then s.onCentre c fun _ =>
      some (worked, { s with chosen := s.chosen.erase c }) else none
  | .poolStop => some (worked, { s with poolRunning := false })

end CentrePool

/-- The pools of a process with the counter of `Work`. -/
structure PoolProcess where
  worked : ℤ
  pools : ℕ → CentrePool

def PoolProcess.start (threadNums : ℕ → ℕ) : PoolProcess := ⟨0, fun i => .new (threadNums i)⟩

/-- A step of one of the pools. -/
def poolStep (s : PoolProcess) (op : ℕ × PoolOp) : Option PoolProcess :=
  ((s.pools op.1).step s.worked op.2).map fun r => ⟨r.1, Function.update s.pools op.1 r.2⟩

end Chaos
