import Mathlib.Data.Int.Order.Basic

/-!
# The thread pool

`ThreadPool` of `thread/ThreadPool.cpp` and `Thread` of `thread/Thread.cpp` over POSIX threads, with one mutex and
one condition variable. The workers and the calls of `PushTask` and `Stop` run on threads of their own; `Run` and
the destructor are called by one thread, when no call of `Stop` is going on; `pthread_create` succeeds. A step is
what a thread does between two points where another one can step in. A task is the number of the call of `PushTask`
that brought it.
-/
namespace Chaos

/-- Where a worker is in `PoolWorkFunc`. In `checking` it is at the inner loop, in `testing` at the test of
`m_running` that follows. -/
inductive WorkerPc where
  | unstarted
  | outer
  | locking
  | checking
  | waiting
  | blocked
  | woken
  | testing
  | taking
  | running (task : ℕ)
  | left
  deriving DecidableEq, Repr

/-- Where a call of `PushTask` is, of a null task or not. -/
inductive PushPc where
  | called (null : Bool)
  | refused
  | locking
  | emplacing
  | signalling
  | returned
  deriving DecidableEq, Repr

/-- Where a call of `Stop` is; it joins the threads one after the other. -/
inductive StopPc where
  | locking
  | testing
  | broadcasting
  | joining (j : ℕ)
  | returned
  deriving DecidableEq, Repr

/-- Where the thread is that calls `Run` and the destructor. -/
inductive CallerPc where
  | idle
  | starting (j : ℕ)
  | joining (j : ℕ)
  | destroyed
  deriving DecidableEq, Repr

/-- Who can have the mutex. -/
inductive Owner where
  | worker (i : ℕ)
  | push (k : ℕ)
  | stop (c : ℕ)
  deriving DecidableEq, Repr

/-- What follows `caller` is only noted: the tasks that were queued, taken and finished, in this order each,
whether a `Run` has succeeded, and whether `Stop` was called after it. -/
structure ThreadPool where
  workers : List WorkerPc
  queue : List ℕ
  owner : Option Owner
  running : Bool
  pushes : List PushPc
  stops : List StopPc
  caller : CallerPc
  accepted : List ℕ
  taken : List ℕ
  finished : List ℕ
  ran : Bool
  stopCalled : Bool
  deriving DecidableEq, Repr

/-- `work` and `stepStop` are the next step of a worker and of a call of `Stop`; `stepPush` is the one of a call of
`PushTask`, and `j` the worker that its signal wakes. -/
inductive ThreadPoolOp where
  | run
  | startThread
  | work (i : ℕ)
  | pushTask (null : Bool)
  | stepPush (k j : ℕ)
  | stop
  | stepStop (c : ℕ)
  | destroy
  | destroyJoin
  deriving DecidableEq, Repr

namespace ThreadPool

/-- `m_threadNum`, with the processors online. -/
def threadNum (nThreadNum : ℤ) (processors : ℕ) : ℕ :=
  if 0 ≥ nThreadNum then processors else nThreadNum.toNat

def new (nThreadNum : ℤ) (processors : ℕ) : ThreadPool :=
  ⟨List.replicate (threadNum nThreadNum processors) .unstarted, [], none, false, [], [], .idle, [], [], [],
    false, false⟩

variable (s : ThreadPool)

def setWorker (i : ℕ) (pc : WorkerPc) : ThreadPool := { s with workers := s.workers.set i pc }

def setPush (k : ℕ) (pc : PushPc) : ThreadPool := { s with pushes := s.pushes.set k pc }

def setStop (c : ℕ) (pc : StopPc) : ThreadPool := { s with stops := s.stops.set c pc }

/-- `Mutex::Lock` of a thread that has not the mutex. -/
def lock (o : Owner) : Option ThreadPool :=
  if s.owner = none then some { s with owner := some o } else none

def unlock : ThreadPool := { s with owner := none }

/-- `CondSignal` wakes `j`, one of those who wait, if there is any. -/
def condSignal (j : ℕ) : Option ThreadPool :=
  if s.workers[j]? = some .blocked then some (s.setWorker j .woken)
  else if .blocked ∈ s.workers then none
  else some s

def wake : WorkerPc → WorkerPc
  | .blocked => .woken
  | pc => pc

def condBroadCast : ThreadPool := { s with workers := s.workers.map wake }

/-- The front of the queue is popped into `task`. -/
def pop (task : ℕ) (rest : List ℕ) : ThreadPool := { s with queue := rest, taken := s.taken ++ [task] }

def finish (task : ℕ) : ThreadPool := { s with finished := s.finished ++ [task] }

def emplace (k : ℕ) : ThreadPool := { s with queue := s.queue ++ [k], accepted := s.accepted ++ [k] }

/-- What a worker does next in `PoolWorkFunc`; who waits can wake at any time. -/
def work (i : ℕ) : WorkerPc → Option ThreadPool
  | .unstarted | .left => none
  | .outer => some (s.setWorker i (if s.running then .locking else .left))
  | .locking | .woken => (s.lock (.worker i)).map fun t => t.setWorker i .checking
  | .checking => some (s.setWorker i (if s.queue = [] ∧ s.running then .waiting else .testing))
  | .waiting => some (s.unlock.setWorker i .blocked)
  | .blocked => some (s.setWorker i .woken)
  | .testing => some (if s.running then s.setWorker i .taking else s.unlock.setWorker i .outer)
  | .taking => match s.queue with
    | [] => none
    | task :: rest => some ((s.pop task rest).unlock.setWorker i (.running task))
  | .running task => some ((s.finish task).setWorker i .outer)

/-- What a call of `PushTask` does next. -/
def stepPush (k j : ℕ) : PushPc → Option ThreadPool
  | .called null => some (s.setPush k (if null || !s.running then .refused else .locking))
  | .locking => (s.lock (.push k)).map fun t => t.setPush k .emplacing
  | .emplacing => some ((s.emplace k).setPush k .signalling)
  | .signalling => (s.condSignal j).map fun t => t.unlock.setPush k .returned
  | .refused | .returned => none

/-- `Thread::Join` of the thread comes to its end, at once when it was joined before. -/
def joins (j : ℕ) : Bool := s.workers[j]? = some .left

/-- What a call of `Stop` does next. -/
def stepStop (c : ℕ) : StopPc → Option ThreadPool
  | .locking => (s.lock (.stop c)).map fun t => t.setStop c .testing
  | .testing => some (if s.running then { s with running := false }.setStop c .broadcasting
      else s.unlock.setStop c .returned)
  | .broadcasting => some (s.condBroadCast.unlock.setStop c (.joining 0))
  | .joining j =>
    if s.workers.length ≤ j then some (s.setStop c .returned)
    else if s.joins j then some (s.setStop c (.joining (j + 1)))
    else none
  | .returned => none

/-- `Run` up to its loop. -/
def run : ThreadPool :=
  if s.running then s else { s with running := true, ran := true, caller := .starting 0 }

/-- `Thread::Start` of one thread, which fails for one that was started before. -/
def startThread (j : ℕ) : ThreadPool :=
  if s.workers.length ≤ j then { s with caller := .idle }
  else if s.workers[j]? = some .unstarted then { s.setWorker j .outer with caller := .starting (j + 1) }
  else { s with caller := .starting (j + 1) }

/-- One join of `~ThreadPool` or, when `m_running` is not set, of `~Thread` for a thread that was started. -/
def destroyJoin (j : ℕ) : Option ThreadPool :=
  if s.workers.length ≤ j then some { s with caller := .destroyed }
  else if s.joins j || s.workers[j]? = some .unstarted then some { s with caller := .joining (j + 1) }
  else none

/-- No call of `Stop` is going on. -/
def stopsReturned : Bool := s.stops.all fun pc => pc = .returned

def pushesReturned : Bool := s.pushes.all fun pc => pc = .returned || pc = .refused

def step : ThreadPoolOp → Option ThreadPool
  | .run => if s.caller = .idle ∧ s.stopsReturned then some s.run else none
  | .startThread => match s.caller with
    | .starting j => some (s.startThread j)
    | _ => none
  | .work i => s.workers[i]?.bind (s.work i)
  | .pushTask null =>
    if s.caller = .destroyed then none else some { s with pushes := s.pushes ++ [.called null] }
  | .stepPush k j => s.pushes[k]?.bind (s.stepPush k j)
  | .stop => if s.caller = .idle then some { s with stops := s.stops ++ [.locking], stopCalled := s.ran } else none
  | .stepStop c => s.stops[c]?.bind (s.stepStop c)
  | .destroy =>
    if s.caller = .idle ∧ s.stopsReturned ∧ s.pushesReturned then some { s with caller := .joining 0 } else none
  | .destroyJoin => match s.caller with
    | .joining j => s.destroyJoin j
    | _ => none

end ThreadPool

end Chaos
