import Chaos.ThreadPool

/-!
# The pool of database connections

`DBPool` of `db/DBPool.cpp` over its `ThreadPool`. One thread makes the calls of `Start`, `Stop`, `Recover` and the
destructor one after the other, `Query` comes from any thread, and each `Work` task is run by a worker of the thread
pool. What a `Work` does under `m_mutex` between waking up and unlocking is one step; it can wake at any time, since
it waits ten seconds at most. Its test of `m_started`, the lock and the entry into `CondWait` are one step too: a
`Query` between them is one that finds it at its loop, a `Stop` between them as one right behind its entry.
-/
namespace Chaos

/-- The classes behind `DBBase`, `DBT_MYSQL` and `DBT_REDIS` of `DBType`. -/
inductive DBType where
  | mysql
  | redis
  deriving DecidableEq, Repr

/-- Where a `Work` is: `connecting` up to the end of `Connect`, `outer` at the loop over `m_started`. -/
inductive DBWorkPc where
  | connecting
  | counting
  | outer
  | waiting
  | querying (cmd : String)
  | uncounting
  | ended
  deriving DecidableEq, Repr

/-- Where the calling thread is: in the `Run` that `Start` calls, in the loop of `Start` or of `Recover` with the
tasks left to push or in a call of `PushTask`, in the `Stop` that the destructor calls, or in `~ThreadPool`. -/
inductive DBCallerPc where
  | idle
  | running
  | pushing (starting : Bool) (left : ℕ)
  | awaiting (starting : Bool) (left k : ℕ)
  | stopping (c : ℕ)
  | deleting
  deriving DecidableEq, Repr

/-- `works` says of each worker where it is in the `Work` it runs. `startCalled` is only noted. -/
structure DBPool where
  maxConn : ℤ
  dbType : ℤ
  mysqlEnable : Bool
  redisEnable : Bool
  threadPool : ThreadPool
  started : Bool
  liveConnNum : ℤ
  rq : List String
  works : List DBWorkPc
  caller : DBCallerPc
  startCalled : Bool
  deriving DecidableEq, Repr

/-- `thread` is a step of the thread pool, `work` one of the `Work` of a worker, whose connect succeeds or not, and
`workEnd` its return to `PoolWorkFunc`. -/
inductive DBPoolOp where
  | thread (op : ThreadPoolOp)
  | work (i : ℕ) (connected : Bool)
  | workEnd (i : ℕ)
  | start
  | runEnd
  | pushTask
  | pushEnd
  | callEnd
  | stop
  | query (cmd : String)
  | recover
  | destroy
  | delete
  deriving DecidableEq, Repr

/-- `DBMysql::Connect` ends with `return 0`. -/
def DBMysql.connect (connected : Bool) : Bool := if !connected then false else (0 : ℤ) != 0

def DBRedis.connect (connected : Bool) : Bool := connected

/-- The steps that the threads of a thread pool take by themselves; a worker that runs a task is in the code of its
owner. -/
def ThreadPool.own (p : ThreadPool) : ThreadPoolOp → Bool
  | .work i => match p.workers[i]? with
    | some (.running _) => false
    | _ => true
  | .startThread | .stepPush _ _ | .stepStop _ | .destroyJoin => true
  | .run | .pushTask _ | .stop | .destroy => false

namespace DBPool

def new (dbType maxConn : ℤ) (mysqlEnable redisEnable : Bool) (processors : ℕ) : DBPool :=
  ⟨maxConn, dbType, mysqlEnable, redisEnable, .new maxConn processors, false, 0, [],
    List.replicate (ThreadPool.threadNum maxConn processors) .connecting, .idle, false⟩

variable (s : DBPool)

def setWork (i : ℕ) (pc : DBWorkPc) : DBPool := { s with works := s.works.set i pc }

/-- The class of what `CreateDBBase` and `CreateDBResultBase` make, `none` for their null pointer. -/
def createDBBase : Option DBType :=
  if s.dbType = 1 then if s.mysqlEnable then some .mysql else none
  else if s.dbType = 2 then if s.redisEnable then some .redis else none
  else none

/-- There is a `DBBase` and its `Connect` returns true. -/
def connects (connected : Bool) : Bool :=
  match s.createDBBase with
  | none => false
  | some .mysql => DBMysql.connect connected
  | some .redis => DBRedis.connect connected

/-- What a `Work` does next; with no request in the queue it pings. -/
def work (i : ℕ) (connected : Bool) : DBWorkPc → Option DBPool
  | .connecting => some (s.setWork i (if s.connects connected then .counting else .ended))
  | .counting => some ({ s with liveConnNum := s.liveConnNum + 1 }.setWork i .outer)
  | .outer => some (s.setWork i (if s.started then .waiting else .uncounting))
  | .waiting => match s.rq with
    | [] => some (s.setWork i .outer)
    | cmd :: rest => some ({ s with rq := rest }.setWork i (.querying cmd))
  | .querying _ => some (s.setWork i (if s.createDBBase.isSome then .outer else .ended))
  | .uncounting => some ({ s with liveConnNum := s.liveConnNum - 1 }.setWork i .ended)
  | .ended => none

/-- The worker is in a `Work`. -/
def busy (i : ℕ) : Bool :=
  match s.threadPool.workers[i]? with
  | some (.running _) => true
  | _ => false

/-- A step of the thread pool, after which the rest changes. -/
def onPool (op : ThreadPoolOp) (next : ThreadPool → DBPool) : Option DBPool := (s.threadPool.step op).map next

/-- `Start` up to the return of `Run`'s loop, nothing for a pool that is started. -/
def start : Option DBPool :=
  if s.started then some s
  else s.onPool .run fun p => { s with threadPool := p, caller := .running, startCalled := true }

/-- `Recover` up to its loop. -/
def recover : DBPool :=
  if !s.started || s.liveConnNum ≥ s.maxConn then s
  else { s with caller := .pushing false (s.maxConn - s.liveConnNum).toNat }

/-- `~DBPool`, up to the wait for the call of `ThreadPool::Stop` or for `~ThreadPool`. -/
def destroy : Option DBPool :=
  if s.started then
    s.onPool .stop fun p => { s with threadPool := p, caller := .stopping s.threadPool.stops.length }
  else s.onPool .destroy fun p => { s with threadPool := p, caller := .deleting }

def step : DBPoolOp → Option DBPool
  | .thread op => if s.threadPool.own op then s.onPool op fun p => { s with threadPool := p } else none
  | .work i connected => if s.busy i then s.works[i]?.bind (s.work i connected) else none
  | .workEnd i =>
    if s.busy i ∧ s.works[i]? = some .ended then
      s.onPool (.work i) fun p => { s with threadPool := p, works := s.works.set i .connecting }
    else none
  | .start => if s.caller = .idle then s.start else none
  | .runEnd =>
    if s.caller = .running ∧ s.threadPool.caller = .idle then
      some { s with caller := .pushing true s.maxConn.toNat }
    else none
  | .pushTask => match s.caller with
    | .pushing starting (left + 1) => s.onPool (.pushTask false) fun p =>
        { s with threadPool := p, caller := .awaiting starting left s.threadPool.pushes.length }
    | _ => none
  | .pushEnd => match s.caller with
    | .awaiting starting left k =>
      if s.threadPool.pushes[k]? = some .returned ∨ s.threadPool.pushes[k]? = some .refused then
        some { s with caller := .pushing starting left }
      else none
    | _ => none
  | .callEnd => match s.caller with
    | .pushing starting 0 => some { s with started := starting || s.started, caller := .idle }
    | _ => none
  | .stop => if s.caller = .idle then some { s with started := false } else none
  | .query cmd => some { s with rq := s.rq ++ [cmd] }
  | .recover => if s.caller = .idle then some s.recover else none
  | .destroy => if s.caller = .idle then s.destroy else none
  | .delete => match s.caller with
    | .stopping c =>
      if s.threadPool.stops[c]? = some .returned then
        s.onPool .destroy fun p => { s with threadPool := p, caller := .deleting }
      else none
    | _ => none

end DBPool

end Chaos
