import Chaos.PoolRest
import Chaos.PoolWorkers

/-!
# A thread pool comes to rest

Where `m_running` is not set every step that is not a new call brings some thread nearer to its end, so the workers
leave `PoolWorkFunc`, and the calls of `Stop` and the destructor return. In a pool that serves every step of its own
brings a task nearer to its end, so all tasks are run.
-/
namespace Chaos

open GuardedRuns Threads

/-- How far the threads are from where they go. -/
structure Ranks where
  worker : WorkerPc → ℕ
  push : PushPc → ℕ
  stop : StopPc → ℕ
  caller : CallerPc → ℕ
  task : ℕ

/-- To the end of a pool of `n` workers whose flag is down; a wake-up that nobody sent is a step to it as well. -/
def Ranks.ending (n : ℕ) : Ranks where
  worker
    | .unstarted | .left => 0
    | .outer => 1
    | .testing | .running _ => 2
    | .checking | .taking => 3
    | .locking | .woken => 4
    | .blocked => 5
    | .waiting => 6
  push
    | .refused | .returned => 0
    | .signalling => 1
    | .emplacing => 2
    | .locking => 3
    | .called _ => 4
  stop
    | .returned => 0
    | .joining j => n - j + 1
    | .broadcasting => n + 2
    | .testing => n + 3
    | .locking => n + 4
  caller
    | .idle | .destroyed => 0
    | .starting j | .joining j => n - j + 1
  task := 0

/-- To where the queue is empty and every worker waits. A task in the queue pays for the round of the worker that
takes it, and a signal for the round of the one that it wakes. -/
def Ranks.serving (n : ℕ) : Ranks where
  worker
    | .blocked | .left => 0
    | .waiting | .taking => 1
    | .testing => 2
    | .checking => 3
    | .locking | .woken => 4
    | .outer => 5
    | .running _ | .unstarted => 6
  push
    | .refused | .returned => 0
    | .signalling => 5
    | .emplacing => 12
    | .locking => 13
    | .called _ => 14
  stop _ := 0
  caller
    | .idle | .destroyed => 0
    | .starting j | .joining j => n - j + 1
  task := 6

/-- Ranks under which the steps of a pool that serves lead down, but for a worker that goes to wait or wakes. -/
structure Ranks.Falls (r : Ranks) (n : ℕ) : Prop where
  start : r.worker .outer < r.worker .unstarted
  stays : r.worker .locking < r.worker .outer
  lock : r.worker .checking < r.worker .locking ∧ r.worker .checking < r.worker .woken
  goes : r.worker .testing < r.worker .checking
  takes : r.worker .taking < r.worker .testing
  take : ∀ task, r.worker (.running task) < r.worker .taking + r.task
  finish : ∀ task, r.worker .outer < r.worker (.running task)
  wait : r.worker .blocked < r.worker .waiting
  refused : ∀ null, r.push .refused < r.push (.called null)
  passed : r.push .locking < r.push (.called false)
  lockPush : r.push .emplacing < r.push .locking
  emplace : r.push .signalling + r.task < r.push .emplacing
  signal : r.push .returned + r.worker .woken < r.push .signalling + r.worker .blocked
  lost : r.push .returned < r.push .signalling
  caller : r.caller = (Ranks.serving n).caller

namespace ThreadPool

/-- How far the pool is from its rest. -/
def distance (r : Ranks) (s : ThreadPool) : ℕ :=
  (s.workers.map r.worker).sum + (s.pushes.map r.push).sum + (s.stops.map r.stop).sum + r.caller s.caller +
    s.queue.length * r.task

section Distance
variable {s : ThreadPool} {r : Ranks} {i k c : ℕ}

theorem distance_setWorker {a b : WorkerPc} (hi : s.workers[i]? = some a) :
    (s.setWorker i b).distance r + r.worker a = s.distance r + r.worker b := by
  have hset := sum_set r.worker (b := b) hi
  simp only [distance, setWorker]
  omega

theorem distance_setPush {a b : PushPc} (hk : s.pushes[k]? = some a) :
    (s.setPush k b).distance r + r.push a = s.distance r + r.push b := by
  have hset := sum_set r.push (b := b) hk
  simp only [distance, setPush]
  omega

theorem distance_setStop {a b : StopPc} (hc : s.stops[c]? = some a) :
    (s.setStop c b).distance r + r.stop a = s.distance r + r.stop b := by
  have hset := sum_set r.stop (b := b) hc
  simp only [distance, setStop]
  omega

theorem distance_caller (pc : CallerPc) :
    { s with caller := pc }.distance r + r.caller s.caller = s.distance r + r.caller pc := by
  simp only [distance]
  omega

theorem distance_pop {task : ℕ} {rest : List ℕ} (hq : s.queue = task :: rest) :
    (s.pop task rest).distance r + r.task = s.distance r := by
  simp only [distance, pop, hq, List.length_cons, Nat.succ_mul]
  omega

theorem distance_emplace (k : ℕ) : (s.emplace k).distance r = s.distance r + r.task := by
  simp only [distance, emplace, List.length_append, List.length_singleton, Nat.succ_mul]
  omega

/-- The broadcast brings those who wait nearer. -/
theorem distance_condBroadCast (hwoken : r.worker .woken ≤ r.worker .blocked) :
    s.condBroadCast.distance r ≤ s.distance r := by
  have hmap : ((s.workers.map wake).map r.worker).sum ≤ (s.workers.map r.worker).sum := by
    apply sum_map_le
    intro pc
    cases pc with
    | blocked => exact hwoken
    | unstarted | outer | locking | checking | waiting | woken | testing | taking | running | left => exact Nat.le_refl _
  simp only [distance, condBroadCast]
  omega

theorem distance_worker_lt {a b : WorkerPc} (hi : s.workers[i]? = some a) (hlt : r.worker b < r.worker a) :
    (s.setWorker i b).distance r < s.distance r := by
  have hset := distance_setWorker (r := r) (b := b) hi
  omega

theorem distance_push_lt {a b : PushPc} (hk : s.pushes[k]? = some a) (hlt : r.push b < r.push a) :
    (s.setPush k b).distance r < s.distance r := by
  have hset := distance_setPush (r := r) (b := b) hk
  omega

theorem distance_stop_lt {a b : StopPc} (hc : s.stops[c]? = some a) (hlt : r.stop b < r.stop a) :
    (s.setStop c b).distance r < s.distance r := by
  have hset := distance_setStop (r := r) (b := b) hc
  omega

theorem distance_caller_lt {pc : CallerPc} (hlt : r.caller pc < r.caller s.caller) :
    { s with caller := pc }.distance r < s.distance r := by
  have hset := distance_caller (s := s) (r := r) pc
  omega

end Distance

/-! ## To the end of a pool -/

section Roused
variable {s t : ThreadPool} {op : ThreadPoolOp} {i c : ℕ}

/-- Where `m_running` is not set nobody waits, or the broadcast is to come; and `Run` is not going over the threads. -/
structure Roused (s : ThreadPool) : Prop where
  starting : ∀ j, s.caller = .starting j → s.running = true
  waits : s.running = false →
    (∃ c : ℕ, s.stops[c]? = some .broadcasting) ∨ ∀ pc ∈ s.workers, pc ≠ .blocked ∧ pc ≠ .waiting

theorem Roused.worker {b : WorkerPc} (h : Roused s) (hb : s.running = false → b ≠ .blocked ∧ b ≠ .waiting) :
    Roused (s.setWorker i b) := by
  refine ⟨h.starting, fun hrun => ?_⟩
  cases h.waits hrun with
  | inl hc => exact .inl hc
  | inr hnone =>
    right
    intro pc hpc
    cases List.mem_or_eq_of_mem_set hpc with
    | inl hold => exact hnone pc hold
    | inr hnew => exact hnew ▸ hb hrun

/-- A call of `Stop` moves that has no broadcast to send. -/
theorem Roused.stop {a b : StopPc} (h : Roused s) (hc : s.stops[c]? = some a) (ha : a ≠ .broadcasting) :
    Roused (s.setStop c b) := by
  refine ⟨h.starting, fun hrun => ?_⟩
  cases h.waits hrun with
  | inl hsend =>
    obtain ⟨d, hd⟩ := hsend
    have hdc : d ≠ c := by
      rintro rfl
      exact ha (Option.some.inj (hc.symm.trans hd))
    exact .inl ⟨d, (set_of_ne hdc).trans hd⟩
  | inr hnone => exact .inr hnone

theorem Roused.owner (h : Roused s) (o : Option Owner) : Roused { s with owner := o } := ⟨h.starting, h.waits⟩

/-- A worker that goes to wait has found `m_running` set, and nobody has cleared it since. -/
theorem Roused.running_of_waiting (h : Roused s) (hmutex : Exclusive s.owner s.inside)
    (hi : s.workers[i]? = some .waiting) : s.running = true := by
  cases hrun : s.running with
  | true => rfl
  | false =>
    cases h.waits hrun with
    | inl hsend =>
      obtain ⟨c, hc⟩ := hsend
      have hworker : s.inside (.worker i) := ⟨.waiting, hi, rfl⟩
      have hstop : s.inside (.stop c) := ⟨.broadcasting, hc, rfl⟩
      cases hmutex.eq hworker hstop
    | inr hnone => exact absurd rfl (hnone _ (List.mem_of_getElem? hi)).2

theorem Roused.broadcast (h : Roused s) (hmutex : Exclusive s.owner s.inside) (hc : s.stops[c]? = some .broadcasting) :
    Roused (s.condBroadCast.unlock.setStop c (.joining 0)) := by
  refine ⟨h.starting, fun _ => .inr ?_⟩
  intro pc hpc
  obtain ⟨v, hv, rfl⟩ := List.mem_map.mp hpc
  have hwaiting : v ≠ .waiting := by
    rintro rfl
    obtain ⟨i, hi⟩ := List.getElem?_of_mem hv
    have hworker : s.inside (.worker i) := ⟨.waiting, hi, rfl⟩
    have hstop : s.inside (.stop c) := ⟨.broadcasting, hc, rfl⟩
    cases hmutex.eq hworker hstop
  cases v with
  | waiting => exact absurd rfl hwaiting
  | unstarted | outer | locking | checking | blocked | woken | testing | taking | running | left =>
    exact ⟨WorkerPc.noConfusion, WorkerPc.noConfusion⟩

/-- The step lemma. -/
theorem Roused.step (h : Roused s) (hmutex : Exclusive s.owner s.inside) (happart : CallsApart s)
    (ht : ThreadPoolPass s op t) : Roused t := by
  cases ht with
  | runs hcaller hstops hrun => exact ⟨fun _ _ => rfl, nofun⟩
  | ranBefore | pushTask | refused | passed | lockPush | emplace | lost => exact ⟨h.starting, h.waits⟩
  | started hcaller hj =>
    have hrun := h.starting _ hcaller
    refine ⟨fun _ _ => hrun, ?_⟩
    intro hnot
    cases hrun.symm.trans hnot
  | startedBefore hcaller hj hlt => exact ⟨fun _ _ => h.starting _ hcaller, h.waits⟩
  | runEnd | destroy | destroyJoin | destroyed => exact ⟨nofun, h.waits⟩
  | move hi hmove =>
    apply h.worker
    intro hnot
    cases hmove with
    | waits hq hrun => cases hrun.symm.trans hnot
    | stays | leaves | goes | wakes | takes => exact ⟨WorkerPc.noConfusion, WorkerPc.noConfusion⟩
  | lock hi => exact (h.owner _).worker fun _ => ⟨WorkerPc.noConfusion, WorkerPc.noConfusion⟩
  | back hi => exact (h.owner none).worker fun _ => ⟨WorkerPc.noConfusion, WorkerPc.noConfusion⟩
  | take hi hq => exact Roused.worker ⟨h.starting, h.waits⟩ fun _ => ⟨WorkerPc.noConfusion, WorkerPc.noConfusion⟩
  | finish hi => exact Roused.worker ⟨h.starting, h.waits⟩ fun _ => ⟨WorkerPc.noConfusion, WorkerPc.noConfusion⟩
  | wait hi =>
    have hrun := h.running_of_waiting hmutex hi
    refine (h.owner none).worker fun hnot => ?_
    cases hrun.symm.trans hnot
  | @signal k j hk hj =>
    have hwoken : Roused (s.setWorker j .woken) := h.worker fun _ => ⟨WorkerPc.noConfusion, WorkerPc.noConfusion⟩
    exact ⟨hwoken.starting, hwoken.waits⟩
  | stop hcaller =>
    refine ⟨h.starting, fun hnot => ?_⟩
    cases h.waits hnot with
    | inl hsend =>
      obtain ⟨c, hc⟩ := hsend
      exact .inl ⟨c, append_of_some hc⟩
    | inr hnone => exact .inr hnone
  | lockStop hc => exact (h.owner _).stop hc StopPc.noConfusion
  | clear hc hrun =>
    refine ⟨fun j hj => ?_, fun _ => .inl ⟨_, set_self hc⟩⟩
    cases happart with
    | inl hidle => cases hidle.symm.trans hj
    | inr hreturned => cases hreturned _ (stop_mem hc)
  | late hc => exact (h.owner none).stop hc StopPc.noConfusion
  | broadcast hc => exact h.broadcast hmutex hc
  | join hc | joined hc => exact h.stop hc StopPc.noConfusion

end Roused

/-- What is known of a pool whose threads go on. -/
structure Live (s : ThreadPool) : Prop where
  life : Life s
  held : Held s
  roused : Roused s

section Live
variable {s t : ThreadPool} {op : ThreadPoolOp}

theorem Live.step (h : Live s) (ht : ThreadPoolPass s op t) : Live t :=
  ⟨h.life.step ht, held_step h.held ht, h.roused.step h.life.kept.mutex h.life.apart ht⟩

theorem live_new {nThreadNum : ℤ} {processors : ℕ} (hprocessors : 0 < processors) :
    Live (.new nThreadNum processors) := by
  refine ⟨life_new hprocessors, held_of_none rfl, nofun, fun _ => .inr ?_⟩
  intro pc hpc
  rw [(List.mem_replicate.mp hpc).2]
  exact ⟨WorkerPc.noConfusion, WorkerPc.noConfusion⟩

theorem live_of_exec {nThreadNum : ℤ} {processors : ℕ} {ops : List ThreadPoolOp} (hprocessors : 0 < processors)
    (hs : exec ThreadPool.step (.new nThreadNum processors) ops = some s) : Live s :=
  invariant_of_exec (fun _ _ _ h ht => h.step (threadPoolPass_of_step ht)) (live_new hprocessors) hs

/-- With the flag down every step that is not a call takes the pool nearer to its end. -/
theorem ending_lt {n : ℕ} (h : Live s) (hrun : s.running = false) (hn : s.workers.length = n)
    (hcall : op.isCall = false) (ht : ThreadPoolPass s op t) :
    t.running = false ∧ t.distance (.ending n) < s.distance (.ending n) := by
  have hnot {p : Prop} (hset : s.running = true) : p := nomatch hrun.symm.trans hset
  cases ht with
  | runs | ranBefore | pushTask | stop | destroy => cases hcall
  | started hcaller | startedBefore hcaller | runEnd hcaller => exact hnot (h.roused.starting _ hcaller)
  | move hi hmove =>
    refine ⟨hrun, distance_worker_lt hi ?_⟩
    cases hmove with
    | stays hset | waits _ hset | takes hset => exact hnot hset
    | leaves | goes | wakes => simp [Ranks.ending]
  | lock hi hpc =>
    refine ⟨hrun, distance_worker_lt hi ?_⟩
    rcases hpc with rfl | rfl <;> simp [Ranks.ending]
  | wait hi | back hi | finish hi => exact ⟨hrun, distance_worker_lt hi (by simp [Ranks.ending])⟩
  | @take i task rest hi hq =>
    refine ⟨hrun, ?_⟩
    have hpop : (s.pop task rest).distance (.ending n) + 0 = s.distance (.ending n) :=
      distance_pop (r := .ending n) hq
    calc
      ((s.pop task rest).unlock.setWorker i (.running task)).distance (.ending n)
          < (s.pop task rest).distance (.ending n) := distance_worker_lt hi (by simp [Ranks.ending])
      _ = s.distance (.ending n) := hpop
  | refused hk | lockPush hk | lost hk => exact ⟨hrun, distance_push_lt hk (by simp [Ranks.ending])⟩
  | passed hk hset => exact hnot hset
  | @emplace k j hk =>
    refine ⟨hrun, ?_⟩
    have hadd : (s.emplace k).distance (.ending n) = s.distance (.ending n) + 0 :=
      distance_emplace (r := .ending n) k
    calc
      ((s.emplace k).setPush k .signalling).distance (.ending n) < (s.emplace k).distance (.ending n) :=
        distance_push_lt hk (by simp [Ranks.ending])
      _ = s.distance (.ending n) := hadd
  | @signal k j hk hj =>
    refine ⟨hrun, ?_⟩
    calc
      ((s.setWorker j .woken).unlock.setPush k .returned).distance (.ending n)
          < (s.setWorker j .woken).distance (.ending n) := distance_push_lt hk (by simp [Ranks.ending])
      _ < s.distance (.ending n) := distance_worker_lt hj (by simp [Ranks.ending])
  | lockStop hc | late hc => exact ⟨hrun, distance_stop_lt hc (by simp [Ranks.ending])⟩
  | clear hc hset => exact hnot hset
  | @broadcast c hc =>
    refine ⟨hrun, ?_⟩
    calc
      (s.condBroadCast.unlock.setStop c (.joining 0)).distance (.ending n) < s.condBroadCast.distance (.ending n) :=
        distance_stop_lt hc (by simp [Ranks.ending])
      _ ≤ s.distance (.ending n) := distance_condBroadCast (by simp [Ranks.ending])
  | @join c j hc hj =>
    obtain ⟨hlt, -⟩ := List.getElem?_eq_some_iff.mp hj
    refine ⟨hrun, distance_stop_lt hc ?_⟩
    simp only [Ranks.ending]
    omega
  | joined hc => exact ⟨hrun, distance_stop_lt hc (by simp [Ranks.ending])⟩
  | @destroyJoin j hcaller hj =>
    have hlt : j < s.workers.length := by
      cases hj with
      | inl hleft => exact (List.getElem?_eq_some_iff.mp hleft).1
      | inr hnever => exact (List.getElem?_eq_some_iff.mp hnever).1
    refine ⟨hrun, distance_caller_lt ?_⟩
    rw [hcaller]
    simp only [Ranks.ending]
    omega
  | destroyed hcaller =>
    refine ⟨hrun, distance_caller_lt ?_⟩
    rw [hcaller]
    simp [Ranks.ending]

/-- In a pool that serves and is not being stopped every step of its own leads down. -/
theorem Serving.distance_lt {r : Ranks} {n : ℕ} (hserving : Serving s) (hr : r.Falls n)
    (hstops : ∀ pc ∈ s.stops, pc = .returned) (hn : s.workers.length = n)
    (hwaits : s.queue = [] → r.worker .waiting < r.worker .checking)
    (hwakes : s.spurious op = true → r.worker .woken < r.worker .blocked) (hcall : op.isCall = false)
    (ht : ThreadPoolPass s op t) : t.distance r < s.distance r := by
  have hnot {p : Prop} (hclear : s.running = false) : p := nomatch hserving.running.symm.trans hclear
  have hnone {c : ℕ} {pc : StopPc} (hc : s.stops[c]? = some pc) : pc = .returned := hstops pc (stop_mem hc)
  cases ht with
  | runs | ranBefore | pushTask | stop | destroy => cases hcall
  | lockStop hc | clear hc | late hc | broadcast hc | join hc | joined hc => cases hnone hc
  | @started j hcaller hj =>
    obtain ⟨hlt, -⟩ := List.getElem?_eq_some_iff.mp hj
    calc
      { s.setWorker j .outer with caller := .starting (j + 1) }.distance r < (s.setWorker j .outer).distance r := by
        apply distance_caller_lt
        rw [show (s.setWorker j .outer).caller = .starting j from hcaller, hr.caller]
        simp only [Ranks.serving]
        omega
      _ < s.distance r := distance_worker_lt hj hr.start
  | startedBefore hcaller hj hlt =>
    apply distance_caller_lt
    rw [hcaller, hr.caller]
    simp only [Ranks.serving]
    omega
  | runEnd hcaller =>
    apply distance_caller_lt
    rw [hcaller, hr.caller]
    simp [Ranks.serving]
  | move hi hmove =>
    apply distance_worker_lt hi
    cases hmove with
    | stays => exact hr.stays
    | leaves hclear => exact hnot hclear
    | waits hq => exact hwaits hq
    | goes => exact hr.goes
    | wakes =>
      apply hwakes
      rw [spurious, hi]
      rfl
    | takes => exact hr.takes
  | lock hi hpc =>
    apply distance_worker_lt hi
    cases hpc with
    | inl hlocking => exact hlocking ▸ hr.lock.1
    | inr hwoken => exact hwoken ▸ hr.lock.2
  | wait hi => exact distance_worker_lt hi hr.wait
  | back hi hclear => exact hnot hclear
  | @take i task rest hi hq =>
    have hpop : (s.pop task rest).distance r + r.task = s.distance r := distance_pop hq
    have hset : ((s.pop task rest).unlock.setWorker i (.running task)).distance r + r.worker .taking =
        (s.pop task rest).distance r + r.worker (.running task) :=
      distance_setWorker (s := (s.pop task rest).unlock) hi
    have htake := hr.take task
    omega
  | finish hi => exact distance_worker_lt hi (hr.finish _)
  | refused hk => exact distance_push_lt hk (hr.refused _)
  | passed hk => exact distance_push_lt hk hr.passed
  | lockPush hk => exact distance_push_lt hk hr.lockPush
  | @emplace k j hk =>
    have hadd : (s.emplace k).distance r = s.distance r + r.task := distance_emplace k
    have hset : ((s.emplace k).setPush k .signalling).distance r + r.push .emplacing =
        (s.emplace k).distance r + r.push .signalling := distance_setPush (s := s.emplace k) hk
    have hemplace := hr.emplace
    omega
  | @signal k j hk hj =>
    have hwoken : (s.setWorker j .woken).distance r + r.worker .blocked = s.distance r + r.worker .woken :=
      distance_setWorker hj
    have hset : ((s.setWorker j .woken).unlock.setPush k .returned).distance r + r.push .signalling =
        (s.setWorker j .woken).distance r + r.push .returned :=
      distance_setPush (s := (s.setWorker j .woken).unlock) hk
    have hsignal := hr.signal
    omega
  | lost hk => exact distance_push_lt hk hr.lost
  | destroyJoin hcaller hj =>
    cases hj with
    | inl hleft => exact absurd rfl (hserving.workers _ (List.mem_of_getElem? hleft))
    | inr hnever =>
      obtain ⟨i, hi, -⟩ := hserving.started _ hnever
      cases hcaller.symm.trans hi
  | destroyed hcaller =>
    apply distance_caller_lt
    rw [hcaller, hr.caller]
    simp [Ranks.serving]

theorem falls_serving (n : ℕ) : (Ranks.serving n).Falls n := by
  constructor <;> simp [Ranks.serving]

/-- Every step of its own takes a task nearer to its end. -/
theorem serving_lt {n : ℕ} (h : Live s) (hserving : Serving s) (hstops : ∀ pc ∈ s.stops, pc = .returned)
    (hn : s.workers.length = n) (ht : s.onward op = some t) :
    (Serving t ∧ ∀ pc ∈ t.stops, pc = .returned) ∧ t.distance (.serving n) < s.distance (.serving n) := by
  obtain ⟨hspurious, hgo⟩ := pass_of_onward ht
  obtain ⟨hcall, hpass⟩ := pass_of_goOn hgo
  refine ⟨hserving.goOn h.life.apart hstops (by rintro rfl; cases hcall) hpass, ?_⟩
  apply hserving.distance_lt (falls_serving n) hstops hn _ _ hcall hpass
  · simp [Ranks.serving]
  · intro hnot
    cases hspurious.symm.trans hnot

end Live

section Rest
variable {s : ThreadPool}

/-- A worker that has ended or was not started has no task. -/
theorem taken_perm_finished (h : TasksKept s) (hidle : ∀ pc ∈ s.workers, pc.task = none) :
    s.taken.Perm s.finished := by
  have hnil : s.workers.filterMap WorkerPc.task = [] := List.filterMap_eq_nil_iff.mpr hidle
  simpa [hnil] using h.held

/-- At rest with an empty queue every task is run whose `PushTask` was not refused. -/
theorem AtRest.done (h : AtRest s) (howner : s.owner = none) (htasks : TasksKept s)
    (hidle : ∀ pc ∈ s.workers, pc.task = none) (hq : s.queue = []) :
    s.accepted.Perm s.finished ∧
      ∀ k pc, s.pushes[k]? = some pc → pc = .refused ∨ pc = .returned ∧ k ∈ s.finished := by
  have hperm : s.accepted.Perm s.finished := by
    rw [htasks.fifo, hq, List.append_nil]
    exact taken_perm_finished htasks hidle
  refine ⟨hperm, ?_⟩
  intro k pc hk
  cases h.pushes howner pc (List.mem_of_getElem? hk) with
  | inl hrefused => exact .inl hrefused
  | inr hreturned =>
    obtain rfl := hreturned
    exact .inr ⟨rfl, hperm.subset ((htasks.queued k).mpr (.inr hk))⟩

/-- A pool serves whose flag is set and of which no worker has left. -/
theorem Live.serving (h : Live s) (hrun : s.running = true) (hleft : .left ∉ s.workers) : Serving s := by
  rcases h.life.phase with hfresh | hserving | ⟨c, hstopping⟩ | hover
  · cases hfresh.running.symm.trans hrun
  · exact hserving
  · cases hstopping.running.symm.trans hrun
  · exact absurd (h.life.left_mem hover) hleft

/-- Nobody goes on any more. -/
structure Ended (s : ThreadPool) : Prop where
  workers : ∀ pc ∈ s.workers, pc = if s.ran then .left else .unstarted
  stops : ∀ pc ∈ s.stops, pc = .returned
  pushes : ∀ pc ∈ s.pushes, pc = .refused ∨ pc = .returned
  caller : s.caller = .idle ∨ s.caller = .destroyed
  tasks : s.taken.Perm s.finished

/-- With the flag down and nobody in the wait every worker has left, or none was started. -/
theorem AtRest.workers_over (h : AtRest s) (howner : s.owner = none) (htested : Tested s) (hphase : Phase s)
    (hrun : s.running = false) (hblocked : .blocked ∉ s.workers) :
    ∀ pc ∈ s.workers, pc = if s.ran then .left else .unstarted := by
  intro pc hpc
  rcases hphase with hfresh | hserving | ⟨c, hstopping⟩ | hover
  · rw [hfresh.ran]
    exact hfresh.workers pc hpc
  · cases hrun.symm.trans hserving.running
  · rw [hstopping.ran]
    rcases h.workers howner htested pc hpc with rfl | rfl | hleft
    · exact absurd rfl (hstopping.workers _ hpc)
    · exact absurd hpc hblocked
    · exact hleft
  · rw [hover.ran]
    exact hover.workers pc hpc

/-- With the flag down nobody joins a thread that was not started. -/
theorem AtRest.returned (h : AtRest s) (howner : s.owner = none) (hphase : Phase s) (hrun : s.running = false)
    (hend : ∀ pc ∈ s.workers, pc = if s.ran then .left else .unstarted) : ∀ pc ∈ s.stops, pc = .returned := by
  intro pc hpc
  cases h.stops howner pc hpc with
  | inl hreturned => exact hreturned
  | inr hjoins =>
    obtain ⟨v, hv, hloud, hleft⟩ := hjoins
    have hv' := hend v hv
    rcases hphase with hfresh | hserving | ⟨c, hstopping⟩ | hover
    · cases hloud.symm.trans (hfresh.stops pc hpc)
    · cases hrun.symm.trans hserving.running
    · rw [hstopping.ran] at hv'
      exact absurd hv' hleft
    · exact absurd (hover.workers v hv) hleft

theorem AtRest.caller_over (h : AtRest s) (hend : ∀ pc ∈ s.workers, pc = if s.ran then .left else .unstarted) :
    s.caller = .idle ∨ s.caller = .destroyed := by
  cases hcaller : s.caller with
  | idle => exact .inl rfl
  | destroyed => exact .inr rfl
  | starting j => exact absurd hcaller (h.starting j)
  | joining j =>
    obtain ⟨v, hv, hleft, hnever⟩ := h.joining hcaller
    have hv' := hend v hv
    split at hv'
    · exact absurd hv' hleft
    · exact absurd hv' hnever

theorem AtRest.ended (h : AtRest s) (howner : s.owner = none) (htested : Tested s) (hphase : Phase s)
    (htasks : TasksKept s) (hrun : s.running = false) (hblocked : .blocked ∉ s.workers) : Ended s := by
  have hend := h.workers_over howner htested hphase hrun hblocked
  refine ⟨hend, h.returned howner hphase hrun hend, h.pushes howner, h.caller_over hend, ?_⟩
  apply taken_perm_finished htasks
  intro pc hpc
  rw [hend pc hpc]
  split <;> rfl

/-- With the flag down nobody waits at rest. -/
theorem AtRest.not_blocked (h : AtRest s) (hroused : Roused s) (hrun : s.running = false) : .blocked ∉ s.workers := by
  intro hmem
  cases hroused.waits hrun with
  | inl hsend =>
    obtain ⟨c, hc⟩ := hsend
    cases h.stop hc
  | inr hnone => exact (hnone _ hmem).1 rfl

/-- A pool that serves and is at rest has run all its tasks. -/
theorem AtRest.served (h : AtRest s) (hlive : Live s) (hserving : Serving s) :
    (∀ pc ∈ s.workers, pc = .blocked) ∧ s.queue = [] := by
  have howner := h.owner hlive.held hlive.life.tested
  have hblocked : ∀ pc ∈ s.workers, pc = .blocked := by
    intro pc hpc
    have hin := hserving.inside h.starting pc hpc
    rcases h.workers howner hlive.life.tested pc hpc with rfl | hwait | rfl
    · cases hin
    · exact hwait
    · cases hin
  refine ⟨hblocked, ?_⟩
  by_contra hq
  cases hlive.life.kept.awake.served hq with
  | inl hawake =>
    obtain ⟨pc, hpc, hne⟩ := hawake
    exact hne (hblocked pc hpc)
  | inr hsignal =>
    obtain ⟨k, hk⟩ := hsignal
    cases h.pushes howner _ (List.mem_of_getElem? hk) with
    | inl hrefused => cases hrefused
    | inr hreturned => cases hreturned

end Rest

/-! ## Samples -/

/-- A worker waits, and a call of `Stop` has cleared `m_running`. -/
def clearedSample : List ThreadPoolOp :=
  [.run, .startThread, .startThread] ++ List.replicate 4 (.work 0) ++ [.stop, .stepStop 0, .stepStop 0]

theorem clearedSample_isSome : (exec ThreadPool.step (.new 1 8) clearedSample).isSome = true := by decide +kernel

def clearedEnd : ThreadPool := (exec ThreadPool.step (.new 1 8) clearedSample).get clearedSample_isSome

/-- The broadcast, the worker goes out, and `Stop` joins it. -/
def leavingSample : List ThreadPoolOp := .stepStop 0 :: List.replicate 4 (.work 0) ++ [.stepStop 0, .stepStop 0]

theorem leavingSample_isSome : (exec goOn clearedEnd leavingSample).isSome = true := by decide +kernel

def leavingEnd : ThreadPool := (exec goOn clearedEnd leavingSample).get leavingSample_isSome

/-- A pool of one worker with a call of `PushTask` that has begun. -/
def pushedSample : List ThreadPoolOp := [.run, .startThread, .startThread, .pushTask false]

theorem pushedSample_isSome : (exec ThreadPool.step (.new 1 8) pushedSample).isSome = true := by decide +kernel

def pushedEnd : ThreadPool := (exec ThreadPool.step (.new 1 8) pushedSample).get pushedSample_isSome

/-- The task is queued, and the worker runs it and goes to wait. -/
def doneSample : List ThreadPoolOp := List.replicate 4 (.stepPush 0 0) ++ List.replicate 10 (.work 0)

theorem doneSample_isSome : (exec onward pushedEnd doneSample).isSome = true := by decide +kernel

def doneEnd : ThreadPool := (exec onward pushedEnd doneSample).get doneSample_isSome

end ThreadPool

end Chaos
