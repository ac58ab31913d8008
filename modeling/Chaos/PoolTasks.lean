import Chaos.GuardedRuns
import Chaos.ThreadPoolSteps
import Chaos.Threads
import Mathlib.Data.List.Nodup

/-!
# The tasks of a thread pool

A task that `PushTask` has accepted is in the queue, with the one worker that runs it, or finished. The tasks are
taken in the order in which they were queued, and a task is not left in the queue while every worker waits.
-/
namespace Chaos

open GuardedRuns Threads

/-- Where only the owner of the mutex can be. -/
def WorkerPc.locked : WorkerPc → Bool
  | .checking | .waiting | .testing | .taking => true
  | _ => false

def PushPc.locked : PushPc → Bool
  | .emplacing | .signalling => true
  | _ => false

def StopPc.locked : StopPc → Bool
  | .testing | .broadcasting => true
  | _ => false

/-- The task in the hands of a worker. -/
def WorkerPc.task : WorkerPc → Option ℕ
  | .running task => some task
  | _ => none

namespace ThreadPool

def inside (s : ThreadPool) : Owner → Prop
  | .worker i => ∃ pc, s.workers[i]? = some pc ∧ pc.locked = true
  | .push k => ∃ pc, s.pushes[k]? = some pc ∧ pc.locked = true
  | .stop c => ∃ pc, s.stops[c]? = some pc ∧ pc.locked = true

/-- The call of `PushTask` has queued its task. -/
def Queued (s : ThreadPool) (k : ℕ) : Prop := s.pushes[k]? = some .signalling ∨ s.pushes[k]? = some .returned

section Inside
variable {s : ThreadPool} {i k c : ℕ} {q : Owner}

theorem inside_of_setWorker {pc : WorkerPc} (hq : q ≠ .worker i) (h : (s.setWorker i pc).inside q) : s.inside q := by
  cases q with
  | worker c =>
    obtain ⟨v, hv, hlocked⟩ := h
    have hci : c ≠ i := fun hci => hq (hci ▸ rfl)
    exact ⟨v, (set_of_ne hci).symm.trans hv, hlocked⟩
  | push c | stop c => exact h

theorem inside_of_setPush {pc : PushPc} (hq : q ≠ .push k) (h : (s.setPush k pc).inside q) : s.inside q := by
  cases q with
  | push c =>
    obtain ⟨v, hv, hlocked⟩ := h
    have hck : c ≠ k := fun hck => hq (hck ▸ rfl)
    exact ⟨v, (set_of_ne hck).symm.trans hv, hlocked⟩
  | worker c | stop c => exact h

theorem inside_of_setStop {pc : StopPc} (hq : q ≠ .stop c) (h : (s.setStop c pc).inside q) : s.inside q := by
  cases q with
  | stop d =>
    obtain ⟨v, hv, hlocked⟩ := h
    have hdc : d ≠ c := fun hdc => hq (hdc ▸ rfl)
    exact ⟨v, (set_of_ne hdc).symm.trans hv, hlocked⟩
  | worker d | push d => exact h

theorem locked_of_setWorker {pc pc' : WorkerPc} (hi : s.workers[i]? = some pc)
    (h : (s.setWorker i pc').inside (.worker i)) : pc'.locked = true := by
  obtain ⟨v, hv, hlocked⟩ := h
  obtain rfl : pc' = v := Option.some.inj ((set_self hi).symm.trans hv)
  exact hlocked

theorem locked_of_setPush {pc pc' : PushPc} (hk : s.pushes[k]? = some pc)
    (h : (s.setPush k pc').inside (.push k)) : pc'.locked = true := by
  obtain ⟨v, hv, hlocked⟩ := h
  obtain rfl : pc' = v := Option.some.inj ((set_self hk).symm.trans hv)
  exact hlocked

theorem locked_of_setStop {pc pc' : StopPc} (hc : s.stops[c]? = some pc)
    (h : (s.setStop c pc').inside (.stop c)) : pc'.locked = true := by
  obtain ⟨v, hv, hlocked⟩ := h
  obtain rfl : pc' = v := Option.some.inj ((set_self hc).symm.trans hv)
  exact hlocked

/-- The broadcast moves those who wait only. -/
theorem workers_of_condBroadCast {pc : WorkerPc} (hpc : pc ≠ .woken) (h : s.condBroadCast.workers[i]? = some pc) :
    s.workers[i]? = some pc := by
  obtain ⟨v, hv, rfl⟩ := Option.map_eq_some_iff.mp (List.getElem?_map.symm.trans h)
  cases v with
  | blocked => exact absurd rfl hpc
  | unstarted | outer | locking | checking | waiting | woken | testing | taking | running | left => exact hv

theorem inside_of_condBroadCast (h : s.condBroadCast.inside q) : s.inside q := by
  cases q with
  | worker i =>
    obtain ⟨v, hv, hlocked⟩ := h
    obtain ⟨pc, hpc, rfl⟩ := Option.map_eq_some_iff.mp (List.getElem?_map.symm.trans hv)
    refine ⟨pc, hpc, ?_⟩
    cases pc <;> exact hlocked
  | push k | stop c => exact h

end Inside

section Exclusive
variable {s t : ThreadPool} {op : ThreadPoolOp} {i k c : ℕ}

/-- A worker that leaves the mutex alone. -/
theorem keep_worker {pc pc' : WorkerPc} (h : Exclusive s.owner s.inside) (hi : s.workers[i]? = some pc)
    (hlocked : pc'.locked = true → pc.locked = true) : Exclusive s.owner (s.setWorker i pc').inside :=
  h.keep (fun _ => inside_of_setWorker) fun hin => ⟨pc, hi, hlocked (locked_of_setWorker hi hin)⟩

theorem keep_push {pc pc' : PushPc} (h : Exclusive s.owner s.inside) (hk : s.pushes[k]? = some pc)
    (hlocked : pc'.locked = true → pc.locked = true) : Exclusive s.owner (s.setPush k pc').inside :=
  h.keep (fun _ => inside_of_setPush) fun hin => ⟨pc, hk, hlocked (locked_of_setPush hk hin)⟩

theorem keep_stop {pc pc' : StopPc} (h : Exclusive s.owner s.inside) (hc : s.stops[c]? = some pc)
    (hlocked : pc'.locked = true → pc.locked = true) : Exclusive s.owner (s.setStop c pc').inside :=
  h.keep (fun _ => inside_of_setStop) fun hin => ⟨pc, hc, hlocked (locked_of_setStop hc hin)⟩

theorem release_worker {pc pc' : WorkerPc} (h : Exclusive s.owner s.inside) (hi : s.workers[i]? = some pc)
    (hpc : pc.locked = true) (hpc' : pc'.locked = false) : Exclusive none (s.setWorker i pc').inside := by
  refine h.release (p := .worker i) ⟨pc, hi, hpc⟩ (fun _ => inside_of_setWorker) ?_
  intro hin
  rw [locked_of_setWorker hi hin] at hpc'
  cases hpc'

theorem release_push {pc pc' : PushPc} (h : Exclusive s.owner s.inside) (hk : s.pushes[k]? = some pc)
    (hpc : pc.locked = true) (hpc' : pc'.locked = false) : Exclusive none (s.setPush k pc').inside := by
  refine h.release (p := .push k) ⟨pc, hk, hpc⟩ (fun _ => inside_of_setPush) ?_
  intro hin
  rw [locked_of_setPush hk hin] at hpc'
  cases hpc'

theorem release_stop {pc pc' : StopPc} (h : Exclusive s.owner s.inside) (hc : s.stops[c]? = some pc)
    (hpc : pc.locked = true) (hpc' : pc'.locked = false) : Exclusive none (s.setStop c pc').inside := by
  refine h.release (p := .stop c) ⟨pc, hc, hpc⟩ (fun _ => inside_of_setStop) ?_
  intro hin
  rw [locked_of_setStop hc hin] at hpc'
  cases hpc'

theorem locked_of_move {pc pc' : WorkerPc} (hmove : WorkerMove s pc pc') (h : pc'.locked = true) : pc.locked = true := by
  cases hmove with
  | waits | goes | takes => rfl
  | stays | leaves | wakes => cases h

/-- Only the owner of the mutex is inside: the step lemma. -/
theorem exclusive_step (h : Exclusive s.owner s.inside) (ht : ThreadPoolPass s op t) : Exclusive t.owner t.inside := by
  cases ht with
  | runs | ranBefore | startedBefore | runEnd | destroy | destroyJoin | destroyed => exact h
  | started hcaller hj => exact keep_worker h hj fun hpc => nomatch hpc
  | move hi hmove => exact keep_worker h hi (locked_of_move hmove)
  | lock hi hpc howner =>
    rw [howner] at h
    exact h.acquire fun _ => inside_of_setWorker
  | wait hi => exact release_worker (s := s) h hi rfl rfl
  | back hi hrun => exact release_worker (s := s) h hi rfl rfl
  | take hi hq => exact release_worker (s := s) h hi rfl rfl
  | finish hi => exact keep_worker h hi fun hpc => nomatch hpc
  | pushTask null hcaller =>
    refine h.mono ?_
    intro q hq
    cases q with
    | push k =>
      obtain ⟨pc, hpc, hlocked⟩ := hq
      rcases append_cases hpc with ⟨-, rfl⟩ | hpc
      · cases hlocked
      · exact ⟨pc, hpc, hlocked⟩
    | worker i | stop c => exact hq
  | refused hk | passed hk => exact keep_push h hk fun hpc => nomatch hpc
  | lockPush hk howner =>
    rw [howner] at h
    exact h.acquire fun _ => inside_of_setPush
  | emplace hk => exact keep_push h hk fun _ => rfl
  | signal hk hj => exact release_push (s := s.setWorker _ .woken) (keep_worker h hj fun hpc => nomatch hpc) hk rfl rfl
  | lost hk hnone => exact release_push (s := s) h hk rfl rfl
  | stop hcaller =>
    refine h.mono ?_
    intro q hq
    cases q with
    | stop c =>
      obtain ⟨pc, hpc, hlocked⟩ := hq
      rcases append_cases hpc with ⟨-, rfl⟩ | hpc
      · cases hlocked
      · exact ⟨pc, hpc, hlocked⟩
    | worker i | push k => exact hq
  | lockStop hc howner =>
    rw [howner] at h
    exact h.acquire fun _ => inside_of_setStop
  | clear hc hrun => exact keep_stop h hc fun _ => rfl
  | late hc hrun => exact release_stop (s := s) h hc rfl rfl
  | broadcast hc => exact release_stop (s := s.condBroadCast) (h.mono fun _ => inside_of_condBroadCast) hc rfl rfl
  | join hc hj | joined hc hj => exact keep_stop h hc fun hpc => nomatch hpc

end Exclusive

section Tasks
variable {s t : ThreadPool} {op : ThreadPoolOp} {i k : ℕ}

/-- What is known of the tasks: each was queued once, and each that was taken is in the hands of a worker or
finished. -/
structure TasksKept (s : ThreadPool) : Prop where
  fifo : s.accepted = s.taken ++ s.queue
  nodup : s.accepted.Nodup
  queued : ∀ k, k ∈ s.accepted ↔ s.Queued k
  held : s.taken.Perm (s.workers.filterMap WorkerPc.task ++ s.finished)

theorem task_of_move {pc pc' : WorkerPc} (hmove : WorkerMove s pc pc') : pc.task = none ∧ pc'.task = none := by
  cases hmove <;> exact ⟨rfl, rfl⟩

/-- A worker that has no task moves. -/
theorem tasks_moved {a b : WorkerPc} (hi : s.workers[i]? = some a) (ha : a.task = none)
    (hb : b.task = none) :
    (s.workers.filterMap WorkerPc.task).Perm ((s.workers.set i b).filterMap WorkerPc.task) := by
  have hset := filterMap_set_perm WorkerPc.task (b := b) hi
  rw [ha, hb, Option.toList_none, List.append_nil, List.append_nil] at hset
  exact hset.symm

theorem task_wake : WorkerPc.task ∘ wake = WorkerPc.task := by
  funext pc
  cases pc <;> rfl

theorem queued_setPush {a b : PushPc} (hk : s.pushes[k]? = some a)
    (ha : (a = .signalling ∨ a = .returned) ↔ (b = .signalling ∨ b = .returned)) (task : ℕ) :
    (s.setPush k b).Queued task ↔ s.Queued task := by
  rcases eq_or_ne task k with rfl | hne
  · have hset : (s.setPush task b).pushes[task]? = some b := set_self hk
    rw [Queued, Queued, hset, hk]
    simpa using ha.symm
  · have hset : (s.setPush k b).pushes[task]? = s.pushes[task]? := set_of_ne hne
    rw [Queued, Queued, hset]

theorem TasksKept.worker {a b : WorkerPc} (h : TasksKept s) (hi : s.workers[i]? = some a)
    (ha : a.task = none) (hb : b.task = none) : TasksKept (s.setWorker i b) :=
  { h with held := h.held.trans ((tasks_moved hi ha hb).append_right _) }

/-- The mutex is nothing to the tasks. -/
theorem TasksKept.owner (h : TasksKept s) (o : Option Owner) : TasksKept { s with owner := o } :=
  ⟨h.fifo, h.nodup, h.queued, h.held⟩

theorem TasksKept.push {a b : PushPc} (h : TasksKept s) (hk : s.pushes[k]? = some a)
    (ha : (a = .signalling ∨ a = .returned) ↔ (b = .signalling ∨ b = .returned)) :
    TasksKept (s.setPush k b) :=
  { h with queued := fun task => (h.queued task).trans (queued_setPush hk ha task).symm }

theorem TasksKept.take {task : ℕ} {rest : List ℕ} (h : TasksKept s) (hi : s.workers[i]? = some .taking)
    (hq : s.queue = task :: rest) : TasksKept ((s.pop task rest).unlock.setWorker i (.running task)) where
  fifo := by
    have hfifo := h.fifo
    rw [hq] at hfifo
    exact hfifo.trans (List.append_cons _ _ _)
  nodup := h.nodup
  queued := h.queued
  held := by
    have hset := filterMap_set_perm WorkerPc.task (b := .running task) hi
    rw [show WorkerPc.task .taking = none from rfl, Option.toList_none, List.append_nil] at hset
    calc
      List.Perm (s.taken ++ [task]) ((s.workers.filterMap WorkerPc.task ++ s.finished) ++ [task]) :=
        h.held.append_right _
      List.Perm _ ((s.workers.filterMap WorkerPc.task ++ [task]) ++ s.finished) := by
        rw [List.append_assoc, List.append_assoc]
        exact List.Perm.append_left _ List.perm_append_comm
      List.Perm _ ((s.workers.set i (.running task)).filterMap WorkerPc.task ++ s.finished) :=
        hset.symm.append_right _

theorem TasksKept.finish {task : ℕ} (h : TasksKept s) (hi : s.workers[i]? = some (.running task)) :
    TasksKept ((s.finish task).setWorker i .outer) where
  fifo := h.fifo
  nodup := h.nodup
  queued := h.queued
  held := by
    have hset := filterMap_set_perm WorkerPc.task (b := .outer) hi
    rw [show WorkerPc.task .outer = none from rfl, Option.toList_none, List.append_nil] at hset
    calc
      List.Perm s.taken (s.workers.filterMap WorkerPc.task ++ s.finished) := h.held
      List.Perm _ (((s.workers.set i .outer).filterMap WorkerPc.task ++ [task]) ++ s.finished) :=
        hset.symm.append_right _
      List.Perm _ ((s.workers.set i .outer).filterMap WorkerPc.task ++ (s.finished ++ [task])) := by
        rw [List.append_assoc]
        exact List.Perm.append_left _ List.perm_append_comm

theorem TasksKept.emplace (h : TasksKept s) (hk : s.pushes[k]? = some .emplacing) :
    TasksKept ((s.emplace k).setPush k .signalling) := by
  have hnew : k ∉ s.accepted := by
    intro hmem
    rcases (h.queued k).mp hmem with hpc | hpc <;> rw [hk] at hpc <;> cases hpc
  refine ⟨?_, ?_, ?_, h.held⟩
  · have hfifo : s.accepted ++ [k] = s.taken ++ s.queue ++ [k] := congrArg (· ++ [k]) h.fifo
    exact hfifo.trans (List.append_assoc _ _ _)
  · refine List.nodup_append.mpr ⟨h.nodup, List.nodup_singleton k, ?_⟩
    intro a ha b hb hab
    obtain rfl : b = k := List.mem_singleton.mp hb
    exact hnew (hab ▸ ha)
  · intro task
    refine List.mem_append.trans ?_
    rw [List.mem_singleton]
    rcases eq_or_ne task k with rfl | hne
    · have hset : (s.pushes.set task .signalling)[task]? = some PushPc.signalling := set_self hk
      exact ⟨fun _ => Or.inl hset, fun _ => Or.inr rfl⟩
    · have hset : (s.pushes.set k .signalling)[task]? = s.pushes[task]? := set_of_ne hne
      rw [or_iff_left hne, h.queued task]
      exact or_congr (hset ▸ Iff.rfl) (hset ▸ Iff.rfl)

/-- The step lemma. -/
theorem tasksKept_step (h : TasksKept s) (ht : ThreadPoolPass s op t) : TasksKept t := by
  cases ht with
  | runs | ranBefore | startedBefore | runEnd | destroy | destroyJoin | destroyed | stop | lockStop | clear | late
  | join | joined => exact ⟨h.fifo, h.nodup, h.queued, h.held⟩
  | started hcaller hj =>
    have hstarted := h.worker (b := .outer) hj rfl rfl
    exact ⟨hstarted.fifo, hstarted.nodup, hstarted.queued, hstarted.held⟩
  | move hi hmove => exact h.worker hi (task_of_move hmove).1 (task_of_move hmove).2
  | @lock i pc hi hpc howner =>
    have hnone : pc.task = none := by rcases hpc with rfl | rfl <;> rfl
    exact (h.owner (some (.worker i))).worker hi hnone rfl
  | wait hi | back hi => exact (h.owner none).worker hi rfl rfl
  | take hi hq => exact h.take hi hq
  | finish hi => exact h.finish hi
  | pushTask null hcaller =>
    refine ⟨h.fifo, h.nodup, ?_, h.held⟩
    intro task
    rw [h.queued task]
    constructor
    · rintro (hpc | hpc)
      · exact Or.inl (append_of_some hpc)
      · exact Or.inr (append_of_some hpc)
    · rintro (hpc | hpc)
      · rcases append_cases hpc with ⟨-, hpc⟩ | hpc
        · cases hpc
        · exact Or.inl hpc
      · rcases append_cases hpc with ⟨-, hpc⟩ | hpc
        · cases hpc
        · exact Or.inr hpc
  | refused hk | passed hk => exact h.push hk (by simp)
  | @lockPush k j hk howner => exact (h.owner (some (.push k))).push hk (by simp)
  | emplace hk => exact h.emplace hk
  | signal hk hj =>
    have hwoken := h.worker (b := .woken) hj rfl rfl
    exact (hwoken.owner none).push hk (by simp)
  | lost hk hnone => exact (h.owner none).push hk (by simp)
  | broadcast hc =>
    refine ⟨h.fifo, h.nodup, h.queued, ?_⟩
    have hwoken : (s.workers.map wake).filterMap WorkerPc.task = s.workers.filterMap WorkerPc.task := by
      rw [List.filterMap_map, task_wake]
    exact hwoken ▸ h.held

theorem tasksKept_new (nThreadNum : ℤ) (processors : ℕ) : TasksKept (.new nThreadNum processors) where
  fifo := rfl
  nodup := List.nodup_nil
  queued task := by simp [ThreadPool.new, Queued]
  held := by simp [ThreadPool.new, List.filterMap_replicate, WorkerPc.task]

/-- A task that was queued is in one place. -/
theorem TasksKept.one_place (h : TasksKept s) (hk : s.Queued k) :
    s.queue.count k + (s.workers.filterMap WorkerPc.task).count k + s.finished.count k = 1 := by
  have hone : s.accepted.count k = 1 := List.count_eq_one_of_mem h.nodup ((h.queued k).mpr hk)
  rw [h.fifo, List.count_append, h.held.count_eq, List.count_append] at hone
  omega

end Tasks

section Wake
variable {s t : ThreadPool} {op : ThreadPoolOp} {i k : ℕ}

/-- A queued task is not left to workers that all wait: one of them is awake, or a signal is going to be sent. A
worker goes to wait only when it has found the queue empty, and it has had the mutex since. -/
structure Awake (s : ThreadPool) : Prop where
  manned : s.workers ≠ []
  waits : ∀ i : ℕ, s.workers[i]? = some .waiting → s.queue = []
  served : s.queue ≠ [] → (∃ pc ∈ s.workers, pc ≠ .blocked) ∨ ∃ k : ℕ, s.pushes[k]? = some .signalling

theorem set_ne_nil {pc : WorkerPc} (h : s.workers ≠ []) : s.workers.set i pc ≠ [] := by
  intro hset
  exact h (List.eq_nil_of_length_eq_zero (List.length_set.symm.trans (congrArg List.length hset)))

/-- A worker moves, but not into the wait. -/
theorem Awake.worker {a b : WorkerPc} (h : Awake s) (hi : s.workers[i]? = some a)
    (hblocked : b ≠ .blocked) (hwaits : b = .waiting → s.queue = []) : Awake (s.setWorker i b) where
  manned := set_ne_nil h.manned
  waits c hc := by
    rcases set_cases hi hc with ⟨-, ha⟩ | ⟨-, hc⟩
    · exact hwaits ha.symm
    · exact h.waits c hc
  served _ := Or.inl ⟨b, List.mem_of_getElem? (set_self hi), hblocked⟩

theorem Awake.owner (h : Awake s) (o : Option Owner) : Awake { s with owner := o } := ⟨h.manned, h.waits, h.served⟩

/-- A call of `PushTask` moves that has no signal to send. -/
theorem Awake.push {a b : PushPc} (h : Awake s) (hk : s.pushes[k]? = some a) (ha : a ≠ .signalling) :
    Awake (s.setPush k b) where
  manned := h.manned
  waits := h.waits
  served hq := by
    rcases h.served hq with hawake | ⟨c, hc⟩
    · exact Or.inl hawake
    · have hck : c ≠ k := by
        rintro rfl
        exact ha (Option.some.inj (hk.symm.trans hc))
      exact Or.inr ⟨c, (set_of_ne hck).trans hc⟩

/-- Who waits has found the queue empty, so nobody queues a task at that moment. -/
theorem Awake.emplace (h : Awake s) (hmutex : Exclusive s.owner s.inside) (hk : s.pushes[k]? = some .emplacing) :
    Awake ((s.emplace k).setPush k .signalling) where
  manned := h.manned
  waits c hc := by
    have hworker : s.inside (.worker c) := ⟨.waiting, hc, rfl⟩
    have hpush : s.inside (.push k) := ⟨.emplacing, hk, rfl⟩
    exact nomatch hmutex.eq hworker hpush
  served _ := Or.inr ⟨k, set_self hk⟩

theorem move_ne_blocked {pc pc' : WorkerPc} (hmove : WorkerMove s pc pc') :
    pc' ≠ .blocked ∧ (pc' = .waiting → s.queue = []) := by
  cases hmove with
  | waits hq hrun => exact ⟨WorkerPc.noConfusion, fun _ => hq⟩
  | stays | leaves | goes | wakes | takes => exact ⟨WorkerPc.noConfusion, WorkerPc.noConfusion⟩

/-- The step lemma. -/
theorem awake_step (h : Awake s) (hmutex : Exclusive s.owner s.inside) (ht : ThreadPoolPass s op t) : Awake t := by
  cases ht with
  | runs | ranBefore | startedBefore | runEnd | destroy | destroyJoin | destroyed | stop | lockStop | clear | late
  | join | joined => exact ⟨h.manned, h.waits, h.served⟩
  | started hcaller hj =>
    have hstarted := h.worker (b := .outer) hj WorkerPc.noConfusion WorkerPc.noConfusion
    exact ⟨hstarted.manned, hstarted.waits, hstarted.served⟩
  | move hi hmove => exact h.worker hi (move_ne_blocked hmove).1 (move_ne_blocked hmove).2
  | @lock i pc hi hpc howner =>
    exact (h.owner (some (.worker i))).worker hi WorkerPc.noConfusion WorkerPc.noConfusion
  | wait hi =>
    refine ⟨set_ne_nil h.manned, ?_, ?_⟩
    · intro c _
      exact h.waits _ hi
    · intro hq
      exact absurd (h.waits _ hi) hq
  | back hi hrun => exact (h.owner none).worker hi WorkerPc.noConfusion WorkerPc.noConfusion
  | @take i task rest hi hq =>
    have htaken := h.worker (b := .running task) hi WorkerPc.noConfusion WorkerPc.noConfusion
    refine ⟨htaken.manned, ?_, ?_⟩
    · intro c hc
      have hnil : s.queue = [] := htaken.waits c hc
      rw [hq] at hnil
      cases hnil
    · intro _
      exact Or.inl ⟨.running task, List.mem_of_getElem? (set_self hi), WorkerPc.noConfusion⟩
  | finish hi =>
    have hfinished := h.worker (b := .outer) hi WorkerPc.noConfusion WorkerPc.noConfusion
    exact ⟨hfinished.manned, hfinished.waits, hfinished.served⟩
  | pushTask null hcaller =>
    refine ⟨h.manned, h.waits, ?_⟩
    intro hq
    rcases h.served hq with hawake | ⟨k, hk⟩
    · exact Or.inl hawake
    · exact Or.inr ⟨k, append_of_some hk⟩
  | refused hk | passed hk => exact h.push hk PushPc.noConfusion
  | @lockPush k j hk howner => exact (h.owner (some (.push k))).push hk PushPc.noConfusion
  | emplace hk => exact h.emplace hmutex hk
  | signal hk hj =>
    have hwoken := h.worker (b := .woken) hj WorkerPc.noConfusion WorkerPc.noConfusion
    refine ⟨hwoken.manned, hwoken.waits, ?_⟩
    intro _
    exact Or.inl ⟨.woken, List.mem_of_getElem? (set_self hj), WorkerPc.noConfusion⟩
  | lost hk hnone =>
    refine ⟨h.manned, h.waits, ?_⟩
    intro _
    obtain ⟨pc, hpc⟩ := List.exists_mem_of_ne_nil _ h.manned
    exact Or.inl ⟨pc, hpc, fun hblocked => hnone (hblocked ▸ hpc)⟩
  | broadcast hc =>
    refine ⟨fun hnil => h.manned (List.map_eq_nil_iff.mp hnil), ?_, ?_⟩
    · intro c hc
      exact h.waits c (workers_of_condBroadCast WorkerPc.noConfusion hc)
    · intro _
      obtain ⟨pc, hpc⟩ := List.exists_mem_of_ne_nil _ h.manned
      refine Or.inl ⟨wake pc, List.mem_map_of_mem hpc, ?_⟩
      cases pc <;> exact WorkerPc.noConfusion

theorem awake_new {nThreadNum : ℤ} {processors : ℕ} (hprocessors : 0 < processors) :
    Awake (.new nThreadNum processors) where
  manned := by
    have hpos : 0 < threadNum nThreadNum processors := by
      rw [threadNum]
      split_ifs <;> omega
    intro hnil
    have hlength := congrArg List.length hnil
    rw [show (ThreadPool.new nThreadNum processors).workers.length = threadNum nThreadNum processors from
      List.length_replicate] at hlength
    exact Nat.ne_of_gt hpos hlength
  waits c hc := rfl
  served hq := absurd rfl hq

end Wake

section Runs
variable {nThreadNum : ℤ} {processors : ℕ} {ops : List ThreadPoolOp} {s : ThreadPool}

/-- What a pool keeps in every run. -/
structure Kept (s : ThreadPool) : Prop where
  mutex : Exclusive s.owner s.inside
  tasks : TasksKept s
  awake : Awake s

theorem kept_step {t : ThreadPool} {op : ThreadPoolOp} (h : Kept s) (ht : ThreadPoolPass s op t) : Kept t :=
  ⟨exclusive_step h.mutex ht, tasksKept_step h.tasks ht, awake_step h.awake h.mutex ht⟩

theorem exclusive_new : Exclusive (ThreadPool.new nThreadNum processors).owner
    (ThreadPool.new nThreadNum processors).inside := by
  intro o ho
  cases o with
  | worker i =>
    obtain ⟨pc, hpc, hlocked⟩ := ho
    obtain ⟨-, rfl⟩ := List.mem_replicate.mp (List.mem_of_getElem? hpc)
    cases hlocked
  | push k | stop c =>
    obtain ⟨pc, hpc, -⟩ := ho
    cases hpc

theorem kept_new (hprocessors : 0 < processors) : Kept (.new nThreadNum processors) :=
  ⟨exclusive_new, tasksKept_new nThreadNum processors, awake_new hprocessors⟩

theorem kept_of_exec (hprocessors : 0 < processors)
    (hs : exec ThreadPool.step (.new nThreadNum processors) ops = some s) : Kept s :=
  invariant_of_exec (fun _ _ _ h ht => kept_step h (threadPoolPass_of_step ht)) (kept_new hprocessors) hs

/-- A queued task is in exactly one place, with one worker at most and taken once at most; the tasks are taken in the
order in which they were queued; and with a task in the queue and every worker in the wait a signal is going to be
sent. -/
theorem tasks_conserved (nThreadNum : ℤ) (processors : ℕ) (ops : List ThreadPoolOp) (s : ThreadPool)
    (hprocessors : 0 < processors) (hs : exec ThreadPool.step (.new nThreadNum processors) ops = some s) :
    (∀ task, s.Queued task →
      s.queue.count task + (s.workers.filterMap WorkerPc.task).count task + s.finished.count task = 1) ∧
    s.taken.Nodup ∧ s.taken ++ s.queue = s.accepted ∧
    (s.running = true → s.queue ≠ [] → (∀ pc ∈ s.workers, pc = .blocked) →
      ∃ k : ℕ, s.pushes[k]? = some .signalling) := by
  have h := kept_of_exec hprocessors hs
  refine ⟨fun task htask => h.tasks.one_place htask, ?_, h.tasks.fifo.symm, ?_⟩
  · have hnodup := h.tasks.nodup
    rw [h.tasks.fifo] at hnodup
    exact (List.nodup_append.mp hnodup).1
  · intro _ hq hblocked
    rcases h.awake.served hq with ⟨pc, hpc, hne⟩ | hsignal
    · exact absurd (hblocked pc hpc) hne
    · exact hsignal

end Runs

/-- Two workers go to wait, the first one is woken, takes a task, runs it and waits again; a second task has been
queued and its signal is to come. -/
def tasksSample : List ThreadPoolOp :=
  [.run, .startThread, .startThread, .startThread] ++ List.replicate 4 (.work 0) ++ List.replicate 4 (.work 1) ++
    [.pushTask false, .stepPush 0 0, .stepPush 0 0, .stepPush 0 0, .stepPush 0 0] ++
    List.replicate 5 (.work 0) ++ List.replicate 4 (.work 0) ++
    [.pushTask false, .stepPush 1 0, .stepPush 1 0, .stepPush 1 0]

theorem tasksSample_isSome : (exec ThreadPool.step (.new 2 8) tasksSample).isSome = true := by decide +kernel

def tasksSampleEnd : ThreadPool := (exec ThreadPool.step (.new 2 8) tasksSample).get tasksSample_isSome

theorem tasks_conserved_sample :
    tasksSampleEnd.queue.count 1 + (tasksSampleEnd.workers.filterMap WorkerPc.task).count 1 +
      tasksSampleEnd.finished.count 1 = 1 ∧
    tasksSampleEnd.taken ++ tasksSampleEnd.queue = tasksSampleEnd.accepted ∧
    ∃ k : ℕ, tasksSampleEnd.pushes[k]? = some .signalling := by
  have h := tasks_conserved 2 8 tasksSample tasksSampleEnd (by decide) (Option.some_get _).symm
  exact ⟨h.1 1 (Or.inl (by decide +kernel)), h.2.2.1,
    h.2.2.2 (by decide +kernel) (by decide +kernel) (by decide +kernel)⟩

end ThreadPool

end Chaos
