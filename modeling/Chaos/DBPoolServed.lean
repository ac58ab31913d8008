import Chaos.DBPoolSteps
import Chaos.PoolTasks
import Mathlib.Data.List.Range

/-!
# The connections of a started pool

`Start` pushes its `Work` tasks to workers that already run, and sets `m_started` after that. A `Work` that is
connected before looks at the flag too early and ends; when none does, and `Connect` says true, each of the tasks is
still in the queue or in the hands of a worker that connects or serves.
-/
namespace Chaos

open GuardedRuns Threads

/-- The `Work` connects or is inside the loop over the requests. -/
def DBWorkPc.serves : DBWorkPc → Bool
  | .connecting | .counting | .outer | .waiting | .querying _ => true
  | .uncounting | .ended => false

/-- The thread is in no call, or in one of `Recover`. -/
def DBCallerPc.recovers : DBCallerPc → Bool
  | .idle | .pushing false _ | .awaiting false _ _ => true
  | .running | .pushing true _ | .awaiting true _ _ | .stopping _ | .deleting => false

namespace ThreadPool
variable {s t : ThreadPool} {op : ThreadPoolOp}

/-- The tasks of the first `n` calls of `PushTask` that workers run. -/
def tasksBelow (s : ThreadPool) (n : ℕ) : List ℕ := (s.workers.filterMap WorkerPc.task).filter (· < n)

/-- No call of `Stop` is there, so none takes a step. -/
theorem same_of_own (hown : s.own op = true) (hstops : s.stops = []) (ht : ThreadPoolPass s op t) :
    t.finished = s.finished ∧ t.running = s.running ∧ t.stops = [] := by
  have hnone {c : ℕ} {pc : StopPc} (hc : s.stops[c]? = some pc) : False := by
    rw [hstops] at hc
    cases hc
  cases ht with
  | finish hi => simp [own, hi] at hown
  | lockStop hc | clear hc | late hc | broadcast hc | join hc | joined hc => exact (hnone hc).elim
  | started | startedBefore | runEnd | move | lock | wait | back | take | refused | passed | lockPush | emplace
  | signal | lost | destroyJoin | destroyed => exact ⟨rfl, rfl, hstops⟩
  | runs | ranBefore | pushTask | stop | destroy => cases hown

/-- What the threads of a pool do to the calls of `PushTask`. -/
theorem pushes_of_own (hown : s.own op = true) (ht : ThreadPoolPass s op t) :
    t.pushes = s.pushes ∨ ∃ (k : ℕ) (a b : PushPc), s.pushes[k]? = some a ∧ a ≠ .returned ∧
      t.pushes = s.pushes.set k b ∧ b ≠ .called true ∧ (b = .refused → a = .called true ∨ s.running = false) := by
  cases ht with
  | @refused k j null hk hrefused =>
    refine Or.inr ⟨k, _, _, hk, PushPc.noConfusion, rfl, PushPc.noConfusion, fun _ => ?_⟩
    rcases hrefused with rfl | hrun
    · exact Or.inl rfl
    · exact Or.inr hrun
  | @passed k j hk | @lockPush k j hk | @emplace k j hk | @signal k j hk | @lost k j hk =>
    exact Or.inr ⟨k, _, _, hk, PushPc.noConfusion, rfl, PushPc.noConfusion, PushPc.noConfusion⟩
  | started | startedBefore | runEnd | move | lock | wait | back | take | finish | lockStop | clear | late | broadcast
  | join | joined | destroyJoin | destroyed => exact Or.inl rfl
  | runs | ranBefore | pushTask | stop | destroy => cases hown

end ThreadPool

namespace DBPool

/-- Each connect succeeds, `Stop` and the destructor are not called, and no `Work` comes to its loop before `Start` has
set `m_started`. -/
def servedOk (s : DBPool) : DBPoolOp → Prop
  | .work i connected => connected = true ∧ (s.works[i]? = some .outer → s.started = true)
  | .stop | .destroy => False
  | .thread _ | .workEnd _ | .start | .runEnd | .pushTask | .pushEnd | .callEnd | .query _ | .recover | .delete => True

instance (s : DBPool) : (op : DBPoolOp) → Decidable (servedOk s op)
  | .work _ _ => inferInstanceAs (Decidable (_ ∧ _))
  | .stop | .destroy => isFalse id
  | .thread _ | .workEnd _ | .start | .runEnd | .pushTask | .pushEnd | .callEnd | .query _ | .recover | .delete =>
    isTrue trivial

/-- The worker runs a `Work` that connects or is inside the loop. -/
def Serves (s : DBPool) (i : ℕ) : Prop := ∃ pc, s.works[i]? = some pc ∧ pc.serves = true

/-- The first `n` calls of `PushTask` have returned. -/
def Pushed (s : DBPool) (n : ℕ) : Prop :=
  n ≤ s.threadPool.pushes.length ∧ ∀ k < n, s.threadPool.pushes[k]? = some .returned

/-- How far the pushes of `Start` have come, of which there are `n`. -/
inductive Progress (s : DBPool) (n : ℕ) : Prop where
  | fresh (hcaller : s.caller = .idle) (hstarted : s.started = false) (hcalled : s.startCalled = false) : Progress s n
  | running (hcaller : s.caller = .running) (hstarted : s.started = false) (hpushes : s.threadPool.pushes = []) :
      Progress s n
  | pushing {left : ℕ} (hcaller : s.caller = .pushing true left) (hstarted : s.started = false)
      (hleft : s.threadPool.pushes.length + left = n) (hpushed : s.Pushed s.threadPool.pushes.length) : Progress s n
  | awaiting {left k : ℕ} (hcaller : s.caller = .awaiting true left k) (hstarted : s.started = false)
      (hlength : s.threadPool.pushes.length = k + 1) (hleft : k + 1 + left = n) (hpushed : s.Pushed k) : Progress s n
  | loaded (hcaller : s.caller.recovers = true) (hstarted : s.started = true) (hpushed : s.Pushed n) : Progress s n

/-- What is known of a pool that serves. -/
structure Served (s : DBPool) : Prop where
  redis : s.createDBBase = some .redis
  kept : s.threadPool.Kept
  running : s.threadPool.running = s.startCalled
  works : ∀ pc ∈ s.works, pc.serves = true
  length : s.works.length = s.threadPool.workers.length
  finished : s.threadPool.finished = []
  stops : s.threadPool.stops = []
  pushes : ∀ pc ∈ s.threadPool.pushes, pc ≠ .refused ∧ pc ≠ .called true
  called : s.startCalled = true ∨ s.caller = .idle ∧ s.started = false ∧ s.threadPool.pushes = []
  progress : s.Progress s.maxConn.toNat

section Invariant
variable {s t : DBPool} {op : DBPoolOp} {p : ThreadPool} {n : ℕ}

theorem Pushed.mono {r : DBPool} (h : s.Pushed n) (hlength : s.threadPool.pushes.length ≤ r.threadPool.pushes.length)
    (hreturned : ∀ k : ℕ, s.threadPool.pushes[k]? = some .returned → r.threadPool.pushes[k]? = some .returned) :
    r.Pushed n :=
  ⟨Nat.le_trans h.1 hlength, fun k hk => hreturned k (h.2 k hk)⟩

/-- The pushes are where they were. -/
theorem Progress.mono {r : DBPool} (h : s.Progress n) (hcaller : r.caller = s.caller) (hstarted : r.started = s.started)
    (hcalled : r.startCalled = s.startCalled) (hlength : r.threadPool.pushes.length = s.threadPool.pushes.length)
    (hreturned : ∀ k : ℕ, s.threadPool.pushes[k]? = some .returned → r.threadPool.pushes[k]? = some .returned) :
    r.Progress n := by
  have hpushed {m : ℕ} (hm : s.Pushed m) : r.Pushed m := hm.mono hlength.ge hreturned
  cases h with
  | fresh hc hs hnot => exact .fresh (hcaller.trans hc) (hstarted.trans hs) (hcalled.trans hnot)
  | running hc hs hnil =>
    refine .running (hcaller.trans hc) (hstarted.trans hs) ?_
    rw [hnil] at hlength
    exact List.eq_nil_of_length_eq_zero hlength
  | pushing hc hs hleft hp =>
    refine .pushing (hcaller.trans hc) (hstarted.trans hs) (hlength ▸ hleft) ?_
    rw [hlength]
    exact hpushed hp
  | awaiting hc hs hlen hleft hp =>
    exact .awaiting (hcaller.trans hc) (hstarted.trans hs) (hlength.trans hlen) hleft (hpushed hp)
  | loaded hc hs hp => exact .loaded (by rw [hcaller]; exact hc) (hstarted.trans hs) (hpushed hp)

/-- A step of the threads of the pool. -/
theorem Served.thread {o : ThreadPoolOp} (h : Served s) (hown : s.threadPool.own o = true)
    (hp : ThreadPoolPass s.threadPool o p) : Served { s with threadPool := p } := by
  obtain ⟨hfinished, hrunning, hstops⟩ := ThreadPool.same_of_own hown h.stops hp
  have hpushes := ThreadPool.pushes_of_own hown hp
  have hlength : p.pushes.length = s.threadPool.pushes.length := by
    rcases hpushes with hsame | ⟨k, a, b, -, -, hset, -, -⟩
    · rw [hsame]
    · rw [hset]
      exact List.length_set
  have hreturned (k : ℕ) (hk : s.threadPool.pushes[k]? = some .returned) : p.pushes[k]? = some .returned := by
    rcases hpushes with hsame | ⟨c, a, b, hc, ha, hset, -, -⟩
    · exact hsame ▸ hk
    · have hkc : k ≠ c := by
        rintro rfl
        exact ha (Option.some.inj (hc.symm.trans hk))
      rw [hset]
      exact (set_of_ne hkc).trans hk
  constructor
  · exact h.redis
  · exact ThreadPool.kept_step h.kept hp
  · exact hrunning.trans h.running
  · exact h.works
  · exact h.length.trans (ThreadPool.length_of_pass hp).symm
  · exact hfinished.trans h.finished
  · exact hstops
  · intro pc hpc
    rcases hpushes with hsame | ⟨c, a, b, hc, -, hset, hnull, hrefused⟩
    · exact h.pushes pc (hsame ▸ hpc)
    · replace hpc : pc ∈ s.threadPool.pushes.set c b := hset ▸ hpc
      rcases List.mem_or_eq_of_mem_set hpc with hpc | rfl
      · exact h.pushes pc hpc
      · refine ⟨?_, hnull⟩
        intro hpc
        rcases hrefused hpc with ha | hrun
        · exact (h.pushes a (List.mem_of_getElem? hc)).2 ha
        · rcases h.called with hcalled | ⟨-, -, hnil⟩
          · exact nomatch (h.running.symm.trans hrun).symm.trans hcalled
          · rw [hnil] at hc
            cases hc
  · rcases h.called with hcalled | ⟨hidle, hstarted, hnil⟩
    · exact Or.inl hcalled
    · rw [hnil] at hlength
      exact Or.inr ⟨hidle, hstarted, List.eq_nil_of_length_eq_zero hlength⟩
  · exact h.progress.mono rfl rfl rfl hlength hreturned

/-- A `Work` that serves goes on to serve. -/
theorem serves_of_move {i : ℕ} {connected : Bool} {a b : DBWorkPc} (h : Served s) (hi : s.works[i]? = some a)
    (hmove : DBWorkMove s connected a b) (hok : servedOk s (.work i connected)) : b.serves = true := by
  obtain ⟨rfl, hstarted⟩ := hok
  cases hmove with
  | connects | counts | loops | pings | queries | answers => rfl
  | fails hfails => simp [connects, h.redis, DBRedis.connect] at hfails
  | leaves hnot => exact nomatch hnot.symm.trans (hstarted hi)
  | noResult hnone => exact nomatch hnone.symm.trans h.redis
  | uncounts => exact nomatch h.works _ (List.mem_of_getElem? hi)

theorem Served.work {i : ℕ} {connected : Bool} {a b : DBWorkPc} {liveConnNum : ℤ} {rq : List String} (h : Served s)
    (hi : s.works[i]? = some a) (hmove : DBWorkMove s connected a b) (hok : servedOk s (.work i connected)) :
    Served { s with works := s.works.set i b, liveConnNum := liveConnNum, rq := rq } := by
  refine ⟨h.redis, h.kept, h.running, ?_, List.length_set.trans h.length, h.finished, h.stops, h.pushes, h.called,
    h.progress.mono rfl rfl rfl rfl fun _ hk => hk⟩
  intro pc hpc
  rcases List.mem_or_eq_of_mem_set hpc with hpc | rfl
  · exact h.works pc hpc
  · exact serves_of_move h hi hmove hok

theorem Served.startCalled (h : Served s) (hcaller : s.caller ≠ .idle) : s.startCalled = true := by
  rcases h.called with hcalled | ⟨hidle, -, -⟩
  · exact hcalled
  · exact absurd hidle hcaller

/-- The call that the thread is in goes on, and the thread pool stays as it is. -/
theorem Served.call {caller : DBCallerPc} {started : Bool} (h : Served s) (hcalled : s.startCalled = true)
    (hprogress : Progress { s with caller := caller, started := started } s.maxConn.toNat) :
    Served { s with caller := caller, started := started } :=
  ⟨h.redis, h.kept, h.running, h.works, h.length, h.finished, h.stops, h.pushes, Or.inl hcalled, hprogress⟩

theorem Served.start (h : Served s) (hcaller : s.caller = .idle) (hstarted : s.started = false)
    (hp : ThreadPoolPass s.threadPool .run p) :
    Served { s with threadPool := p, caller := .running, startCalled := true } := by
  have hcalled : s.startCalled = false := by
    cases h.progress with
    | fresh hc hs hnot => exact hnot
    | loaded hc hs hpushed => exact nomatch hstarted.symm.trans hs
    | running hc | pushing hc | awaiting hc => exact nomatch hcaller.symm.trans hc
  have hnil : s.threadPool.pushes = [] := by
    rcases h.called with hset | ⟨-, -, hnil⟩
    · exact nomatch hcalled.symm.trans hset
    · exact hnil
  cases hp with
  | runs hidle hstops hrun =>
    exact ⟨h.redis, ThreadPool.kept_step h.kept (.runs hidle hstops hrun), rfl, h.works, h.length, h.finished, h.stops,
      h.pushes, Or.inl rfl, .running rfl hstarted hnil⟩
  | ranBefore hidle hrun => exact nomatch (h.running.trans hcalled).symm.trans hrun

/-- What the caller has pushed so far stays pushed when the next call begins. -/
theorem Progress.pushTask {starting : Bool} {left : ℕ} (h : s.Progress n)
    (hcaller : s.caller = .pushing starting (left + 1))
    (hpushes : p.pushes = s.threadPool.pushes ++ [.called false]) :
    Progress { s with threadPool := p, caller := .awaiting starting left s.threadPool.pushes.length } n := by
  have hlength : p.pushes.length = s.threadPool.pushes.length + 1 := by
    rw [hpushes]
    exact List.length_append
  have hpushed {m : ℕ} (hm : s.Pushed m) :
      Pushed { s with threadPool := p, caller := .awaiting starting left s.threadPool.pushes.length } m := by
    refine hm.mono (hlength ▸ Nat.le_succ _) ?_
    intro k hk
    rw [hpushes]
    exact append_of_some hk
  cases h with
  | fresh hc | running hc | awaiting hc => exact nomatch hcaller.symm.trans hc
  | pushing hc hs hleft hp =>
    cases hcaller.symm.trans hc
    exact .awaiting rfl hs hlength (by omega) (hpushed hp)
  | loaded hc hs hp =>
    rw [hcaller] at hc
    cases starting with
    | true => cases hc
    | false => exact .loaded rfl hs (hpushed hp)

theorem Served.pushTask {starting : Bool} {left : ℕ} (h : Served s) (hcaller : s.caller = .pushing starting (left + 1))
    (hp : ThreadPoolPass s.threadPool (.pushTask false) p) :
    Served { s with threadPool := p, caller := .awaiting starting left s.threadPool.pushes.length } := by
  have hcalled : s.startCalled = true := h.startCalled (by rw [hcaller]; exact DBCallerPc.noConfusion)
  cases hp with
  | pushTask _ hnot =>
    refine ⟨h.redis, ThreadPool.kept_step h.kept (.pushTask false hnot), h.running, h.works, h.length, h.finished,
      h.stops, ?_, Or.inl hcalled, h.progress.pushTask hcaller rfl⟩
    intro pc hpc
    rcases List.mem_append.mp hpc with hpc | hpc
    · exact h.pushes pc hpc
    · rw [List.mem_singleton.mp hpc]
      exact ⟨PushPc.noConfusion, nofun⟩

theorem Served.pushEnd {starting : Bool} {left k : ℕ} (h : Served s) (hcaller : s.caller = .awaiting starting left k)
    (hk : s.threadPool.pushes[k]? = some .returned ∨ s.threadPool.pushes[k]? = some .refused) :
    Served { s with caller := .pushing starting left } := by
  refine h.call (h.startCalled (by rw [hcaller]; exact DBCallerPc.noConfusion)) ?_
  cases h.progress with
  | fresh hc | running hc | pushing hc => exact nomatch hcaller.symm.trans hc
  | awaiting hc hs hlen hleft hp =>
    cases hcaller.symm.trans hc
    refine .pushing rfl hs (hlen ▸ hleft) ⟨Nat.le_refl _, ?_⟩
    intro c hc
    rcases Nat.lt_succ_iff_lt_or_eq.mp (hlen ▸ hc) with hlt | rfl
    · exact hp.2 c hlt
    · rcases hk with hreturned | hrefused
      · exact hreturned
      · exact absurd rfl (h.pushes _ (List.mem_of_getElem? hrefused)).1
  | loaded hc hs hp =>
    rw [hcaller] at hc
    cases starting with
    | true => cases hc
    | false => exact .loaded rfl hs hp

/-- `Start` and `Recover` return. -/
theorem Served.callEnd {starting : Bool} (h : Served s) (hcaller : s.caller = .pushing starting 0) :
    Served { s with started := starting || s.started, caller := .idle } := by
  refine h.call (h.startCalled (by rw [hcaller]; exact DBCallerPc.noConfusion)) ?_
  cases h.progress with
  | fresh hc | running hc | awaiting hc => exact nomatch hcaller.symm.trans hc
  | pushing hc hs hleft hp =>
    cases hcaller.symm.trans hc
    exact .loaded rfl rfl (hleft ▸ hp)
  | loaded hc hs hp => exact .loaded rfl (by rw [hs, Bool.or_true]) hp

/-- The step lemma. -/
theorem Served.step (h : Served s) (hok : servedOk s op) (ht : DBPoolPass s op t) : Served t := by
  cases ht with
  | thread hown hp => exact h.thread hown hp
  | work hbusy hi hmove => exact h.work hi hmove hok
  | workEnd hbusy hi hp => exact nomatch h.works _ (List.mem_of_getElem? hi)
  | startAgain | nothingToRecover => exact h
  | start hcaller hstarted hp => exact h.start hcaller hstarted hp
  | runEnd hcaller hidle =>
    refine h.call (h.startCalled (by rw [hcaller]; exact DBCallerPc.noConfusion)) ?_
    cases h.progress with
    | running hc hs hnil => exact .pushing rfl hs (by simp [hnil]) ⟨Nat.le_refl _, by simp [hnil]⟩
    | fresh hc | pushing hc | awaiting hc => exact nomatch hcaller.symm.trans hc
    | loaded hc =>
      rw [hcaller] at hc
      cases hc
  | pushTask hcaller hp => exact h.pushTask hcaller hp
  | pushEnd hcaller hk => exact h.pushEnd hcaller hk
  | callEnd hcaller => exact h.callEnd hcaller
  | query cmd =>
    exact ⟨h.redis, h.kept, h.running, h.works, h.length, h.finished, h.stops, h.pushes, h.called,
      h.progress.mono rfl rfl rfl rfl fun _ hk => hk⟩
  | recover hcaller hstarted hlive =>
    cases h.progress with
    | loaded hc hs hp =>
      rcases h.called with hcalled | ⟨-, hnot, -⟩
      · exact h.call hcalled (.loaded rfl hs hp)
      · exact nomatch hnot.symm.trans hs
    | fresh hc hs | running hc hs | pushing hc hs | awaiting hc hs => exact nomatch hs.symm.trans hstarted
  | stop | destroyStarted | destroyStopped => exact hok.elim
  | delete hcaller =>
    cases h.progress with
    | fresh hc | running hc | pushing hc | awaiting hc => exact nomatch hcaller.symm.trans hc
    | loaded hc =>
      rw [hcaller] at hc
      cases hc

end Invariant

section Runs
variable {dbType maxConn : ℤ} {mysqlEnable redisEnable : Bool} {processors : ℕ} {ops : List DBPoolOp} {s : DBPool}
  {n : ℕ}

theorem served_new (hprocessors : 0 < processors)
    (hredis : (DBPool.new dbType maxConn mysqlEnable redisEnable processors).createDBBase = some .redis) :
    Served (.new dbType maxConn mysqlEnable redisEnable processors) where
  redis := hredis
  kept := ThreadPool.kept_new hprocessors
  running := rfl
  works pc hpc := by
    obtain ⟨-, rfl⟩ := List.mem_replicate.mp hpc
    rfl
  length := List.length_replicate.trans List.length_replicate.symm
  finished := rfl
  stops := rfl
  pushes := nofun
  called := Or.inr ⟨rfl, rfl, rfl⟩
  progress := .fresh rfl rfl rfl

/-- A started pool has pushed all the tasks of `Start`. -/
theorem Served.pushed (h : Served s) (hstarted : s.started = true) : s.Pushed s.maxConn.toNat := by
  cases h.progress with
  | loaded hc hs hp => exact hp
  | fresh hc hs | running hc hs | pushing hc hs | awaiting hc hs => exact nomatch hs.symm.trans hstarted

theorem Served.serves {i : ℕ} (h : Served s) (hbusy : s.busy i = true) : s.Serves i := by
  have hlt : i < s.works.length := by
    rw [h.length]
    by_contra hge
    rw [busy, List.getElem?_eq_none (Nat.le_of_not_lt hge)] at hbusy
    cases hbusy
  exact ⟨s.works[i], List.getElem?_eq_getElem hlt, h.works _ (List.getElem_mem hlt)⟩

/-- The first tasks are all with workers or in the queue. -/
theorem Served.count (h : Served s) (hpushed : s.Pushed n) :
    (s.threadPool.tasksBelow n).length + (s.threadPool.queue.filter (· < n)).length = n := by
  have htasks := h.kept.tasks
  have hperm : (s.threadPool.accepted.filter (· < n)).Perm (List.range n) := by
    refine (List.perm_ext_iff_of_nodup (htasks.nodup.filter _) List.nodup_range).mpr ?_
    intro k
    rw [List.mem_filter, List.mem_range, decide_eq_true_eq]
    refine and_iff_right_of_imp ?_
    intro hk
    exact (htasks.queued k).mpr (Or.inr (hpushed.2 k hk))
  have hlength := hperm.length_eq
  have hheld := htasks.held
  rw [h.finished, List.append_nil] at hheld
  rw [htasks.fifo, List.filter_append, List.length_append, List.length_range,
    (hheld.filter _).length_eq] at hlength
  exact hlength

theorem maxConn_of_pass {t : DBPool} {op : DBPoolOp} (ht : DBPoolPass s op t) : t.maxConn = s.maxConn := by
  cases ht <;> rfl

theorem maxConn_of_exec {r : DBPool} (hs : exec DBPool.step r ops = some s) : s.maxConn = r.maxConn := by
  induction ops generalizing r with
  | nil =>
    cases hs
    rfl
  | cons op ops ih =>
    obtain ⟨t, ht, hs⟩ := exec_cons_eq_some.mp hs
    exact (ih hs).trans (maxConn_of_pass (dbPoolPass_of_step ht))

/-- In a run of a `redis` pool in which every connect succeeds and no `Work` comes to its loop before `Start` has set
`m_started`, no `Work` has ended once it is set: those of `Start` that are not in the queue are with workers that
connect or serve, `m_maxConn` in all. -/
theorem started_pool_served (dbType maxConn : ℤ) (mysqlEnable redisEnable : Bool) (processors : ℕ)
    (ops : List DBPoolOp) (s : DBPool) (hprocessors : 0 < processors)
    (hredis : (DBPool.new dbType maxConn mysqlEnable redisEnable processors).createDBBase = some .redis)
    (hg : Guarded DBPool.step servedOk (.new dbType maxConn mysqlEnable redisEnable processors) ops)
    (hs : exec DBPool.step (.new dbType maxConn mysqlEnable redisEnable processors) ops = some s)
    (hstarted : s.started = true) :
    s.threadPool.finished = [] ∧ (∀ i, s.busy i = true → s.Serves i) ∧
    (s.threadPool.tasksBelow maxConn.toNat).length + (s.threadPool.queue.filter (· < maxConn.toNat)).length =
      maxConn.toNat := by
  have h : Served s :=
    invariant_of_guarded (fun _ _ _ h hok ht => h.step hok (dbPoolPass_of_step ht)) (served_new hprocessors hredis) hg hs
  obtain rfl : s.maxConn = maxConn := maxConn_of_exec hs
  exact ⟨h.finished, fun i hbusy => h.serves hbusy, h.count (h.pushed hstarted)⟩

end Runs

/-- `Start` with two workers, up to its last push; the first worker has taken its `Work` and is connected. -/
def startSample : List DBPoolOp :=
  [.start, .thread .startThread, .thread .startThread, .thread .startThread, .runEnd, .pushTask] ++
    List.replicate 4 (.thread (.stepPush 0 0)) ++ [.pushEnd, .pushTask] ++
    List.replicate 4 (.thread (.stepPush 1 0)) ++ [.pushEnd] ++ List.replicate 5 (.thread (.work 0)) ++
    [.work 0 true, .work 0 true]

/-- `Start` returns before the first worker looks at `m_started`. -/
def servedSample : List DBPoolOp := startSample ++ [.callEnd, .work 0 true] ++ List.replicate 5 (.thread (.work 1))

theorem servedSample_isSome : (exec DBPool.step (.new 2 2 true true 8) servedSample).isSome = true := by decide +kernel

def servedSampleEnd : DBPool := (exec DBPool.step (.new 2 2 true true 8) servedSample).get servedSample_isSome

theorem started_pool_served_sample :
    servedSampleEnd.threadPool.finished = [] ∧ (servedSampleEnd.Serves 0 ∧ servedSampleEnd.Serves 1) ∧
    (servedSampleEnd.threadPool.tasksBelow 2).length + (servedSampleEnd.threadPool.queue.filter (· < 2)).length = 2 := by
  have h := started_pool_served 2 2 true true 8 servedSample servedSampleEnd (by decide) (by decide)
    (show Guarded DBPool.step servedOk (.new 2 2 true true 8) servedSample by decide +kernel)
    (Option.some_get _).symm (by decide +kernel)
  exact ⟨h.1, ⟨h.2.1 0 (by decide +kernel), h.2.1 1 (by decide +kernel)⟩, h.2.2⟩

/-- Every connect succeeds, and neither `Stop` nor the destructor is called. -/
def connectsAndRuns : DBPoolOp → Bool
  | .work _ connected => connected
  | .stop | .destroy => false
  | .thread _ | .workEnd _ | .start | .runEnd | .pushTask | .pushEnd | .callEnd | .query _ | .recover | .delete => true

/-- The first worker finds `m_started` not yet set, and its `Work` ends. -/
def unservedSample : List DBPoolOp := startSample ++ [.work 0 true, .work 0 true, .workEnd 0, .callEnd]

theorem unservedSample_isSome : (exec DBPool.step (.new 2 2 true true 8) unservedSample).isSome = true := by
  decide +kernel

theorem started_pool_not_served :
    ¬ ∀ (dbType maxConn : ℤ) (mysqlEnable redisEnable : Bool) (processors : ℕ) (ops : List DBPoolOp) (s : DBPool),
      0 < processors → 1 ≤ maxConn → (∀ op ∈ ops, connectsAndRuns op = true) →
        exec DBPool.step (.new dbType maxConn mysqlEnable redisEnable processors) ops = some s → s.started = true →
          s.threadPool.finished = [] := by
  intro h
  have hnone := h 2 2 true true 8 unservedSample _ (by decide) (by decide) (by decide +kernel)
    (Option.some_get unservedSample_isSome).symm (by decide +kernel)
  revert hnone
  decide +kernel

end DBPool

end Chaos
