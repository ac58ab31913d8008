import Chaos.DBPoolSteps
import Chaos.GuardedRuns

/-!
# The requests of a pool of connections

`Query` appends to `m_rq` and each `Work` takes from its front, so the requests leave in their order. A `Work` calls
`CondWait` before it looks at the queue, and what it finds there on arrival waits for the next signal or for the ten
seconds to pass.
-/
namespace Chaos

open GuardedRuns

namespace DBPool

variable {s t u : DBPool} {op : DBPoolOp} {i : ℕ}

/-- What a step does to the queue, to the flag and to the `Work`s at their loop. -/
inductive QueuePass (s : DBPool) : DBPoolOp → DBPool → Prop where
  | query (cmd : String) : QueuePass s (.query cmd) { s with rq := s.rq ++ [cmd] }
  | take {i : ℕ} {connected : Bool} {cmd : String} {rest : List String} (hi : s.works[i]? = some .waiting)
      (hrq : s.rq = cmd :: rest) :
      QueuePass s (.work i connected) ({ s with rq := rest }.setWork i (.querying cmd))
  | ping {i : ℕ} {connected : Bool} (hi : s.works[i]? = some .waiting) (hrq : s.rq = []) :
      QueuePass s (.work i connected) (s.setWork i .outer)
  | count {i : ℕ} {connected : Bool} (hi : s.works[i]? = some .counting) :
      QueuePass s (.work i connected) ({ s with liveConnNum := s.liveConnNum + 1 }.setWork i .outer)
  | answer {i : ℕ} {connected : Bool} {cmd : String} (hi : s.works[i]? = some (.querying cmd))
      (hresult : s.createDBBase.isSome = true) : QueuePass s (.work i connected) (s.setWork i .outer)
  | enter {i : ℕ} {connected : Bool} (hi : s.works[i]? = some .outer) :
      QueuePass s (.work i connected) (s.setWork i (if s.started then .waiting else .uncounting))
  | away {i : ℕ} {connected : Bool} {pc pc' : DBWorkPc} {liveConnNum : ℤ} (hi : s.works[i]? = some pc)
      (hpc : pc ≠ .waiting) (hto : pc' ≠ .outer) (hquery : ∀ cmd, pc = .querying cmd → s.createDBBase.isSome = false)
      (hcount : pc ≠ .counting) : QueuePass s (.work i connected) ({ s with liveConnNum := liveConnNum }.setWork i pc')
  | callEnd {starting : Bool} (hcaller : s.caller = .pushing starting 0) :
      QueuePass s .callEnd { s with started := starting || s.started, caller := .idle }
  | stop : QueuePass s .stop { s with started := false }
  | workEnd {i : ℕ} {p : ThreadPool} (hi : s.works[i]? = some .ended) :
      QueuePass s (.workEnd i) { s with threadPool := p, works := s.works.set i .connecting }
  | other {op : DBPoolOp} {t : DBPool} (hrq : t.rq = s.rq) (hstarted : t.started = s.started)
      (hworks : t.works = s.works) (hquery : ∀ cmd, op ≠ .query cmd) (hwork : ∀ i c, op ≠ .work i c)
      (hcall : op ≠ .callEnd) : QueuePass s op t

theorem queuePass_of_work {connected : Bool} {pc : DBWorkPc} (hi : s.works[i]? = some pc)
    (h : s.work i connected pc = some t) : QueuePass s (.work i connected) t := by
  cases pc with
  | connecting =>
    obtain rfl := Option.some.inj h
    refine .away hi DBWorkPc.noConfusion ?_ (fun _ => DBWorkPc.noConfusion) DBWorkPc.noConfusion
    split <;> exact DBWorkPc.noConfusion
  | counting =>
    obtain rfl := Option.some.inj h
    exact .count hi
  | outer =>
    obtain rfl := Option.some.inj h
    exact .enter hi
  | waiting =>
    simp only [work] at h
    split at h
    · next hrq =>
      obtain rfl := Option.some.inj h
      exact .ping hi hrq
    · next cmd rest hrq =>
      obtain rfl := Option.some.inj h
      exact .take hi hrq
  | querying cmd =>
    obtain rfl := Option.some.inj h
    split
    · next hresult => exact .answer hi hresult
    · next hnone =>
      refine .away hi DBWorkPc.noConfusion DBWorkPc.noConfusion ?_ DBWorkPc.noConfusion
      intro _ _
      exact Bool.eq_false_iff.mpr hnone
  | uncounting =>
    obtain rfl := Option.some.inj h
    exact .away hi DBWorkPc.noConfusion DBWorkPc.noConfusion (fun _ => DBWorkPc.noConfusion) DBWorkPc.noConfusion
  | ended => cases h

theorem queuePass_of_step (h : s.step op = some t) : QueuePass s op t := by
  cases dbPoolPass_of_step h with
  | work hbusy hi hmove =>
    obtain ⟨-, hwork⟩ := Option.ite_none_right_eq_some.mp h
    obtain ⟨pc, hpc, hnext⟩ := Option.bind_eq_some_iff.mp hwork
    exact queuePass_of_work hpc hnext
  | query cmd => exact .query cmd
  | workEnd hbusy hi => exact .workEnd hi
  | callEnd hcaller => exact .callEnd hcaller
  | stop => exact .stop
  | thread | startAgain | start | runEnd | pushTask | pushEnd | nothingToRecover | recover | destroyStarted
  | destroyStopped | delete => exact .other rfl rfl rfl nofun nofun nofun

/-! ## The order of the requests -/

/-- The requests that are queued in a run. -/
def queued : List DBPoolOp → List String :=
  List.filterMap fun
    | .query cmd => some cmd
    | _ => none

/-- The worker and its request, where the step takes one from the queue. -/
def takenBy (s t : DBPool) : DBPoolOp → List (ℕ × String)
  | .work i _ => match s.works[i]?, t.works[i]? with
    | some .waiting, some (.querying cmd) => [(i, cmd)]
    | _, _ => []
  | _ => []

/-- The requests that are taken in a run, each with the worker that takes it. -/
def taken : DBPool → List DBPoolOp → List (ℕ × String)
  | _, [] => []
  | s, op :: ops => match s.step op with
    | none => []
    | some t => s.takenBy t op ++ taken t ops

theorem takenBy_of_ne {connected : Bool} {pc : DBWorkPc} (hi : s.works[i]? = some pc) (hpc : pc ≠ .waiting) :
    s.takenBy t (.work i connected) = [] := by
  simp only [takenBy, hi]
  cases pc with
  | waiting => exact absurd rfl hpc
  | connecting | counting | outer | querying | uncounting | ended => rfl

theorem takenBy_of_waiting {connected : Bool} {pc : DBWorkPc} (hi : s.works[i]? = some .waiting)
    (hlt : i < t.works.length) : s.takenBy (t.setWork i pc) (.work i connected) = match pc with
      | .querying cmd => [(i, cmd)]
      | _ => [] := by
  have hset : (t.setWork i pc).works[i]? = some pc := List.getElem?_set_self hlt
  simp only [takenBy, hi, hset]
  cases pc <;> rfl

/-- A step queues at the back and takes at the front. -/
theorem rq_of_pass (h : QueuePass s op t) :
    s.rq ++ queued [op] = (s.takenBy t op).map Prod.snd ++ t.rq := by
  cases h with
  | query cmd => rfl
  | @take i connected cmd rest hi hrq =>
    have hlt := (List.getElem?_eq_some_iff.mp hi).1
    have htake := @takenBy_of_waiting s { s with rq := rest } i connected (.querying cmd) hi hlt
    rw [htake, hrq]
    exact List.append_nil (cmd :: rest)
  | ping hi =>
    have hlt := (List.getElem?_eq_some_iff.mp hi).1
    rw [takenBy_of_waiting hi hlt]
    exact List.append_nil _
  | count hi | answer hi | enter hi =>
    rw [takenBy_of_ne hi DBWorkPc.noConfusion]
    exact List.append_nil _
  | away hi hpc =>
    rw [takenBy_of_ne hi hpc]
    exact List.append_nil _
  | callEnd | stop | workEnd => exact List.append_nil _
  | other hrq _ _ hquery hwork =>
    rw [hrq]
    cases op with
    | query cmd => exact absurd rfl (hquery cmd)
    | work i c => exact absurd rfl (hwork i c)
    | thread | workEnd | start | runEnd | pushTask | pushEnd | callEnd | stop | recover | destroy | delete =>
      exact List.append_nil _

/-- Over a run the requests are taken in the order in which they were queued, and what is left is still there. -/
theorem rq_of_exec {ops : List DBPoolOp} (h : exec DBPool.step s ops = some u) :
    s.rq ++ queued ops = (s.taken ops).map Prod.snd ++ u.rq := by
  induction ops generalizing s with
  | nil =>
    obtain rfl := Option.some.inj h
    exact List.append_nil _
  | cons op ops ih =>
    obtain ⟨t, ht, hu⟩ := exec_cons_eq_some.mp h
    have hstep := rq_of_pass (queuePass_of_step ht)
    have hqueued : queued (op :: ops) = queued [op] ++ queued ops := by
      rw [← List.singleton_append, queued, List.filterMap_append]
    rw [hqueued, ← List.append_assoc, hstep, List.append_assoc, ih hu, taken, ht, List.map_append, List.append_assoc]

/-! ## Waiting beside a request -/

/-- The next step of the worker is the call of `CondWait`. -/
def Enters (s : DBPool) (i : ℕ) : Prop := s.works[i]? = some .outer ∧ s.started = true

/-- Nobody who is about to wait leaves a request behind. -/
def Attended (s : DBPool) : Prop := ∀ i, s.Enters i → s.rq = []

/-- A request is not queued while a `Work` is at its loop, and none comes there, from its connect or from a request,
to a request that waits. -/
def timely (s : DBPool) : DBPoolOp → Prop
  | .query _ => ∀ i, ¬ s.Enters i
  | .work i _ => s.started = true → s.works[i]? = some .counting ∨
      (s.createDBBase.isSome = true ∧ ∃ cmd, s.works[i]? = some (.querying cmd)) → s.rq = []
  | .callEnd => s.caller = .pushing true 0 → .outer ∈ s.works → s.rq = []
  | .thread _ | .workEnd _ | .start | .runEnd | .pushTask | .pushEnd | .stop | .recover | .destroy | .delete => True

theorem attended_iff : s.Attended ↔ (s.started = true → .outer ∈ s.works → s.rq = []) := by
  constructor
  · intro h hstarted houter
    obtain ⟨i, hi⟩ := List.mem_iff_getElem?.mp houter
    exact h i ⟨hi, hstarted⟩
  · intro h i hi
    exact h hi.2 (List.mem_of_getElem? hi.1)

/-- A `Work` that does not come to its loop with its step is in time. -/
theorem timely_work {connected : Bool} {pc : DBWorkPc} (hi : s.works[i]? = some pc) (hcount : pc ≠ .counting)
    (hquery : ∀ cmd, pc = .querying cmd → s.createDBBase.isSome = false) : s.timely (.work i connected) := by
  intro _ hpc
  rcases hpc with hcounting | ⟨hresult, cmd, hquerying⟩
  · exact absurd (Option.some.inj (hi.symm.trans hcounting)) hcount
  · rw [hquery cmd (Option.some.inj (hi.symm.trans hquerying))] at hresult
    cases hresult

/-- What a `Work` at its loop finds changes only as `timely` says. -/
theorem attended_step (hs : s.Attended) (h : QueuePass s op t) : t.Attended ↔ s.timely op := by
  rw [attended_iff] at hs
  have hmem {i : ℕ} {pc' : DBWorkPc} (hto : pc' ≠ .outer) (houter : .outer ∈ s.works.set i pc') : .outer ∈ s.works :=
    (List.mem_or_eq_of_mem_set houter).resolve_right (Ne.symm hto)
  have hset {i : ℕ} {pc : DBWorkPc} (hi : s.works[i]? = some pc) : .outer ∈ s.works.set i .outer :=
    List.mem_of_getElem? (List.getElem?_set_self (List.getElem?_eq_some_iff.mp hi).1)
  rw [attended_iff]
  cases h with
  | query cmd =>
    simp only [timely, Enters]
    constructor
    · intro ht i hi
      exact absurd (ht hi.2 (List.mem_of_getElem? hi.1)) (by simp)
    · intro hok hstarted houter
      obtain ⟨i, hi⟩ := List.mem_iff_getElem?.mp houter
      exact absurd ⟨hi, hstarted⟩ (hok i)
  | take hi hrq =>
    refine iff_of_true ?_ (timely_work hi DBWorkPc.noConfusion fun _ => DBWorkPc.noConfusion)
    intro hstarted houter
    have hnil := hs hstarted (hmem DBWorkPc.noConfusion houter)
    rw [hrq] at hnil
    cases hnil
  | ping hi hrq => exact iff_of_true (fun _ _ => hrq) (fun _ _ => hrq)
  | count hi =>
    constructor
    · intro ht hstarted _
      exact ht hstarted (hset hi)
    · intro hok hstarted _
      exact hok hstarted (Or.inl hi)
  | answer hi hresult =>
    constructor
    · intro ht hstarted _
      exact ht hstarted (hset hi)
    · intro hok hstarted _
      exact hok hstarted (Or.inr ⟨hresult, _, hi⟩)
  | enter hi =>
    refine iff_of_true ?_ (timely_work hi DBWorkPc.noConfusion fun _ => DBWorkPc.noConfusion)
    intro hstarted _
    exact hs hstarted (List.mem_of_getElem? hi)
  | away hi hpc hto hquery hcount =>
    refine iff_of_true ?_ (timely_work hi hcount hquery)
    intro hstarted houter
    exact hs hstarted (hmem hto houter)
  | @callEnd starting hcaller =>
    simp only [timely, hcaller, DBCallerPc.pushing.injEq, and_true]
    constructor
    · intro ht hstarting houter
      exact ht (by simp [hstarting]) houter
    · intro hok hstarted houter
      rcases Bool.or_eq_true_iff.mp hstarted with hstarting | hstarted
      · exact hok hstarting houter
      · exact hs hstarted houter
  | stop => exact iff_of_true nofun trivial
  | workEnd hi =>
    refine iff_of_true ?_ trivial
    intro hstarted houter
    exact hs hstarted (hmem DBWorkPc.noConfusion houter)
  | other hrq hstarted hworks hquery hwork hcall =>
    rw [hrq, hstarted, hworks]
    refine iff_of_true hs ?_
    cases op with
    | query cmd => exact absurd rfl (hquery cmd)
    | work i c => exact absurd rfl (hwork i c)
    | callEnd => exact absurd rfl hcall
    | thread | workEnd | start | runEnd | pushTask | pushEnd | stop | recover | destroy | delete => trivial

/-- In every run the requests are taken in their order, each by one worker, and in every state of it who is about to
wait finds no request, exactly when each step is timely. -/
theorem requests_attended_iff (dbType maxConn : ℤ) (mysqlEnable redisEnable : Bool) (processors : ℕ)
    (ops : List DBPoolOp) (u : DBPool)
    (h : exec DBPool.step (.new dbType maxConn mysqlEnable redisEnable processors) ops = some u) :
    (Always DBPool.step Attended (.new dbType maxConn mysqlEnable redisEnable processors) ops ∧
      queued ops = (taken (.new dbType maxConn mysqlEnable redisEnable processors) ops).map Prod.snd ++ u.rq) ↔
      Guarded DBPool.step timely (.new dbType maxConn mysqlEnable redisEnable processors) ops := by
  have hfifo := rq_of_exec h
  have hnew : (DBPool.new dbType maxConn mysqlEnable redisEnable processors).Attended := nofun
  refine (and_iff_left hfifo).trans (always_iff_guarded ?_ hnew h)
  intro s op t hs ht
  exact attended_step hs (queuePass_of_step ht)

/-- Two requests for the only worker, which comes back to its loop from the first one. -/
def busySample : List DBPoolOp :=
  [.start, .thread .startThread, .thread .startThread, .runEnd, .pushTask] ++
    List.replicate 4 (.thread (.stepPush 0 0)) ++ [.pushEnd, .callEnd] ++ List.replicate 5 (.thread (.work 0)) ++
    List.replicate 3 (.work 0 true) ++ [.query "a", .query "b", .work 0 true, .work 0 true]

theorem busySample_isSome : (exec DBPool.step (.new 2 1 true true 8) busySample).isSome = true := by decide +kernel

def busySampleEnd : DBPool := (exec DBPool.step (.new 2 1 true true 8) busySample).get busySample_isSome

theorem requests_attended_iff_busySample :
    (Always DBPool.step Attended (.new 2 1 true true 8) busySample ∧
      queued busySample = (taken (.new 2 1 true true 8) busySample).map Prod.snd ++ busySampleEnd.rq) ↔
      Guarded DBPool.step timely (.new 2 1 true true 8) busySample :=
  requests_attended_iff 2 1 true true 8 busySample busySampleEnd (Option.some_get _).symm

/-- The next step of the worker is to wait, beside the second request. -/
theorem not_requests_attended :
    ¬ ∀ (dbType maxConn : ℤ) (mysqlEnable redisEnable : Bool) (processors : ℕ) (ops : List DBPoolOp) (u : DBPool),
      exec DBPool.step (.new dbType maxConn mysqlEnable redisEnable processors) ops = some u →
        Always DBPool.step Attended (.new dbType maxConn mysqlEnable redisEnable processors) ops := by
  intro h
  have hend : exec DBPool.step (.new 2 1 true true 8) busySample = some busySampleEnd := (Option.some_get _).symm
  have hworker : busySampleEnd.works[0]? = some .outer := by decide +kernel
  have hstarted : busySampleEnd.started = true := by decide +kernel
  have hrq : busySampleEnd.rq = ["b"] := by decide +kernel
  have hnone := (h 2 1 true true 8 busySample busySampleEnd hend).of_exec hend 0 ⟨hworker, hstarted⟩
  rw [hrq] at hnone
  cases hnone

end DBPool

end Chaos
