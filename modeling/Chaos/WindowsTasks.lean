import Chaos.WindowsWakes

/-!
# No task is left behind on Windows

A worker that finds the event still set may come to the queue for nothing, again and again, but not while a task is in
it: whoever comes takes one. So the queue of a pool that serves is empty after a bounded number of steps, in whatever
order the threads go on.
-/
namespace Chaos

open GuardedRuns Threads

/-- To where the queue is empty. Every worker is on its way to the next task, and a task in the queue pays for the
round of the worker that takes it. -/
def Ranks.draining (n : ℕ) : Ranks where
  worker
    | .left => 0
    | .taking => 1
    | .testing => 2
    | .checking => 3
    | .locking | .woken => 4
    | .blocked | .outer => 5
    | .running _ | .unstarted | .waiting => 6
  push
    | .refused | .returned => 0
    | .signalling => 1
    | .emplacing => 8
    | .locking => 9
    | .called _ => 10
  stop _ := 0
  caller := (Ranks.serving n).caller
  task := 6

theorem falls_draining (n : ℕ) : (Ranks.draining n).Falls n := by
  constructor <;> simp [Ranks.draining]

namespace ThreadPool
variable {s t : ThreadPool} {op : ThreadPoolOp} {n p c : ℕ}

/-- How many threads and calls there are. -/
def Counts (s : ThreadPool) (n p c : ℕ) : Prop := s.workers.length = n ∧ s.pushes.length = p ∧ s.stops.length = c

/-- Only a new call changes it. -/
theorem Counts.step (h : Counts s n p c) (hcall : op.isCall = false) (ht : ThreadPoolPass s op t) : Counts t n p c := by
  refine ⟨(length_of_pass ht).trans h.1, ?_, ?_⟩
  · cases ht with
    | pushTask => cases hcall
    | refused | passed | lockPush | emplace | signal | lost => exact List.length_set.trans h.2.1
    | runs | ranBefore | started | startedBefore | runEnd | move | lock | wait | back | take | finish | stop | lockStop
    | clear | late | broadcast | join | joined | destroy | destroyJoin | destroyed => exact h.2.1
  · cases ht with
    | stop => cases hcall
    | lockStop | clear | late | broadcast | join | joined => exact List.length_set.trans h.2.2
    | runs | ranBefore | started | startedBefore | runEnd | move | lock | wait | back | take | finish | pushTask
    | refused | passed | lockPush | emplace | signal | lost | destroy | destroyJoin | destroyed => exact h.2.2

end ThreadPool

namespace WindowsPool

open ThreadPool

/-! ## Where the threads can go on -/

/-- The steps of the calls that are there and of the workers. -/
def goOn (s : WindowsPool) (op : ThreadPoolOp) : Option WindowsPool := if op.isCall then none else s.step op

/-- No thread can go on. -/
def AtRest (s : WindowsPool) : Prop := ∀ op, s.goOn op = none

section Rest
variable {s t : WindowsPool} {op : ThreadPoolOp} {i : ℕ}

theorem pass_of_goOn (h : s.goOn op = some t) : op.isCall = false ∧ WindowsPass s op t := by
  obtain ⟨hcall, hstep⟩ := Option.ite_none_left_eq_some.mp h
  exact ⟨Bool.eq_false_iff.mpr hcall, windowsPass_of_step hstep⟩

theorem exec_of_goOn {later : List ThreadPoolOp} (ht : exec goOn s later = some t) :
    exec WindowsPool.step s later = some t :=
  exec_mono (fun _ _ _ h => (Option.ite_none_left_eq_some.mp h).2) ht

theorem AtRest.step (h : AtRest s) (hcall : op.isCall = false) : s.step op = none := by
  have hnone := h op
  rw [goOn, hcall] at hnone
  exact hnone

/-- The pool itself is at rest as well. -/
theorem AtRest.pool (h : AtRest s) : s.pool.AtRest := by
  intro op
  cases hop : s.pool.onward op with
  | none => rfl
  | some p =>
    obtain ⟨hspurious, hgo⟩ := pass_of_onward hop
    obtain ⟨hcall, hstep⟩ := Option.ite_none_left_eq_some.mp hgo
    have hnone := h.step (Bool.eq_false_iff.mpr hcall)
    have hplain : s.plain op = some { s with pool := p } := by rw [plain, hstep, Option.map_some]
    cases op with
    | run | pushTask | stop | destroy => exact absurd rfl hcall
    | startThread | destroyJoin => cases hplain.symm.trans hnone
    | work i =>
      rw [WindowsPool.step] at hnone
      split at hnone
      · cases hnone
      · next hi =>
        rw [spurious, hi] at hspurious
        cases hspurious
      · cases hplain.symm.trans hnone
    | stepPush k j =>
      rw [WindowsPool.step] at hnone
      split at hnone
      · cases hnone
      · cases hnone
      · cases hplain.symm.trans hnone
    | stepStop c =>
      rw [WindowsPool.step] at hnone
      split at hnone
      · rw [hplain] at hnone
        cases hnone
      · cases hnone
      · cases hplain.symm.trans hnone

/-- A worker at rest waits for the event, which is not set. -/
theorem AtRest.blocked (h : AtRest s) (hi : s.pool.workers[i]? = some .blocked) :
    s.cond.cond = false ∧ s.waitPc i = .wait := by
  have hnone : s.step (.work i) = none := h.step rfl
  rw [WindowsPool.step, hi] at hnone
  cases hpc : s.waitPc i with
  | wait =>
    rw [hpc] at hnone
    refine ⟨?_, rfl⟩
    cases hset : s.cond.cond with
    | false => rfl
    | true =>
      simp only [condWait, hset] at hnone
      cases hnone
  | count | uncount | readSingle | readBroadcast | readCount | resetEvent | storeNormal =>
    rw [hpc] at hnone
    cases hnone

/-- So it is when the pool itself is and those inside the condition wait for the event. -/
theorem atRest_of_pool (h : s.pool.AtRest) (hcond : s.cond.cond = false)
    (hwait : ∀ i : ℕ, s.pool.workers[i]? = some .blocked → s.waitPc i = .wait) : AtRest s := by
  have hplain {op : ThreadPoolOp} (hcall : op.isCall = false) (hspurious : s.pool.spurious op = false) :
      s.plain op = none := by
    rw [plain, h.step hcall hspurious, Option.map_none]
  intro op
  cases op with
  | run | pushTask | stop | destroy => rfl
  | startThread | destroyJoin => exact hplain rfl rfl
  | work i =>
    change s.step (.work i) = none
    rw [WindowsPool.step]
    split
    · next hi => cases h.work hi WorkerPc.noConfusion
    · next hi => simp [condWait, hwait i hi, hcond]
    · next hblocked =>
      apply hplain rfl
      simpa [spurious] using hblocked
  | stepPush k j =>
    change s.step (.stepPush k j) = none
    rw [WindowsPool.step]
    split
    · next hk => cases h.push hk j
    · next hk =>
      obtain ⟨j, t, hj⟩ := exists_condSignal s.pool
      have hnone := h.push hk j
      rw [ThreadPool.stepPush, hj] at hnone
      cases hnone
    · exact hplain rfl rfl
  | stepStop c =>
    change s.step (.stepStop c) = none
    rw [WindowsPool.step]
    split
    · next hc => cases h.stop hc
    · next hc => cases h.stop hc
    · exact hplain rfl rfl

end Rest

/-! ## How long the threads can go on -/

section Bounds
variable {s : WindowsPool} {a : ThreadPool}

/-- Where the steps of the other pool lead down those of this one do, as each of its steps has finitely many accesses
of the condition before it. -/
theorem length_le_of_matched {go : WindowsPool → ThreadPoolOp → Option WindowsPool} {K : ThreadPool → Prop} {r : Ranks}
    (hgo : ∀ s op t, go s op = some t → s.goOn op = some t)
    (hstep : ∀ s a op t op' b, Refines s a → K a → go s op = some t → op'.isCall = false → ThreadPoolPass a op' b →
      K b ∧ b.distance r < a.distance r) (href : Refines s a) (hK : K a) :
    ∃ bound, ∀ later t, exec go s later = some t → later.length ≤ bound := by
  let R (u : WindowsPool) (b : ThreadPool) : Prop :=
    Refines u b ∧ K b ∧ Counts b a.workers.length a.pushes.length a.stops.length
  let most := a.workers.length * 8 + a.pushes.length * 3 + a.stops.length * 2
  have hmost (u : WindowsPool) (b : ThreadPool) (hu : R u b) : u.condLeft ≤ most := by
    obtain ⟨href, -, hn, hp, hc⟩ := hu
    simp only [most, ← hn, ← hp, ← hc, href.workers.length_eq]
    rw [href.rest]
    exact condLeft_le u
  have hmatch (u : WindowsPool) (op : ThreadPoolOp) (v : WindowsPool) (b : ThreadPool) (hu : R u b)
      (hv : go u op = some v) :
      ∃ d, R v d ∧ (d.distance r < b.distance r ∨ d.distance r = b.distance r ∧ v.condLeft < u.condLeft) := by
    obtain ⟨hub, hKb, hcounts⟩ := hu
    obtain ⟨hcall, hpass⟩ := pass_of_goOn (hgo u op v hv)
    obtain ⟨d, hd, hfollows⟩ := refines_step hub hpass
    cases hfollows with
    | inl hmoves =>
      obtain ⟨op', hop, hd'⟩ := hmoves
      have hpass' := threadPoolPass_of_step hd'
      have hcall' := hop.trans hcall
      obtain ⟨hKd, hlt⟩ := hstep u b op v op' d hub hKb hv hcall' hpass'
      exact ⟨d, ⟨hd, hKd, hcounts.step hcall' hpass'⟩, .inl hlt⟩
    | inr hsame =>
      obtain ⟨rfl, hless⟩ := hsame
      refine ⟨d, ⟨hd, hKb, hcounts⟩, .inr ⟨rfl, ?_⟩⟩
      cases hless with
      | inl hcalled => cases hcall.symm.trans hcalled
      | inr hless => exact hless
  refine ⟨a.distance r * (most + 1) + s.condLeft, fun later t ht => ?_⟩
  obtain ⟨b, -, hle⟩ := length_le_of_matching (distance r) condLeft hmost hmatch ⟨href, hK, rfl, rfl, rfl⟩ ht
  exact Nat.le_trans (Nat.le_add_right _ _) hle

end Bounds

/-! ## The tasks -/

section Tasks
variable {s t : WindowsPool} {a : ThreadPool} {op : ThreadPoolOp}

/-- The pool serves, and no call of `Stop` is there. -/
def Serves (a : ThreadPool) : Prop := Live a ∧ Serving a ∧ ∀ pc ∈ a.stops, pc = .returned

theorem Serves.step {b : ThreadPool} {op' : ThreadPoolOp} (h : Serves a) (hcall : op'.isCall = false)
    (ht : ThreadPoolPass a op' b) : Serves b := by
  obtain ⟨hlive, hserving, hstops⟩ := h
  refine ⟨hlive.step ht, hserving.goOn hlive.life.apart hstops ?_ ht⟩
  rintro rfl
  cases hcall

theorem Refines.serves (h : Refines s a) (hlive : Live a) (hrun : s.pool.running = true) (hleft : .left ∉ s.pool.workers)
    (hstops : ∀ pc ∈ s.pool.stops, pc = .returned) : Serves a := by
  have hleft' : .left ∉ a.workers := by
    intro hmem
    obtain ⟨i, hi⟩ := List.getElem?_of_mem hmem
    exact hleft (List.mem_of_getElem? (ahead_get_of_ne_woken h.workers hi WorkerPc.noConfusion))
  refine ⟨hlive, hlive.serving ?_ hleft', ?_⟩
  · rw [h.rest]
    exact hrun
  · rw [h.rest]
    exact hstops

/-- The pool serves as long as its threads go on by themselves. -/
theorem serving_of_goOn {later : List ThreadPoolOp} (href : Refines s a) (hserves : Serves a)
    (ht : exec goOn s later = some t) : Serving t.pool := by
  have hinv : ∃ b, Refines t b ∧ Serves b := by
    have hstep (u : WindowsPool) (op : ThreadPoolOp) (v : WindowsPool) (hu : ∃ b, Refines u b ∧ Serves b)
        (hv : u.goOn op = some v) : ∃ b, Refines v b ∧ Serves b := by
      obtain ⟨b, hb, hserves⟩ := hu
      obtain ⟨hcall, hpass⟩ := pass_of_goOn hv
      obtain ⟨d, hd, hfollows⟩ := refines_step hb hpass
      cases hfollows with
      | inl hmoves =>
        obtain ⟨op', hop, hd'⟩ := hmoves
        exact ⟨d, hd, hserves.step (hop.trans hcall) (threadPoolPass_of_step hd')⟩
      | inr hsame => exact ⟨d, hd, hsame.1 ▸ hserves⟩
    exact invariant_of_exec hstep ⟨a, href, hserves⟩ ht
  obtain ⟨b, hb, -, hserving, -⟩ := hinv
  rw [hb.rest] at hserving
  exact serving_of_ahead hb.workers hserving

/-- A pool that serves and is at rest has run all its tasks, and every worker waits for the event. -/
theorem AtRest.served (h : AtRest s) (hknown : Known s) (hserving : Serving s.pool) :
    s.pool.queue = [] ∧ s.cond.cond = false ∧
      ∀ i < s.pool.workers.length, s.pool.workers[i]? = some .blocked ∧ s.waitPc i = .wait := by
  have hcarried := hknown.matched.carried
  have howner := h.pool.owner hcarried.held hcarried.tested
  have hblocked (i : ℕ) (hi : i < s.pool.workers.length) : s.pool.workers[i]? = some .blocked := by
    have hget := List.getElem?_eq_getElem hi
    have hmem := List.mem_of_getElem? hget
    have hin := hserving.inside h.pool.starting _ hmem
    rcases h.pool.workers howner hcarried.tested _ hmem with hnever | hwait | hleft
    · rw [hnever] at hin
      cases hin
    · rw [hget, hwait]
    · rw [hleft] at hin
      cases hin
  have hcond : s.cond.cond = false :=
    (h.blocked (hblocked 0 (List.length_pos_iff.mpr hcarried.manned))).1
  refine ⟨?_, hcond, fun i hi => ⟨hblocked i hi, (h.blocked (hblocked i hi)).2⟩⟩
  by_contra hq
  rcases hknown.wakes.served hq with hset | ⟨i, hi, hawake⟩ | ⟨k, hk⟩
  · cases hcond.symm.trans hset
  · exact hawake ⟨hblocked i hi, .inr (h.blocked (hblocked i hi)).2⟩
  · cases h.pool.pushes howner _ (List.mem_of_getElem? hk) with
    | inl hrefused => cases hrefused
    | inr hreturned => cases hreturned

end Tasks

/-- A pool of one worker with a call of `PushTask` that has begun. -/
def windowsPushed : List ThreadPoolOp := [.run, .startThread, .startThread, .pushTask false]

theorem windowsPushed_isSome : (exec WindowsPool.step (.new 1 8) windowsPushed).isSome = true := by decide +kernel

def windowsPushedEnd : WindowsPool := (exec WindowsPool.step (.new 1 8) windowsPushed).get windowsPushed_isSome

/-- The worker waits, the task is queued, and the worker runs it and comes to the wait again. -/
def windowsDone : List ThreadPoolOp :=
  List.replicate 5 (.work 0) ++ List.replicate 6 (.stepPush 0 0) ++ List.replicate 15 (.work 0)

theorem windowsDone_isSome : (exec goOn windowsPushedEnd windowsDone).isSome = true := by decide +kernel

def windowsDoneEnd : WindowsPool := (exec goOn windowsPushedEnd windowsDone).get windowsDone_isSome

end WindowsPool

end Chaos
