import Chaos.PoolSteps

/-!
# The start of a pool

The branch of the last task to count calls the callback or signals the condition variable. The counter is one
for all pools, and the branch may run before `Start` has stored the callback or waits: where neither happens the
report comes once, with all centres there, and reaches the call of `Start`.
-/
namespace Chaos.PoolStart

open CentrePool GuardedRuns

/-! ## The report of a start -/

/-- The address of the centre is in `m_centres`. -/
def pushed : WorkPc → Bool
  | .pushing => false
  | _ => true

/-- The task has counted. -/
def counted : WorkPc → Bool
  | .pushing | .counting => false
  | _ => true

/-- The task is in the branch of the last one to count. -/
def inBranch : WorkPc → Bool
  | .starting | .reporting => true
  | _ => false

/-- All tasks of the pool are past the counter and its branch. -/
def AllCounted (s : CentrePool) : Prop :=
  s.works.length = s.threadNum ∧ ∀ w ∈ s.works, counted w.pc = true ∧ inBranch w.pc = false

instance (s : CentrePool) : Decidable (AllCounted s) := inferInstanceAs (Decidable (_ ∧ _))

/-- The callback is called at most once and with all centres there. Once all tasks have counted a `Start` that
has returned has had its callback called, and none without a callback waits. -/
structure StartReported (s : CentrePool) : Prop where
  once : s.calls.length ≤ 1
  complete : ∀ n ∈ s.calls, n = s.threadNum
  called : AllCounted s → ∀ call ∈ s.starts, call.cb = true → call.pc = .returned → s.calls ≠ []
  woken : AllCounted s → ∀ call ∈ s.starts, call.cb = false → call.pc ≠ .waiting

/-- How many tasks are at such a place. -/
def worksAt (s : CentrePool) (place : WorkPc → Bool) : ℕ := s.works.countP fun w => place w.pc

/-- The pool is started once; the counter takes a task for the last one when it is the last of the pool; and
the report finds the callback stored, or a `Start` without one past the lock. -/
def startOk (worked : ℤ) (s : CentrePool) : PoolOp → Prop
  | .start cb => s.starts = [] ∨ (s.started = true ∧ cb = false)
  | .count _ => s.threadNum ≤ intAdd worked 1 ↔ worksAt s counted + 1 = s.threadNum
  | .report _ _ => ∀ call ∈ s.starts,
      (call.cb = true → s.startedCb = true) ∧ (call.cb = false → call.pc = .waiting ∨ call.pc = .returned)
  | .pushTask _ | .startEnd _ | .wake _ | .begin _ | .pushCentre _ | .setStarted _ | .enterLoop _ | .leave _
  | .fail _ | .exit _ | .return _ | .stopBegin | .stopVisit | .stopEnd | .registerCheck | .registerBegin
  | .registerVisit _ | .registerEnd | .registerCall _ | .poolStop => True

instance (worked : ℤ) (s : CentrePool) : (op : PoolOp) → Decidable (startOk worked s op)
  | .start _ => inferInstanceAs (Decidable (_ ∨ _))
  | .count _ => inferInstanceAs (Decidable (_ ↔ _))
  | .report _ _ => inferInstanceAs (Decidable (∀ call ∈ s.starts, _))
  | .pushTask _ | .startEnd _ | .wake _ | .begin _ | .pushCentre _ | .setStarted _ | .enterLoop _ | .leave _
  | .fail _ | .exit _ | .return _ | .stopBegin | .stopVisit | .stopEnd | .registerCheck | .registerBegin
  | .registerVisit _ | .registerEnd | .registerCall _ | .poolStop => isTrue trivial

/-! ## The tasks of the one call of `Start` -/

/-- A call without a callback that has returned. -/
def noCallback : StartCall := ⟨false, .returned⟩

/-- The call that has started the pool. -/
def launch (s : CentrePool) : StartCall := s.starts.headD noCallback

/-- There are never more tasks than threads; the branch is entered by the last of them alone, and a report is a
call or a signal: with a callback it is a call, without one a signal after which `Start` has returned. -/
structure StartInv (s : CentrePool) : Prop where
  threads : 1 ≤ s.threadNum
  unused : s.starts = [] → s.queued = 0 ∧ s.works = [] ∧ s.startedCb = false
  later : ∀ call ∈ s.starts.tail, call = noCallback
  tasks : s.queued + s.works.length + (launch s).pc.tasksLeft ≤ s.threadNum
  centres : s.centres.length = worksAt s pushed
  reports : s.calls.length + s.signals + worksAt s inBranch =
    if worksAt s counted = s.threadNum then 1 else 0
  complete : ∀ n ∈ s.calls, n = s.threadNum
  stored : s.startedCb = true → (launch s).cb = true
  calls : s.calls ≠ [] → (launch s).cb = true
  signals : 0 < s.signals → launch s = noCallback

section Invariant
variable {s : CentrePool} {i k : ℕ} {w w' : Work} {call : StartCall} {pc : StartPc} {cb : Bool}

theorem startInv_new {n : ℕ} (hn : 1 ≤ n) : StartInv (.new n) where
  threads := hn
  unused _ := ⟨rfl, rfl, rfl⟩
  later := by simp [CentrePool.new]
  tasks := by simp [CentrePool.new, launch, noCallback, StartPc.tasksLeft]
  centres := rfl
  reports := by
    have hn : ¬0 = n := by omega
    simp [CentrePool.new, worksAt, hn]
  complete := by simp [CentrePool.new]
  stored := by simp [CentrePool.new]
  calls := by simp [CentrePool.new]
  signals := by simp [CentrePool.new]

theorem counted_le_pushed (s : CentrePool) : worksAt s counted ≤ worksAt s pushed := by
  apply List.countP_mono_left
  intro w _ hw
  revert hw
  cases w.pc <;> simp [counted, pushed]

theorem worksAt_le_length (s : CentrePool) (place : WorkPc → Bool) : worksAt s place ≤ s.works.length :=
  List.countP_le_length

theorem length_le (h : StartInv s) : s.works.length ≤ s.threadNum := by
  have := h.tasks
  omega

/-- When the last task has counted all centres are there. -/
theorem length_centres (h : StartInv s) (hall : worksAt s counted = s.threadNum) :
    s.centres.length = s.threadNum := by
  have hcounted := counted_le_pushed s
  have hpushed := worksAt_le_length s pushed
  have hlen := length_le h
  have hcentres := h.centres
  omega

theorem launch_mem (hne : s.starts ≠ []) : launch s ∈ s.starts := by
  obtain ⟨call, rest, hstarts⟩ := List.exists_cons_of_ne_nil hne
  simp [launch, hstarts]

theorem mem_starts (h : StartInv s) (hcall : call ∈ s.starts) : call = launch s ∨ call = noCallback := by
  have hlater := h.later
  revert hcall hlater
  rw [launch]
  cases s.starts with
  | nil => simp
  | cons first rest =>
    intro hcall hlater
    rcases List.mem_cons.mp hcall with hcall | hcall
    · exact Or.inl hcall
    · exact Or.inr (hlater call hcall)

/-- A call that has not returned is the one that has started the pool. -/
theorem launch_of_pending (h : StartInv s) (hk : s.starts[k]? = some ⟨cb, pc⟩) (hpc : pc ≠ .returned) :
    launch s = ⟨cb, pc⟩ ∧ ∀ call, s.starts.set k call = call :: s.starts.tail := by
  have hlater := h.later
  revert hk hlater
  rw [launch]
  cases s.starts with
  | nil => simp
  | cons first rest =>
    intro hk hlater
    cases k with
    | zero => exact ⟨Option.some.inj hk, fun call => rfl⟩
    | succ k =>
      have hcall := hlater _ (List.mem_of_getElem? hk)
      cases hcall
      exact absurd rfl hpc

theorem launch_cons {rest : List StartCall} (hstarts : s.starts = call :: rest) : launch s = call := by
  rw [launch, hstarts, List.headD_cons]

theorem works_ne_nil (hi : s.works[i]? = some w) : s.works ≠ [] := by
  intro hnil
  simp [hnil] at hi

theorem starts_ne_nil (h : StartInv s) (hi : s.works[i]? = some w) : s.starts ≠ [] :=
  fun hnil => works_ne_nil hi (h.unused hnil).2.1

/-! ## The steps -/

theorem worksAt_setWork (place : WorkPc → Bool) (hi : s.works[i]? = some w) (w' : Work) :
    worksAt (s.setWork i w') place + (if place w.pc then 1 else 0) =
      worksAt s place + if place w'.pc then 1 else 0 := by
  obtain ⟨hlt, rfl⟩ := List.getElem?_eq_some_iff.mp hi
  have hle : (if place s.works[i].pc then 1 else 0) ≤ worksAt s place := by
    split
    · exact List.countP_pos_iff.mpr ⟨_, List.getElem_mem hlt, by assumption⟩
    · exact Nat.zero_le _
  rw [worksAt] at hle
  rw [worksAt, worksAt, setWork_works, List.countP_set hlt]
  omega

theorem worksAt_same {place : WorkPc → Bool} {before : WorkPc} (hi : s.works[i]? = some w) (hpc : w.pc = before)
    (hsame : place w'.pc = place before) : worksAt (s.setWork i w') place = worksAt s place := by
  have hcount := worksAt_setWork place hi w'
  rw [hpc, hsame] at hcount
  omega

theorem worksAt_enter {place : WorkPc → Bool} {before : WorkPc} (hi : s.works[i]? = some w) (hpc : w.pc = before)
    (hw : place before = false) (hw' : place w'.pc = true) :
    worksAt (s.setWork i w') place = worksAt s place + 1 := by
  simpa [hpc, hw, hw'] using worksAt_setWork place hi w'

theorem worksAt_leave {place : WorkPc → Bool} {before : WorkPc} (hi : s.works[i]? = some w) (hpc : w.pc = before)
    (hw : place before = true) (hw' : place w'.pc = false) :
    worksAt (s.setWork i w') place + 1 = worksAt s place := by
  simpa [hpc, hw, hw'] using worksAt_setWork place hi w'

/-- The invariant says nothing about the other members of the pool. -/
theorem StartInv.frame (h : StartInv s) (started poolRunning : Bool) (walk : Option Walk) (checked : ℕ)
    (chosen : List ℕ) (stopped : Bool) :
    StartInv { s with
      started := started, poolRunning := poolRunning, walk := walk
      checked := checked, chosen := chosen, stopped := stopped } :=
  ⟨h.threads, h.unused, h.later, h.tasks, h.centres, h.reports, h.complete, h.stored, h.calls, h.signals⟩

/-- What is left to show when a task moves. -/
theorem StartInv.setWork (h : StartInv s) (hi : s.works[i]? = some w) {centres calls : List ℕ} {signals : ℕ}
    (hcentres : centres.length = worksAt (s.setWork i w') pushed)
    (hreports : calls.length + signals + worksAt (s.setWork i w') inBranch =
      if worksAt (s.setWork i w') counted = s.threadNum then 1 else 0)
    (hcomplete : ∀ n ∈ calls, n = s.threadNum) (hcalls : calls ≠ [] → (launch s).cb = true)
    (hsignals : 0 < signals → launch s = noCallback) :
    StartInv ({ s with centres := centres, calls := calls, signals := signals }.setWork i w') := by
  have hstarts : s.starts ≠ [] := starts_ne_nil h hi
  refine ⟨h.threads, fun hnil => absurd hnil hstarts, h.later, ?_, hcentres, hreports, hcomplete, h.stored,
    hcalls, hsignals⟩
  rw [setWork_works, List.length_set]
  exact h.tasks

/-- A task moves outside `m_centres`, the counter and the branch. -/
theorem StartInv.move (h : StartInv s) {before : WorkPc} (hi : s.works[i]? = some w) (hpc : w.pc = before)
    (hsame : (pushed w'.pc, counted w'.pc, inBranch w'.pc) = (pushed before, counted before, inBranch before)) :
    StartInv (s.setWork i w') := by
  simp only [Prod.mk.injEq] at hsame
  obtain ⟨hpushed, hcounted, hbranch⟩ := hsame
  refine h.setWork hi ?_ ?_ h.complete h.calls h.signals
  · rw [worksAt_same hi hpc hpushed]
    exact h.centres
  · rw [worksAt_same hi hpc hcounted, worksAt_same hi hpc hbranch]
    exact h.reports

/-- The first call. -/
theorem StartInv.first (h : StartInv s) (hnil : s.starts = []) (hleft : call.pc.tasksLeft ≤ s.threadNum) :
    StartInv { s with starts := [call] } := by
  obtain ⟨hqueued, hworks, hcb⟩ := h.unused hnil
  have hreports := h.reports
  have hthreads := h.threads
  have hnot : ¬0 = s.threadNum := by omega
  simp only [worksAt, hworks, List.countP_nil, hnot, if_false, Nat.add_eq_zero_iff,
    List.length_eq_zero_iff] at hreports
  obtain ⟨⟨hcalls, hsignals⟩, -⟩ := hreports
  refine ⟨hthreads, nofun, nofun, ?_, h.centres, h.reports, h.complete, ?_, ?_, ?_⟩
  · simpa [launch, hqueued, hworks] using hleft
  · intro hstored
    rw [hcb] at hstored
    cases hstored
  · exact fun hne => absurd hcalls hne
  · intro hpos
    rw [hsignals] at hpos
    cases hpos

theorem StartInv.again (h : StartInv s) (hne : s.starts ≠ []) :
    StartInv { s with starts := s.starts ++ [noCallback] } := by
  obtain ⟨first, rest, hstarts⟩ := List.exists_cons_of_ne_nil hne
  have hlaunch : launch { s with starts := s.starts ++ [noCallback] } = launch s := by simp [launch, hstarts]
  refine ⟨h.threads, by simp, ?_, by rw [hlaunch]; exact h.tasks, h.centres, h.reports, h.complete,
    by rw [hlaunch]; exact h.stored, by rw [hlaunch]; exact h.calls, by rw [hlaunch]; exact h.signals⟩
  intro call hcall
  rw [hstarts, List.cons_append, List.tail_cons, List.mem_append, List.mem_singleton] at hcall
  rcases hcall with hcall | hcall
  · exact h.later call (by simpa [hstarts] using hcall)
  · exact hcall

theorem StartInv.start (h : StartInv s) (hok : s.starts = [] ∨ (s.started = true ∧ cb = false)) :
    StartInv (s.start cb) := by
  rw [CentrePool.start]
  by_cases hnil : s.starts = []
  · rw [hnil]
    split
    · exact h.first hnil (Nat.zero_le _)
    · have hfirst : StartInv { s with starts := [⟨cb, .pushing s.threadNum⟩] } := h.first hnil (Nat.le_refl _)
      exact hfirst.frame ..
  · obtain ⟨hstarted, rfl⟩ := hok.resolve_left hnil
    rw [if_pos hstarted]
    exact h.again hnil

/-- The call that has started the pool goes on. -/
theorem StartInv.setCall (h : StartInv s) (hk : s.starts[k]? = some ⟨cb, pc⟩) (hpc : pc ≠ .returned) {pc' : StartPc}
    {queued : ℕ} {startedCb : Bool} (htasks : queued + pc'.tasksLeft ≤ s.queued + pc.tasksLeft)
    (hcb : startedCb = true → s.startedCb = true ∨ cb = true) :
    StartInv ({ s with queued := queued, startedCb := startedCb }.setStart k ⟨cb, pc'⟩) := by
  obtain ⟨hlaunch, hset⟩ := launch_of_pending h hk hpc
  have hnew : launch ({ s with queued := queued, startedCb := startedCb }.setStart k ⟨cb, pc'⟩) = ⟨cb, pc'⟩ :=
    launch_cons (hset _)
  refine ⟨h.threads, ?_, ?_, ?_, h.centres, h.reports, h.complete, ?_, ?_, ?_⟩
  · intro hnil
    rw [setStart_starts, hset] at hnil
    cases hnil
  · rw [setStart_starts, hset]
    exact h.later
  · have hbefore := h.tasks
    rw [hlaunch] at hbefore
    rw [hnew]
    change s.queued + s.works.length + pc.tasksLeft ≤ s.threadNum at hbefore
    change queued + s.works.length + pc'.tasksLeft ≤ s.threadNum
    omega
  · intro hstored
    rw [hnew]
    rcases hcb hstored with hcb | hcb
    · simpa [hlaunch] using h.stored hcb
    · exact hcb
  · intro hne
    rw [hnew]
    simpa [hlaunch] using h.calls hne
  · intro hpos
    have hdone := h.signals hpos
    rw [hlaunch] at hdone
    cases hdone
    exact absurd rfl hpc

/-- A thread has taken a task. -/
theorem StartInv.begin (h : StartInv s) (hqueued : 0 < s.queued) (isInit : Bool) :
    StartInv { s with queued := s.queued - 1, works := s.works ++ [⟨isInit, .pushing, false⟩] } := by
  have hsame : ∀ place : WorkPc → Bool, place .pushing = false →
      worksAt { s with queued := s.queued - 1, works := s.works ++ [⟨isInit, .pushing, false⟩] } place =
        worksAt s place := by
    intro place hplace
    simp [worksAt, hplace]
  refine ⟨h.threads, ?_, h.later, ?_, ?_, ?_, h.complete, h.stored, h.calls, h.signals⟩
  · intro hnil
    have hzero := (h.unused hnil).1
    omega
  · have htasks := h.tasks
    change s.queued - 1 + (s.works ++ [_]).length + (launch s).pc.tasksLeft ≤ s.threadNum
    rw [List.length_append, List.length_singleton]
    omega
  · rw [hsame pushed rfl]
    exact h.centres
  · rw [hsame inBranch rfl, hsame counted rfl]
    exact h.reports

theorem StartInv.pushCentre (h : StartInv s) (hi : s.works[i]? = some w) (hpc : w.pc = .pushing) :
    StartInv ({ s with centres := s.centres ++ [i] }.setWork i { w with pc := .counting }) := by
  refine h.setWork hi ?_ ?_ h.complete h.calls h.signals
  · rw [worksAt_enter hi hpc rfl rfl, List.length_append, List.length_singleton, h.centres]
  · rw [worksAt_same hi hpc rfl, worksAt_same hi hpc rfl]
    exact h.reports

theorem counted_lt (h : StartInv s) (hi : s.works[i]? = some w) (hpc : w.pc = .counting) :
    worksAt s counted < s.threadNum := by
  have hcounted : worksAt (s.setWork i { w with pc := .entering }) counted = worksAt s counted + 1 :=
    worksAt_enter hi hpc rfl rfl
  have hall := worksAt_le_length (s.setWork i { w with pc := .entering }) counted
  have hlen := length_le h
  rw [setWork_works, List.length_set] at hall
  omega

/-- A task counts; it enters the branch when it is the last one of the pool. -/
theorem StartInv.count (h : StartInv s) (hi : s.works[i]? = some w) (hpc : w.pc = .counting) {last : Prop}
    [Decidable last] (hlast : last ↔ worksAt s counted + 1 = s.threadNum) :
    StartInv (s.setWork i { w with pc := if last then .starting else .entering }) := by
  have hreports := h.reports
  rw [if_neg (counted_lt h hi hpc).ne] at hreports
  by_cases hl : last
  · simp only [hl, if_true]
    refine h.setWork hi ?_ ?_ h.complete h.calls h.signals
    · rw [worksAt_same hi hpc rfl]
      exact h.centres
    · rw [worksAt_enter hi hpc rfl rfl, worksAt_enter hi hpc rfl rfl, if_pos (hlast.mp hl)]
      omega
  · simp only [hl, if_false]
    refine h.setWork hi ?_ ?_ h.complete h.calls h.signals
    · rw [worksAt_same hi hpc rfl]
      exact h.centres
    · rw [worksAt_same hi hpc rfl, worksAt_enter hi hpc rfl rfl,
        if_neg fun hall => hl (hlast.mpr hall)]
      exact hreports

/-- The task in the branch makes its report. -/
theorem StartInv.report (h : StartInv s) (hi : s.works[i]? = some w) (hpc : w.pc = .reporting) {calls : List ℕ}
    {signals : ℕ} (hone : calls.length + signals = s.calls.length + s.signals + 1)
    (hcomplete : worksAt s counted = s.threadNum → ∀ n ∈ calls, n = s.threadNum)
    (hcalls : calls ≠ [] → (launch s).cb = true) (hsignals : 0 < signals → launch s = noCallback) :
    StartInv ({ s with calls := calls, signals := signals }.setWork i { w with pc := .entering }) := by
  have hbranch : worksAt (s.setWork i { w with pc := .entering }) inBranch + 1 = worksAt s inBranch :=
    worksAt_leave hi hpc rfl rfl
  have hcounted : worksAt (s.setWork i { w with pc := .entering }) counted = worksAt s counted :=
    worksAt_same hi hpc rfl
  have hreports := h.reports
  have hall : worksAt s counted = s.threadNum := by
    by_contra hnot
    rw [if_neg hnot] at hreports
    omega
  rw [if_pos hall] at hreports
  refine h.setWork hi ?_ ?_ (hcomplete hall) hcalls hsignals
  · rw [worksAt_same hi hpc rfl]
    exact h.centres
  · rw [hcounted, if_pos hall]
    omega

theorem StartInv.called (h : StartInv s) (hi : s.works[i]? = some w) (hpc : w.pc = .reporting)
    (hcb : s.startedCb = true) :
    StartInv ({ s with calls := s.calls ++ [s.centres.length] }.setWork i { w with pc := .entering }) := by
  have hlaunch := h.stored hcb
  refine h.report hi hpc ?_ ?_ (fun _ => hlaunch) h.signals
  · rw [List.length_append, List.length_singleton]
    omega
  · intro hall n hn
    rw [List.mem_append, List.mem_singleton] at hn
    rcases hn with hn | rfl
    · exact h.complete n hn
    · exact length_centres h hall

/-- A signal reaches the call when it is the one that waits, or has returned. -/
theorem StartInv.signal (h : StartInv s) (hi : s.works[i]? = some w) (hpc : w.pc = .reporting)
    (hdone : launch s = noCallback) :
    StartInv ({ s with signals := s.signals + 1 }.setWork i { w with pc := .entering }) := by
  refine h.report hi hpc ?_ (fun _ => h.complete) h.calls (fun _ => hdone)
  omega

theorem noCallback_of_report (hcb : s.startedCb = false) (hok : call.cb = true → s.startedCb = true) :
    call.cb = false := by
  by_contra hwith
  have hstored := hok (by simpa using hwith)
  rw [hcb] at hstored
  cases hstored

/-- What a step keeps. -/
theorem startInv_step (worked worked' : ℤ) (s : CentrePool) (op : PoolOp) (s' : CentrePool) (h : StartInv s)
    (hok : startOk worked s op) (hpass : PoolPass worked s op worked' s') : StartInv s' := by
  cases hpass with
  | start cb => exact h.start hok
  | pushTask hk =>
    rw [CentrePool.pushTask]
    split
    · exact h.setCall hk (by simp) (by simp only [StartPc.tasksLeft]; omega) Or.inl
    · exact h.setCall hk (by simp) (by simp only [StartPc.tasksLeft]; omega) Or.inl
  | stored hk => exact h.setCall hk (by simp) (Nat.le_refl _) (fun _ => Or.inr rfl)
  | waits hk _ => exact h.setCall hk (by simp) (Nat.le_refl _) Or.inl
  | wake hk => exact h.setCall hk (by simp) (Nat.le_refl _) Or.inl
  | begin _ hqueued _ => exact h.begin hqueued _
  | pushCentre hi hpc _ => exact h.pushCentre hi hpc
  | count hi hpc => exact h.count hi hpc hok
  | setStarted hi hpc => exact (h.frame true ..).move hi hpc rfl
  | called hi hpc hcb => exact h.called hi hpc hcb
  | lost hi hpc hcb hnone =>
    have hmem := launch_mem (starts_ne_nil h hi)
    have hnocb := noCallback_of_report hcb (hok _ hmem).1
    have hreturned := ((hok _ hmem).2 hnocb).resolve_left (hnone _ hmem)
    refine h.signal hi hpc ?_
    rw [noCallback, ← hnocb, ← hreturned]
  | @woken i k w cb hi hpc hcb hk =>
    have hnocb := noCallback_of_report hcb (hok _ (List.mem_of_getElem? hk)).1
    have hreturned : StartInv (s.setStart k ⟨cb, .returned⟩) := h.setCall hk (by simp) (Nat.le_refl _) Or.inl
    refine hreturned.signal hi hpc ?_
    rw [launch_cons ((launch_of_pending h hk (by simp)).2 _), noCallback, ← hnocb]
  | refused hi hpc _ => exact h.move hi hpc rfl
  | loops hi hpc _ _ => exact h.move hi hpc rfl
  | leave hi hpc _ => exact h.move hi hpc rfl
  | fail hi hpc => exact h.move hi hpc rfl
  | exit hi _ => exact h.move hi rfl rfl
  | returns hi hpc => exact h.move hi hpc rfl
  | stopVisit _ hc _ => exact (h.frame ..).move hc rfl rfl
  | notStarted _ => exact h
  | stopBegin _ | stopEnd _ | registerCheck _ | registerBegin _ _ | registerVisit _ _ _ _ _ | registerEnd _
  | registerCall _ _ _ | poolStop => exact h.frame ..

end Invariant

/-! ## Runs -/

/-- When all tasks are past the branch a call has been made, or `Start` has returned without a callback. -/
theorem StartInv.reported {s : CentrePool} (h : StartInv s) (hall : AllCounted s) :
    s.calls ≠ [] ∨ launch s = noCallback := by
  obtain ⟨hlen, hplaces⟩ := hall
  have hcounted : worksAt s counted = s.threadNum := by
    rw [← hlen]
    exact List.countP_eq_length.mpr fun w hw => (hplaces w hw).1
  have hbranch : worksAt s inBranch = 0 := by
    apply List.countP_eq_zero.mpr
    intro w hw
    simp [(hplaces w hw).2]
  have hreports := h.reports
  rw [if_pos hcounted] at hreports
  by_cases hnil : s.calls = []
  · rw [hnil, List.length_nil] at hreports
    exact Or.inr (h.signals (by omega))
  · exact Or.inl hnil

theorem StartInv.startReported {s : CentrePool} (h : StartInv s) : StartReported s := by
  constructor
  · have hreports := h.reports
    split at hreports <;> omega
  · exact h.complete
  · intro hall call hcall hcb _
    rcases h.reported hall with hcalls | hdone
    · exact hcalls
    · rcases mem_starts h hcall with rfl | rfl
      · rw [hdone] at hcb
        cases hcb
      · cases hcb
  · intro hall call hcall hcb hpc
    rcases mem_starts h hcall with rfl | rfl
    · rcases h.reported hall with hcalls | hdone
      · rw [h.calls hcalls] at hcb
        cases hcb
      · rw [hdone] at hpc
        cases hpc
    · cases hpc

/-- In every run with such steps alone each pool reports its start once and completely. -/
theorem start_reported {threadNums : ℕ → ℕ} {ops : List (ℕ × PoolOp)} {s : PoolProcess}
    (hthreads : ∀ i, 1 ≤ threadNums i) (hrun : exec poolStep (.start threadNums) ops = some s)
    (hok : Guarded poolStep (onPool startOk) (.start threadNums) ops) (i : ℕ) : StartReported (s.pools i) :=
  (pool_invariant startInv_step (fun i => startInv_new (hthreads i)) hok hrun i).startReported

/-- The pool `0` has two threads and starts without a callback, the others have one and get one. -/
def threadsSample (i : ℕ) : ℕ := if i = 0 then 2 else 1

def blockingStart : List (ℕ × PoolOp) :=
  [(0, .start false), (0, .pushTask 0), (0, .begin true), (0, .pushTask 0), (0, .pushCentre 0), (0, .count 0),
    (0, .begin true), (0, .enterLoop 0), (0, .startEnd 0), (0, .pushCentre 1), (0, .count 1), (0, .setStarted 1),
    (0, .report 1 0), (0, .enterLoop 1)]

def startSample : List (ℕ × PoolOp) := blockingStart ++
  [(1, .start true), (1, .pushTask 0), (1, .startEnd 0), (1, .begin true), (1, .pushCentre 0), (1, .count 0),
    (1, .setStarted 0), (1, .report 0 0), (1, .enterLoop 0)]

def startSampleEnd : PoolProcess := (exec poolStep (.start threadsSample) startSample).get (by decide +kernel)

theorem start_reported_sample :
    StartReported (startSampleEnd.pools 0) ∧ StartReported (startSampleEnd.pools 1) ∧
      (startSampleEnd.pools 1).calls = [1] := by
  have hthreads : ∀ i, 1 ≤ threadsSample i := by
    intro i
    rw [threadsSample]
    split <;> decide
  have hrun : exec poolStep (.start threadsSample) startSample = some startSampleEnd := (Option.some_get _).symm
  have hok : Guarded poolStep (onPool startOk) (.start threadsSample) startSample := by decide +kernel
  exact ⟨start_reported hthreads hrun hok 0, start_reported hthreads hrun hok 1, by decide +kernel⟩

/-- The second of two pools of two threads: its first task is the third to count. -/
def secondPoolEnd : PoolProcess := (exec poolStep (.start fun _ => 2) (blockingStart ++
  [(1, .start true), (1, .pushTask 0), (1, .pushTask 0), (1, .startEnd 0), (1, .begin true), (1, .pushCentre 0),
    (1, .count 0), (1, .setStarted 0), (1, .report 0 0), (1, .begin true), (1, .pushCentre 1), (1, .count 1),
    (1, .setStarted 1), (1, .report 1 0)])).get (by decide +kernel)

/-- The only task reports before `Start` has stored its callback, or waits. -/
def earlyReport (cb : Bool) : List (ℕ × PoolOp) :=
  [(0, .start cb), (0, .pushTask 0), (0, .begin true), (0, .pushCentre 0), (0, .count 0), (0, .setStarted 0),
    (0, .report 0 0), (0, .enterLoop 0), (0, .startEnd 0)]

def earlyReportEnd (cb : Bool) : PoolProcess :=
  (exec poolStep (.start fun _ => 1) (earlyReport cb)).get (by cases cb <;> decide +kernel)

/-- The callback of the second pool is called twice, first with one centre there; the callback of a single pool
is never called; and `Start` waits for a signal that was sent. -/
theorem not_start_reported :
    ¬StartReported (secondPoolEnd.pools 1) ∧ ¬StartReported ((earlyReportEnd true).pools 0) ∧
      ¬StartReported ((earlyReportEnd false).pools 0) := by
  refine ⟨fun h => ?_, fun h => ?_, fun h => ?_⟩
  · exact absurd h.once (by decide +kernel)
  · have hcalled := h.called (by decide +kernel) ⟨true, .returned⟩ (by decide +kernel) rfl rfl
    exact hcalled (by decide +kernel)
  · exact h.woken (by decide +kernel) ⟨false, .waiting⟩ (by decide +kernel) rfl rfl

end Chaos.PoolStart
