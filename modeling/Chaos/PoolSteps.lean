import Chaos.CentrePool
import Chaos.GuardedRuns
import Chaos.Threads

/-!
# What a step of a pool does

`PoolPass` says for each operation what it does, with everything that the code has checked before it. A pool is
only changed by its own steps, so what they keep holds of every pool of a process.
-/
namespace Chaos

open GuardedRuns Threads

/-- How many tasks the call has still to push. -/
def StartPc.tasksLeft : StartPc → ℕ
  | .pushing left => left
  | .waiting | .returned => 0

namespace CentrePool

/-- The centres a `Stop` has not visited yet. -/
def stopRest (s : CentrePool) : Option (List ℕ) :=
  match s.walk with
  | some (.stop rest) => some rest
  | _ => none

section Fields
variable (s : CentrePool) (i k : ℕ) (w : Work) (call : StartCall)

@[simp] theorem setWork_works : (s.setWork i w).works = s.works.set i w := rfl
@[simp] theorem setWork_centres : (s.setWork i w).centres = s.centres := rfl

@[simp] theorem setStart_starts : (s.setStart k call).starts = s.starts.set k call := rfl
@[simp] theorem setStart_walk : (s.setStart k call).walk = s.walk := rfl

/-- `Start` up to its loop leaves the centres and their tasks alone. -/
theorem start_same (cb : Bool) : (s.start cb).works = s.works ∧ (s.start cb).centres = s.centres ∧
    (s.start cb).walk = s.walk ∧ (s.start cb).chosen = s.chosen := by
  rw [CentrePool.start]
  split <;> exact ⟨rfl, rfl, rfl, rfl⟩

theorem pushTask_same : s.pushTask.works = s.works ∧ s.pushTask.centres = s.centres ∧
    s.pushTask.walk = s.walk ∧ s.pushTask.chosen = s.chosen ∧ s.pushTask.stopped = s.stopped := by
  rw [CentrePool.pushTask]
  split <;> exact ⟨rfl, rfl, rfl, rfl, rfl⟩

end Fields

section Works
variable {α : Type} {s : CentrePool} {i c k : ℕ} {pc : WorkPc} {w w' v : Work} {r : α}

theorem onWork_eq_some {next : Work → Option α} (h : s.onWork i pc next = some r) :
    ∃ w, s.works[i]? = some w ∧ w.pc = pc ∧ next w = some r := by
  obtain ⟨w, hw, hnext⟩ := Option.bind_eq_some_iff.mp h
  split at hnext
  · exact ⟨w, hw, by assumption, hnext⟩
  · cases hnext

theorem onCentre_eq_some {next : Work → Option α} (h : s.onCentre c next = some r) :
    ∃ w, s.works[c]? = some w ∧ w.pc ≠ .returned ∧ next w = some r := by
  obtain ⟨w, hw, hnext⟩ := Option.bind_eq_some_iff.mp h
  split at hnext
  · cases hnext
  · exact ⟨w, hw, by assumption, hnext⟩

theorem onStart_eq_some {pc : StartPc} {next : StartCall → Option α} (h : s.onStart k pc next = some r) :
    ∃ cb, s.starts[k]? = some ⟨cb, pc⟩ ∧ next ⟨cb, pc⟩ = some r := by
  obtain ⟨⟨cb, pc'⟩, hcall, hnext⟩ := Option.bind_eq_some_iff.mp h
  split at hnext
  · rename_i hpc
    obtain rfl : pc' = pc := hpc
    exact ⟨cb, hcall, hnext⟩
  · cases hnext

theorem setWork_self (hi : s.works[i]? = some w) : (s.setWork i w').works[i]? = some w' := set_self hi

theorem setWork_of_ne (hci : c ≠ i) : (s.setWork i w').works[c]? = s.works[c]? := set_of_ne hci

/-- A `Work` of the pool after one of them has moved. -/
theorem setWork_cases (hi : s.works[i]? = some w) (hc : (s.setWork i w').works[c]? = some v) :
    (c = i ∧ v = w') ∨ (c ≠ i ∧ s.works[c]? = some v) := set_cases hi hc

/-- A `Work` of the pool after a new one has begun. -/
theorem begun_cases (hc : (s.works ++ [w])[c]? = some v) : (c = s.works.length ∧ v = w) ∨ s.works[c]? = some v :=
  append_cases hc

end Works

end CentrePool

open CentrePool

/-- What an operation of a pool does, and to the counter of the tasks. -/
inductive PoolPass (worked : ℤ) (s : CentrePool) : PoolOp → ℤ → CentrePool → Prop where
  | start (cb : Bool) : PoolPass worked s (.start cb) worked (s.start cb)
  | pushTask {k : ℕ} {cb : Bool} {left : ℕ} (hk : s.starts[k]? = some ⟨cb, .pushing (left + 1)⟩) :
      PoolPass worked s (.pushTask k) worked (s.pushTask.setStart k ⟨cb, .pushing left⟩)
  | stored {k : ℕ} (hk : s.starts[k]? = some ⟨true, .pushing 0⟩) :
      PoolPass worked s (.startEnd k) worked ({ s with startedCb := true }.setStart k ⟨true, .returned⟩)
  | waits {k : ℕ} (hk : s.starts[k]? = some ⟨false, .pushing 0⟩) (hwalk : s.walk = none) :
      PoolPass worked s (.startEnd k) worked (s.setStart k ⟨false, .waiting⟩)
  | wake {k : ℕ} {cb : Bool} (hk : s.starts[k]? = some ⟨cb, .waiting⟩) :
      PoolPass worked s (.wake k) worked (s.setStart k ⟨cb, .returned⟩)
  | begin {isInit : Bool} (hrunning : s.poolRunning = true) (hqueued : 0 < s.queued) (hbusy : s.busy < s.threadNum) :
      PoolPass worked s (.begin isInit) worked
        { s with queued := s.queued - 1, works := s.works ++ [⟨isInit, .pushing, false⟩] }
  | pushCentre {i : ℕ} {w : Work} (hi : s.works[i]? = some w) (hpc : w.pc = .pushing) (hwalk : s.walk = none) :
      PoolPass worked s (.pushCentre i) worked
        ({ s with centres := s.centres ++ [i] }.setWork i { w with pc := .counting })
  | count {i : ℕ} {w : Work} (hi : s.works[i]? = some w) (hpc : w.pc = .counting) :
      PoolPass worked s (.count i) (intAdd worked 1)
        (s.setWork i { w with pc := if s.threadNum ≤ intAdd worked 1 then .starting else .entering })
  | setStarted {i : ℕ} {w : Work} (hi : s.works[i]? = some w) (hpc : w.pc = .starting) :
      PoolPass worked s (.setStarted i) worked ({ s with started := true }.setWork i { w with pc := .reporting })
  | called {i k : ℕ} {w : Work} (hi : s.works[i]? = some w) (hpc : w.pc = .reporting) (hcb : s.startedCb = true) :
      PoolPass worked s (.report i k) worked
        ({ s with calls := s.calls ++ [s.centres.length] }.setWork i { w with pc := .entering })
  | lost {i k : ℕ} {w : Work} (hi : s.works[i]? = some w) (hpc : w.pc = .reporting) (hcb : s.startedCb = false)
      (hnone : ∀ call ∈ s.starts, call.pc ≠ .waiting) :
      PoolPass worked s (.report i k) worked
        ({ s with signals := s.signals + 1 }.setWork i { w with pc := .entering })
  | woken {i k : ℕ} {w : Work} {cb : Bool} (hi : s.works[i]? = some w) (hpc : w.pc = .reporting)
      (hcb : s.startedCb = false) (hk : s.starts[k]? = some ⟨cb, .waiting⟩) :
      PoolPass worked s (.report i k) worked
        (({ s with signals := s.signals + 1 }.setStart k ⟨cb, .returned⟩).setWork i { w with pc := .entering })
  | refused {i : ℕ} {w : Work} (hi : s.works[i]? = some w) (hpc : w.pc = .entering)
      (hrefused : w.isInit = false ∨ w.running = true) :
      PoolPass worked s (.enterLoop i) worked (s.setWork i { w with pc := .ended })
  | loops {i : ℕ} {w : Work} (hi : s.works[i]? = some w) (hpc : w.pc = .entering) (hinit : w.isInit = true)
      (hrun : w.running = false) :
      PoolPass worked s (.enterLoop i) worked (s.setWork i { w with pc := .looping, running := true })
  | leave {i : ℕ} {w : Work} (hi : s.works[i]? = some w) (hpc : w.pc = .looping) (hrun : w.running = false) :
      PoolPass worked s (.leave i) worked (s.setWork i { w with pc := .ended })
  | fail {i : ℕ} {w : Work} (hi : s.works[i]? = some w) (hpc : w.pc = .looping) :
      PoolPass worked s (.fail i) worked (s.setWork i { w with pc := .ended, running := false })
  | exit {i : ℕ} {w : Work} (hi : s.works[i]? = some w) (hpc : w.pc = .looping) :
      PoolPass worked s (.exit i) worked (s.setWork i { w with running := false })
  | returns {i : ℕ} {w : Work} (hi : s.works[i]? = some w) (hpc : w.pc = .ended) :
      PoolPass worked s (.return i) worked (s.setWork i { w with pc := .returned })
  | stopBegin (hwalk : s.walk = none) :
      PoolPass worked s .stopBegin worked { s with walk := some (.stop s.centres) }
  | stopVisit {c : ℕ} {rest : List ℕ} {w : Work} (hwalk : s.walk = some (.stop (c :: rest)))
      (hc : s.works[c]? = some w) (hpc : w.pc ≠ .returned) : PoolPass worked s .stopVisit worked
        ({ s with walk := some (.stop rest) }.setWork c { w with running := false })
  | stopEnd (hwalk : s.walk = some (.stop [])) :
      PoolPass worked s .stopEnd worked { s with started := false, walk := none, stopped := true }
  | registerCheck (hstarted : s.started = true) :
      PoolPass worked s .registerCheck worked { s with checked := s.checked + 1 }
  | notStarted (hstarted : s.started = false) : PoolPass worked s .registerCheck worked s
  | registerBegin (hchecked : 0 < s.checked) (hwalk : s.walk = none) : PoolPass worked s .registerBegin worked
      { s with checked := s.checked - 1, walk := some (.register s.centres none) }
  | registerVisit {c : ℕ} {rest : List ℕ} {pCentre : Option ℕ} {less : Bool} {w v : Work}
      (hwalk : s.walk = some (.register (c :: rest) pCentre)) (hc : s.works[c]? = some w) (hpc : w.pc ≠ .returned)
      (hp : s.works[pCentre.getD c]? = some v) (hvpc : v.pc ≠ .returned) :
      PoolPass worked s (.registerVisit less) worked
        { s with walk := some (.register rest (some (choose pCentre c less))) }
  | registerEnd {pCentre : Option ℕ} (hwalk : s.walk = some (.register [] pCentre)) :
      PoolPass worked s .registerEnd worked { s with walk := none, chosen := s.chosen ++ pCentre.toList }
  | registerCall {c : ℕ} {w : Work} (hchosen : c ∈ s.chosen) (hc : s.works[c]? = some w) (hpc : w.pc ≠ .returned) :
      PoolPass worked s (.registerCall c) worked { s with chosen := s.chosen.erase c }
  | poolStop : PoolPass worked s .poolStop worked { s with poolRunning := false }

section Inversion
variable {worked worked' : ℤ} {s s' : CentrePool}

theorem startEnd_pass {k : ℕ} (h : s.step worked (.startEnd k) = some (worked', s')) :
    PoolPass worked s (.startEnd k) worked' s' := by
  obtain ⟨cb, hk, hend⟩ := onStart_eq_some h
  obtain ⟨t, ht, heq⟩ := Option.map_eq_some_iff.mp hend
  cases heq
  cases cb with
  | true =>
    cases ht
    exact .stored hk
  | false =>
    by_cases hwalk : s.walk = none
    · simp only [CentrePool.startEnd, hwalk, if_true, Bool.false_eq_true, if_false, Option.some.injEq] at ht
      exact ht ▸ .waits hk hwalk
    · simp [CentrePool.startEnd, hwalk] at ht

theorem report_pass {i k : ℕ} (h : s.step worked (.report i k) = some (worked', s')) :
    PoolPass worked s (.report i k) worked' s' := by
  obtain ⟨w, hi, hpc, hnext⟩ := onWork_eq_some h
  obtain ⟨t, ht, heq⟩ := Option.map_eq_some_iff.mp hnext
  cases heq
  rw [CentrePool.report] at ht
  split at ht
  · cases ht
    exact .called hi hpc (by assumption)
  · rename_i hcb
    simp only [CentrePool.signal] at ht
    split at ht
    · rename_i hnone
      cases ht
      exact .lost hi hpc (by simpa using hcb) (by simpa using hnone)
    · obtain ⟨cb, hk, hset⟩ := onStart_eq_some ht
      cases hset
      exact .woken hi hpc (by simpa using hcb) hk

theorem begin_pass {isInit : Bool} (h : s.step worked (.begin isInit) = some (worked', s')) :
    PoolPass worked s (.begin isInit) worked' s' := by
  obtain ⟨t, ht, heq⟩ := Option.map_eq_some_iff.mp h
  cases heq
  simp only [CentrePool.begin] at ht
  split at ht
  · rename_i hfree
    cases ht
    exact .begin hfree.1 hfree.2.1 hfree.2.2
  · cases ht

theorem enterLoop_pass {i : ℕ} (h : s.step worked (.enterLoop i) = some (worked', s')) :
    PoolPass worked s (.enterLoop i) worked' s' := by
  obtain ⟨w, hi, hpc, hnext⟩ := onWork_eq_some h
  cases hnext
  rw [CentrePool.enterLoop]
  split
  · rename_i hinit
    exact .refused hi hpc (Or.inl (by simpa using hinit))
  · rename_i hinit
    split
    · exact .refused hi hpc (Or.inr (by assumption))
    · rename_i hrun
      exact .loops hi hpc (by simpa using hinit) (by simpa using hrun)

theorem stopVisit_pass (h : s.step worked .stopVisit = some (worked', s')) :
    PoolPass worked s .stopVisit worked' s' := by
  simp only [CentrePool.step] at h
  split at h
  · rename_i c rest hwalk
    obtain ⟨w, hc, hpc, hnext⟩ := onCentre_eq_some h
    cases hnext
    exact .stopVisit hwalk hc hpc
  · cases h

theorem registerVisit_pass {less : Bool} (h : s.step worked (.registerVisit less) = some (worked', s')) :
    PoolPass worked s (.registerVisit less) worked' s' := by
  simp only [CentrePool.step] at h
  split at h
  · rename_i c rest pCentre hwalk
    obtain ⟨w, hc, hpc, hnext⟩ := onCentre_eq_some h
    obtain ⟨v, hp, hvpc, hnext⟩ := onCentre_eq_some hnext
    cases hnext
    exact .registerVisit hwalk hc hpc hp hvpc
  · cases h

theorem registerCall_pass {c : ℕ} (h : s.step worked (.registerCall c) = some (worked', s')) :
    PoolPass worked s (.registerCall c) worked' s' := by
  simp only [CentrePool.step] at h
  split at h
  · rename_i hchosen
    obtain ⟨w, hc, hpc, hnext⟩ := onCentre_eq_some h
    cases hnext
    exact .registerCall hchosen hc hpc
  · cases h

/-- A step of a pool is one of the passes. -/
theorem pass_of_step {op : PoolOp} (h : s.step worked op = some (worked', s')) :
    PoolPass worked s op worked' s' := by
  cases op with
  | start cb =>
    cases h
    exact .start cb
  | pushTask k =>
    obtain ⟨⟨cb, pc⟩, hk, hpush⟩ := Option.bind_eq_some_iff.mp h
    match pc, hpush with
    | .pushing (left + 1), hpush =>
      cases hpush
      exact .pushTask hk
  | startEnd k => exact startEnd_pass h
  | wake k =>
    obtain ⟨cb, hk, hnext⟩ := onStart_eq_some h
    cases hnext
    exact .wake hk
  | begin isInit => exact begin_pass h
  | pushCentre i =>
    obtain ⟨w, hi, hpc, hnext⟩ := onWork_eq_some h
    split at hnext
    · cases hnext
      exact .pushCentre hi hpc (by assumption)
    · cases hnext
  | count i =>
    obtain ⟨w, hi, hpc, hnext⟩ := onWork_eq_some h
    cases hnext
    exact .count hi hpc
  | setStarted i =>
    obtain ⟨w, hi, hpc, hnext⟩ := onWork_eq_some h
    cases hnext
    exact .setStarted hi hpc
  | report i k => exact report_pass h
  | enterLoop i => exact enterLoop_pass h
  | leave i =>
    obtain ⟨w, hi, hpc, hnext⟩ := onWork_eq_some h
    split at hnext
    · cases hnext
    · rename_i hrun
      cases hnext
      exact .leave hi hpc (by simpa using hrun)
  | fail i =>
    obtain ⟨w, hi, hpc, hnext⟩ := onWork_eq_some h
    cases hnext
    exact .fail hi hpc
  | exit i =>
    obtain ⟨w, hi, hpc, hnext⟩ := onWork_eq_some h
    cases hnext
    exact .exit hi hpc
  | «return» i =>
    obtain ⟨w, hi, hpc, hnext⟩ := onWork_eq_some h
    cases hnext
    exact .returns hi hpc
  | stopBegin =>
    simp only [CentrePool.step] at h
    split at h
    · cases h
      exact .stopBegin (by assumption)
    · cases h
  | stopVisit => exact stopVisit_pass h
  | stopEnd =>
    simp only [CentrePool.step] at h
    split at h
    · cases h
      exact .stopEnd (by assumption)
    · cases h
  | registerCheck =>
    simp only [CentrePool.step] at h
    split at h
    · cases h
      exact .registerCheck (by assumption)
    · rename_i hstarted
      cases h
      exact .notStarted (by simpa using hstarted)
  | registerBegin =>
    simp only [CentrePool.step] at h
    split at h
    · rename_i hfree
      cases h
      exact .registerBegin hfree.1 hfree.2
    · cases h
  | registerVisit less => exact registerVisit_pass h
  | registerEnd =>
    simp only [CentrePool.step] at h
    split at h
    · cases h
      exact .registerEnd (by assumption)
    · cases h
  | registerCall c => exact registerCall_pass h
  | poolStop =>
    cases h
    exact .poolStop

end Inversion

/-! ## The list of centres -/

/-- `m_running` is true in the loop alone, and `m_centres` has each centre once whose task has pushed it. -/
structure Listed (s : CentrePool) : Prop where
  running : ∀ (i : ℕ) (w : Work), s.works[i]? = some w → w.running = true → w.pc = .looping
  centres : ∀ i, i ∈ s.centres ↔ ∃ w, s.works[i]? = some w ∧ w.pc ≠ .pushing
  nodup : s.centres.Nodup

namespace Listed
variable {s t : CentrePool} {i : ℕ} {w w' : Work}

theorem new (n : ℕ) : Listed (.new n) where
  running i w hw := by simp [CentrePool.new] at hw
  centres i := by simp [CentrePool.new]
  nodup := List.nodup_nil

theorem frame (h : Listed s) (hworks : t.works = s.works) (hcentres : t.centres = s.centres) : Listed t := by
  constructor
  · rw [hworks]
    exact h.running
  · rw [hworks, hcentres]
    exact h.centres
  · rw [hcentres]
    exact h.nodup

theorem move (h : Listed s) (hi : s.works[i]? = some w) (hpushing : w'.pc = .pushing ↔ w.pc = .pushing)
    (hrun : w'.running = true → w'.pc = .looping) : Listed (s.setWork i w') := by
  constructor
  · intro c v hc
    rcases setWork_cases hi hc with ⟨rfl, rfl⟩ | ⟨-, hc⟩
    · exact hrun
    · exact h.running c v hc
  · intro c
    rw [setWork_centres, h.centres c]
    constructor
    · rintro ⟨v, hc, hpc⟩
      by_cases hci : c = i
      · subst hci
        obtain rfl := Option.some.inj (hi.symm.trans hc)
        exact ⟨w', setWork_self hi, fun hpc' => hpc (hpushing.mp hpc')⟩
      · exact ⟨v, by rwa [setWork_of_ne hci], hpc⟩
    · rintro ⟨v, hc, hpc⟩
      rcases setWork_cases hi hc with ⟨rfl, rfl⟩ | ⟨-, hc⟩
      · exact ⟨w, hi, fun hpc' => hpc (hpushing.mpr hpc')⟩
      · exact ⟨v, hc, hpc⟩
  · exact h.nodup

theorem not_running (h : Listed s) (hi : s.works[i]? = some w) (hpc : w.pc ≠ .looping) : w.running = false := by
  by_contra hrun
  exact hpc (h.running i w hi (by simpa using hrun))

/-- A task moves outside its loop. -/
theorem moveOutside (h : Listed s) (hi : s.works[i]? = some w) (pc : WorkPc) (hpc : w.pc ≠ .looping)
    (hpushing : pc = .pushing ↔ w.pc = .pushing) : Listed (s.setWork i { w with pc := pc }) := by
  refine h.move hi hpushing fun hrun => ?_
  rw [h.not_running hi hpc] at hrun
  cases hrun

theorem begin (h : Listed s) (isInit : Bool) (queued : ℕ) :
    Listed { s with queued := queued, works := s.works ++ [⟨isInit, .pushing, false⟩] } := by
  constructor
  · intro i w hi hrun
    rcases begun_cases hi with ⟨-, rfl⟩ | hi
    · cases hrun
    · exact h.running i w hi hrun
  · intro i
    rw [h.centres i]
    constructor
    · rintro ⟨w, hi, hpc⟩
      exact ⟨w, List.getElem?_append_left (List.getElem?_eq_some_iff.mp hi).1 ▸ hi, hpc⟩
    · rintro ⟨w, hi, hpc⟩
      rcases begun_cases hi with ⟨-, rfl⟩ | hi
      · exact absurd rfl hpc
      · exact ⟨w, hi, hpc⟩
  · exact h.nodup

theorem pushCentre (h : Listed s) (hi : s.works[i]? = some w) (hpc : w.pc = .pushing) :
    Listed ({ s with centres := s.centres ++ [i] }.setWork i { w with pc := .counting }) := by
  have hself : (s.setWork i { w with pc := .counting }).works[i]? = some { w with pc := .counting } := setWork_self hi
  constructor
  · intro c v hc hrun
    rcases setWork_cases hi hc with ⟨-, rfl⟩ | ⟨-, hc⟩
    · simp [h.not_running hi (by simp [hpc])] at hrun
    · exact h.running c v hc hrun
  · intro c
    rw [setWork_centres, List.mem_append, List.mem_singleton, h.centres c]
    constructor
    · rintro (⟨v, hc, hv⟩ | rfl)
      · have hci : c ≠ i := by
          rintro rfl
          exact hv (Option.some.inj (hi.symm.trans hc) ▸ hpc)
        exact ⟨v, (setWork_of_ne hci).trans hc, hv⟩
      · exact ⟨_, hself, nofun⟩
    · rintro ⟨v, hc, hv⟩
      rcases setWork_cases hi hc with ⟨rfl, -⟩ | ⟨-, hc⟩
      · exact Or.inr rfl
      · exact Or.inl ⟨v, hc, hv⟩
  · refine List.Nodup.append h.nodup (List.nodup_singleton i) (List.disjoint_singleton.mpr ?_)
    rw [h.centres i]
    rintro ⟨v, hc, hv⟩
    exact hv (Option.some.inj (hi.symm.trans hc) ▸ hpc)

end Listed

theorem listed_step {worked worked' : ℤ} {s : CentrePool} {op : PoolOp} {s' : CentrePool} (h : Listed s)
    (hpass : PoolPass worked s op worked' s') : Listed s' := by
  cases hpass with
  | start cb =>
    obtain ⟨hworks, hcentres, -⟩ := s.start_same cb
    exact h.frame hworks hcentres
  | pushTask _ =>
    obtain ⟨hworks, hcentres, -⟩ := s.pushTask_same
    exact h.frame hworks hcentres
  | begin _ _ _ => exact h.begin _ _
  | pushCentre hi hpc _ => exact h.pushCentre hi hpc
  | count hi hpc =>
    refine h.moveOutside hi _ (by simp [hpc]) ?_
    split <;> simp [hpc]
  | setStarted hi hpc => exact (h.moveOutside hi .reporting (by simp [hpc]) (by simp [hpc])).frame rfl rfl
  | called hi hpc _ | lost hi hpc _ _ | woken hi hpc _ _ =>
    exact (h.moveOutside hi .entering (by simp [hpc]) (by simp [hpc])).frame rfl rfl
  | refused hi hpc _ => exact h.moveOutside hi .ended (by simp [hpc]) (by simp [hpc])
  | loops hi hpc _ _ => exact h.move hi (by simp [hpc]) (fun _ => rfl)
  | leave hi hpc hrun => exact h.move hi (by simp [hpc]) (by simp [hrun])
  | fail hi hpc => exact h.move hi (by simp [hpc]) nofun
  | exit hi _ => exact h.move hi Iff.rfl nofun
  | returns hi hpc => exact h.moveOutside hi .returned (by simp [hpc]) (by simp [hpc])
  | @stopVisit c rest w _ hc _ =>
    have hvisit : Listed (s.setWork c { w with running := false }) := h.move hc Iff.rfl nofun
    exact hvisit.frame rfl rfl
  | stored _ | waits _ _ | wake _ | stopBegin _ | stopEnd _ | registerCheck _ | notStarted _ | registerBegin _ _
  | registerVisit _ _ _ _ _ | registerEnd _ | registerCall _ _ _ | poolStop => exact h.frame rfl rfl

/-! ## Runs of a process -/

section Runs
variable {ok : ℤ → CentrePool → PoolOp → Prop} {inv : CentrePool → Prop} {threadNums : ℕ → ℕ}
  {ops : List (ℕ × PoolOp)} {s : PoolProcess}

/-- A condition on the pool that makes the step. -/
def onPool (ok : ℤ → CentrePool → PoolOp → Prop) (s : PoolProcess) (op : ℕ × PoolOp) : Prop :=
  ok s.worked (s.pools op.1) op.2

instance [∀ worked s op, Decidable (ok worked s op)] (s : PoolProcess) (op : ℕ × PoolOp) :
    Decidable (onPool ok s op) := inferInstanceAs (Decidable (ok s.worked (s.pools op.1) op.2))

/-- What the steps of a pool keep holds of each pool, whatever the others do. -/
theorem pool_invariant
    (hstep : ∀ worked worked' s op s', inv s → ok worked s op → PoolPass worked s op worked' s' → inv s')
    (hnew : ∀ i, inv (.new (threadNums i))) (hg : Guarded poolStep (onPool ok) (.start threadNums) ops)
    (hrun : exec poolStep (.start threadNums) ops = some s) (i : ℕ) : inv (s.pools i) := by
  have hall : ∀ s op t, (∀ j, inv (s.pools j)) → onPool ok s op → poolStep s op = some t → ∀ j, inv (t.pools j) := by
    intro s op t hinv hok ht j
    obtain ⟨⟨worked', s'⟩, hpass, rfl⟩ := Option.map_eq_some_iff.mp ht
    by_cases hj : j = op.1
    · subst hj
      simpa using hstep _ _ _ _ _ (hinv op.1) hok (pass_of_step hpass)
    · simpa [hj] using hinv j
  exact @invariant_of_guarded _ _ poolStep (onPool ok) (fun s => ∀ j, inv (s.pools j)) hall _ _ _ hnew hg hrun i

end Runs

end Chaos
