import Chaos.PoolDestroy

/-!
# Where the threads of a thread pool can go on

The threads of a pool go on by themselves, and nobody but a new call from outside or a wake-up that nobody sent can
move a pool in which none of them can. Such a pool has the mutex free: nobody is left inside.
-/
namespace Chaos

open GuardedRuns Threads

/-- A new call from outside. -/
def ThreadPoolOp.isCall : ThreadPoolOp → Bool
  | .run | .pushTask _ | .stop | .destroy => true
  | _ => false

namespace ThreadPool

/-- The steps of the calls that are there and of the workers. -/
def goOn (s : ThreadPool) (op : ThreadPoolOp) : Option ThreadPool := if op.isCall then none else s.step op

/-- A worker wakes and nobody has woken it. -/
def spurious (s : ThreadPool) : ThreadPoolOp → Bool
  | .work i => s.workers[i]? = some .blocked
  | _ => false

/-- The same without the wake-ups that nobody sent. -/
def onward (s : ThreadPool) (op : ThreadPoolOp) : Option ThreadPool :=
  if s.spurious op then none else s.goOn op

/-- No thread can go on. -/
def AtRest (s : ThreadPool) : Prop := ∀ op, s.onward op = none

section Onward
variable {s t : ThreadPool} {op : ThreadPoolOp} {i k c j : ℕ}

theorem pass_of_goOn (h : s.goOn op = some t) : op.isCall = false ∧ ThreadPoolPass s op t := by
  obtain ⟨hcall, hstep⟩ := Option.ite_none_left_eq_some.mp h
  exact ⟨Bool.eq_false_iff.mpr hcall, threadPoolPass_of_step hstep⟩

theorem pass_of_onward (h : s.onward op = some t) : s.spurious op = false ∧ s.goOn op = some t := by
  obtain ⟨hspurious, hgo⟩ := Option.ite_none_left_eq_some.mp h
  exact ⟨Bool.eq_false_iff.mpr hspurious, hgo⟩

theorem AtRest.step (h : AtRest s) (hcall : op.isCall = false) (hspurious : s.spurious op = false) :
    s.step op = none := by
  have hnone := h op
  rw [onward, goOn, hcall, hspurious] at hnone
  exact hnone

theorem AtRest.work {pc : WorkerPc} (h : AtRest s) (hi : s.workers[i]? = some pc) (hpc : pc ≠ .blocked) :
    s.work i pc = none := by
  have hstep : s.step (.work i) = none := by
    apply h.step rfl
    simpa [spurious, hi] using hpc
  rwa [ThreadPool.step, hi] at hstep

theorem AtRest.push {pc : PushPc} (h : AtRest s) (hk : s.pushes[k]? = some pc) (j : ℕ) : s.stepPush k j pc = none := by
  have hstep : s.step (.stepPush k j) = none := h.step rfl rfl
  rwa [ThreadPool.step, hk] at hstep

theorem AtRest.stop {pc : StopPc} (h : AtRest s) (hc : s.stops[c]? = some pc) : s.stepStop c pc = none := by
  have hstep : s.step (.stepStop c) = none := h.step rfl rfl
  rwa [ThreadPool.step, hc] at hstep

end Onward

/-! ## Who has the mutex -/

section Owner
variable {s t : ThreadPool} {op : ThreadPoolOp} {i k c : ℕ} {o : Owner}

/-- The owner of the mutex is where only the owner can be. -/
def Held (s : ThreadPool) : Prop := ∀ o, s.owner = some o → s.inside o

theorem inside_setWorker {pc : WorkerPc} (ho : o ≠ .worker i) (h : s.inside o) : (s.setWorker i pc).inside o := by
  cases o with
  | worker c =>
    obtain ⟨v, hv, hlocked⟩ := h
    have hci : c ≠ i := fun hci => ho (hci ▸ rfl)
    exact ⟨v, (set_of_ne hci).trans hv, hlocked⟩
  | push c | stop c => exact h

theorem inside_setPush {pc : PushPc} (ho : o ≠ .push k) (h : s.inside o) : (s.setPush k pc).inside o := by
  cases o with
  | push c =>
    obtain ⟨v, hv, hlocked⟩ := h
    have hck : c ≠ k := fun hck => ho (hck ▸ rfl)
    exact ⟨v, (set_of_ne hck).trans hv, hlocked⟩
  | worker c | stop c => exact h

theorem inside_setStop {pc : StopPc} (ho : o ≠ .stop c) (h : s.inside o) : (s.setStop c pc).inside o := by
  cases o with
  | stop d =>
    obtain ⟨v, hv, hlocked⟩ := h
    have hdc : d ≠ c := fun hdc => ho (hdc ▸ rfl)
    exact ⟨v, (set_of_ne hdc).trans hv, hlocked⟩
  | worker d | push d => exact h

/-- A thread that moves and has the mutex keeps it only inside. -/
theorem Held.worker {a b : WorkerPc} (h : Held s) (hi : s.workers[i]? = some a)
    (hb : a.locked = true → b.locked = true) : Held (s.setWorker i b) := by
  intro o ho
  by_cases hself : o = .worker i
  · subst hself
    obtain ⟨v, hv, hlocked⟩ := h _ ho
    obtain rfl := Option.some.inj (hi.symm.trans hv)
    exact ⟨b, set_self hi, hb hlocked⟩
  · exact inside_setWorker hself (h o ho)

theorem Held.push {a b : PushPc} (h : Held s) (hk : s.pushes[k]? = some a) (hb : a.locked = true → b.locked = true) :
    Held (s.setPush k b) := by
  intro o ho
  by_cases hself : o = .push k
  · subst hself
    obtain ⟨v, hv, hlocked⟩ := h _ ho
    obtain rfl := Option.some.inj (hk.symm.trans hv)
    exact ⟨b, set_self hk, hb hlocked⟩
  · exact inside_setPush hself (h o ho)

theorem Held.stop {a b : StopPc} (h : Held s) (hc : s.stops[c]? = some a) (hb : a.locked = true → b.locked = true) :
    Held (s.setStop c b) := by
  intro o ho
  by_cases hself : o = .stop c
  · subst hself
    obtain ⟨v, hv, hlocked⟩ := h _ ho
    obtain rfl := Option.some.inj (hc.symm.trans hv)
    exact ⟨b, set_self hc, hb hlocked⟩
  · exact inside_setStop hself (h o ho)

theorem held_of_none (h : s.owner = none) : Held s := by
  intro o ho
  cases h.symm.trans ho

theorem held_of_self (h : s.owner = some o) (ho : s.inside o) : Held s := by
  intro p hp
  cases h.symm.trans hp
  exact ho

theorem held_step (h : Held s) (ht : ThreadPoolPass s op t) : Held t := by
  cases ht with
  | runs | ranBefore | startedBefore | runEnd | destroy | destroyJoin | destroyed => exact h
  | started hcaller hj => exact h.worker hj fun hlocked => by cases hlocked
  | move hi hmove =>
    apply h.worker hi
    cases hmove with
    | stays | leaves | wakes => exact fun hlocked => by cases hlocked
    | waits | goes | takes => exact fun _ => rfl
  | lock hi => exact held_of_self rfl ⟨_, set_self hi, rfl⟩
  | wait | back | take => exact held_of_none rfl
  | finish hi => exact Held.worker h hi fun hlocked => by cases hlocked
  | pushTask null hcaller =>
    intro o ho
    have hin := h o ho
    cases o with
    | push k =>
      obtain ⟨pc, hpc, hlocked⟩ := hin
      exact ⟨pc, append_of_some hpc, hlocked⟩
    | worker i | stop c => exact hin
  | refused hk => exact h.push hk fun hlocked => by cases hlocked
  | passed hk => exact h.push hk fun hlocked => by cases hlocked
  | lockPush hk => exact held_of_self rfl ⟨_, set_self hk, rfl⟩
  | emplace hk => exact Held.push h hk fun _ => rfl
  | signal | lost => exact held_of_none rfl
  | stop hcaller =>
    intro o ho
    have hin := h o ho
    cases o with
    | stop c =>
      obtain ⟨pc, hpc, hlocked⟩ := hin
      exact ⟨pc, append_of_some hpc, hlocked⟩
    | worker i | push k => exact hin
  | lockStop hc => exact held_of_self rfl ⟨_, set_self hc, rfl⟩
  | clear hc => exact Held.stop h hc fun _ => rfl
  | late | broadcast => exact held_of_none rfl
  | join hc => exact h.stop hc fun hlocked => by cases hlocked
  | joined hc => exact h.stop hc fun hlocked => by cases hlocked

end Owner

/-! ## A pool at rest -/

section Rest
variable {s : ThreadPool}

/-- A signal is sent to somebody who waits, or to nobody. -/
theorem exists_condSignal (s : ThreadPool) : ∃ j t, s.condSignal j = some t := by
  by_cases hblocked : .blocked ∈ s.workers
  · obtain ⟨j, hj⟩ := List.getElem?_of_mem hblocked
    exact ⟨j, s.setWorker j .woken, if_pos hj⟩
  · refine ⟨s.workers.length, s, ?_⟩
    simp [condSignal, hblocked]

theorem lock_of_free {o : Owner} (h : s.owner = none) : s.lock o = some { s with owner := some o } := if_pos h

/-- Nobody who has the mutex is kept from going on. -/
theorem AtRest.owner (h : AtRest s) (hheld : Held s) (htested : Tested s) : s.owner = none := by
  by_contra howner
  obtain ⟨o, ho⟩ := Option.ne_none_iff_exists'.mp howner
  have hin := hheld o ho
  cases o with
  | worker i =>
    obtain ⟨pc, hi, hlocked⟩ := hin
    have hnone := h.work hi (by rintro rfl; cases hlocked)
    cases pc with
    | taking =>
      obtain ⟨task, rest, hq⟩ := List.exists_cons_of_ne_nil (htested.taking i hi)
      simp [ThreadPool.work, hq] at hnone
    | checking | waiting | testing => cases hnone
    | unstarted | outer | locking | blocked | woken | running | left => cases hlocked
  | push k =>
    obtain ⟨pc, hk, hlocked⟩ := hin
    cases pc with
    | emplacing => cases h.push hk 0
    | signalling =>
      obtain ⟨j, t, hj⟩ := exists_condSignal s
      have hnone := h.push hk j
      rw [stepPush, hj] at hnone
      cases hnone
    | called | refused | locking | returned => cases hlocked
  | stop c =>
    obtain ⟨pc, hc, hlocked⟩ := hin
    cases pc with
    | testing | broadcasting => cases h.stop hc
    | locking | joining | returned => cases hlocked

theorem AtRest.workers (h : AtRest s) (howner : s.owner = none) (htested : Tested s) :
    ∀ pc ∈ s.workers, pc = .unstarted ∨ pc = .blocked ∨ pc = .left := by
  intro pc hpc
  obtain ⟨i, hi⟩ := List.getElem?_of_mem hpc
  cases pc with
  | unstarted => exact .inl rfl
  | blocked => exact .inr (.inl rfl)
  | left => exact .inr (.inr rfl)
  | locking | woken =>
    have hnone := h.work hi WorkerPc.noConfusion
    rw [ThreadPool.work, lock_of_free howner] at hnone
    cases hnone
  | taking =>
    have hnone := h.work hi WorkerPc.noConfusion
    obtain ⟨task, rest, hq⟩ := List.exists_cons_of_ne_nil (htested.taking i hi)
    simp [ThreadPool.work, hq] at hnone
  | outer | checking | waiting | testing | running => cases h.work hi WorkerPc.noConfusion

theorem AtRest.pushes (h : AtRest s) (howner : s.owner = none) : ∀ pc ∈ s.pushes, pc = .refused ∨ pc = .returned := by
  intro pc hpc
  obtain ⟨k, hk⟩ := List.getElem?_of_mem hpc
  cases pc with
  | refused => exact .inl rfl
  | returned => exact .inr rfl
  | locking =>
    have hnone := h.push hk 0
    rw [stepPush, lock_of_free howner] at hnone
    cases hnone
  | signalling =>
    obtain ⟨j, t, hj⟩ := exists_condSignal s
    have hnone := h.push hk j
    rw [stepPush, hj] at hnone
    cases hnone
  | called | emplacing => cases h.push hk 0

/-- A call of `Stop` that has not returned waits for a thread that has not ended. -/
theorem AtRest.stops (h : AtRest s) (howner : s.owner = none) :
    ∀ pc ∈ s.stops, pc = .returned ∨ ∃ v ∈ s.workers, pc.quiet = false ∧ v ≠ .left := by
  intro pc hpc
  obtain ⟨c, hc⟩ := List.getElem?_of_mem hpc
  have hnone := h.stop hc
  cases pc with
  | returned => exact .inl rfl
  | locking =>
    rw [stepStop, lock_of_free howner] at hnone
    cases hnone
  | joining j =>
    right
    rw [stepStop] at hnone
    split_ifs at hnone with hlen hjoins
    have hj : s.workers[j]? = some s.workers[j] := List.getElem?_eq_getElem _
    refine ⟨_, List.mem_of_getElem? hj, rfl, ?_⟩
    intro hleft
    apply hjoins
    rw [joins, hj, hleft]
    rfl
  | testing | broadcasting => cases hnone

theorem AtRest.starting (h : AtRest s) (j : ℕ) : s.caller ≠ .starting j := by
  intro hcaller
  have hnone : s.step .startThread = none := h.step rfl rfl
  rw [ThreadPool.step, hcaller] at hnone
  cases hnone

/-- The destructor waits for a thread that runs. -/
theorem AtRest.joining {j : ℕ} (h : AtRest s) (hcaller : s.caller = .joining j) :
    ∃ v ∈ s.workers, v ≠ .left ∧ v ≠ .unstarted := by
  have hnone : s.step .destroyJoin = none := h.step rfl rfl
  rw [ThreadPool.step, hcaller] at hnone
  simp only [destroyJoin] at hnone
  split_ifs at hnone with hlen hjoins
  have hj : s.workers[j]? = some s.workers[j] := List.getElem?_eq_getElem _
  refine ⟨_, List.mem_of_getElem? hj, ?_⟩
  simpa [joins, hj] using hjoins

/-- A call of `Stop` has returned, or joins a thread that has not ended. -/
def halted (s : ThreadPool) : StopPc → Bool
  | .joining j => j < s.workers.length && !s.joins j
  | pc => pc = .returned

theorem stepStop_of_halted {c : ℕ} {pc : StopPc} (h : s.halted pc = true) : s.stepStop c pc = none := by
  cases pc with
  | joining j =>
    obtain ⟨hlt, hjoins⟩ := Bool.and_eq_true_iff.mp h
    have hlt' : ¬ s.workers.length ≤ j := Nat.not_le.mpr (of_decide_eq_true hlt)
    have hjoins' : ¬ s.joins j = true := by simpa using hjoins
    rw [stepStop, if_neg hlt', if_neg hjoins']
  | returned => rfl
  | locking | testing | broadcasting => cases h

/-- Threads that have all ended or wait can not go on. -/
theorem atRest_of_over (hworkers : ∀ pc ∈ s.workers, pc = .blocked ∨ pc = .left)
    (hpushes : ∀ pc ∈ s.pushes, pc = .refused ∨ pc = .returned) (hstops : ∀ pc ∈ s.stops, s.halted pc = true)
    (hcaller : s.caller = .idle) : AtRest s := by
  intro op
  cases hop : s.onward op with
  | none => rfl
  | some t =>
    obtain ⟨hspurious, hgo⟩ := pass_of_onward hop
    obtain ⟨hcall, hpass⟩ := pass_of_goOn hgo
    cases op with
    | run | pushTask | stop | destroy => cases hcall
    | startThread =>
      cases hpass with
      | started hbusy | startedBefore hbusy | runEnd hbusy => cases hcaller.symm.trans hbusy
    | destroyJoin =>
      cases hpass with
      | destroyJoin hbusy | destroyed hbusy => cases hcaller.symm.trans hbusy
    | work i =>
      obtain ⟨pc, hi, hwork⟩ := Option.bind_eq_some_iff.mp (Option.ite_none_left_eq_some.mp hgo).2
      cases hworkers pc (List.mem_of_getElem? hi) with
      | inl hblocked =>
        rw [spurious, hi, hblocked] at hspurious
        cases hspurious
      | inr hleft =>
        rw [hleft] at hwork
        cases hwork
    | stepPush k j =>
      obtain ⟨pc, hk, hpush⟩ := Option.bind_eq_some_iff.mp (Option.ite_none_left_eq_some.mp hgo).2
      cases hpushes pc (List.mem_of_getElem? hk) with
      | inl hrefused =>
        rw [hrefused] at hpush
        cases hpush
      | inr hreturned =>
        rw [hreturned] at hpush
        cases hpush
    | stepStop c =>
      obtain ⟨pc, hc, hstop⟩ := Option.bind_eq_some_iff.mp (Option.ite_none_left_eq_some.mp hgo).2
      rw [stepStop_of_halted (hstops pc (List.mem_of_getElem? hc))] at hstop
      cases hstop

end Rest

end ThreadPool

end Chaos
