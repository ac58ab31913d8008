import Chaos.ThreadPool

/-!
# What a step of a thread pool does

`ThreadPoolPass` says for each step what it does, with everything that the code has checked before it.
-/
namespace Chaos

/-- The steps of a worker that leave the mutex and the queue alone. -/
inductive WorkerMove (s : ThreadPool) : WorkerPc → WorkerPc → Prop where
  | stays (h : s.running = true) : WorkerMove s .outer .locking
  | leaves (h : s.running = false) : WorkerMove s .outer .left
  | waits (hq : s.queue = []) (h : s.running = true) : WorkerMove s .checking .waiting
  | goes (h : s.queue ≠ [] ∨ s.running = false) : WorkerMove s .checking .testing
  | wakes : WorkerMove s .blocked .woken
  | takes (h : s.running = true) : WorkerMove s .testing .taking

open ThreadPool

inductive ThreadPoolPass (s : ThreadPool) : ThreadPoolOp → ThreadPool → Prop where
  | runs (hcaller : s.caller = .idle) (hstops : s.stopsReturned = true) (hrun : s.running = false) :
      ThreadPoolPass s .run { s with running := true, ran := true, caller := .starting 0 }
  | ranBefore (hcaller : s.caller = .idle) (hrun : s.running = true) : ThreadPoolPass s .run s
  | started {j : ℕ} (hcaller : s.caller = .starting j) (hj : s.workers[j]? = some .unstarted) :
      ThreadPoolPass s .startThread { s.setWorker j .outer with caller := .starting (j + 1) }
  | startedBefore {j : ℕ} (hcaller : s.caller = .starting j) (hj : s.workers[j]? ≠ some .unstarted)
      (hlt : j < s.workers.length) : ThreadPoolPass s .startThread { s with caller := .starting (j + 1) }
  | runEnd {j : ℕ} (hcaller : s.caller = .starting j) (hj : s.workers.length ≤ j) :
      ThreadPoolPass s .startThread { s with caller := .idle }
  | move {i : ℕ} {pc pc' : WorkerPc} (hi : s.workers[i]? = some pc) (hmove : WorkerMove s pc pc') :
      ThreadPoolPass s (.work i) (s.setWorker i pc')
  | lock {i : ℕ} {pc : WorkerPc} (hi : s.workers[i]? = some pc) (hpc : pc = .locking ∨ pc = .woken)
      (howner : s.owner = none) :
      ThreadPoolPass s (.work i) ({ s with owner := some (.worker i) }.setWorker i .checking)
  | wait {i : ℕ} (hi : s.workers[i]? = some .waiting) :
      ThreadPoolPass s (.work i) (s.unlock.setWorker i .blocked)
  | back {i : ℕ} (hi : s.workers[i]? = some .testing) (hrun : s.running = false) :
      ThreadPoolPass s (.work i) (s.unlock.setWorker i .outer)
  | take {i task : ℕ} {rest : List ℕ} (hi : s.workers[i]? = some .taking) (hq : s.queue = task :: rest) :
      ThreadPoolPass s (.work i) ((s.pop task rest).unlock.setWorker i (.running task))
  | finish {i task : ℕ} (hi : s.workers[i]? = some (.running task)) :
      ThreadPoolPass s (.work i) ((s.finish task).setWorker i .outer)
  | pushTask (null : Bool) (hcaller : s.caller ≠ .destroyed) :
      ThreadPoolPass s (.pushTask null) { s with pushes := s.pushes ++ [.called null] }
  | refused {k j : ℕ} {null : Bool} (hk : s.pushes[k]? = some (.called null))
      (hrefused : null = true ∨ s.running = false) : ThreadPoolPass s (.stepPush k j) (s.setPush k .refused)
  | passed {k j : ℕ} (hk : s.pushes[k]? = some (.called false)) (hrun : s.running = true) :
      ThreadPoolPass s (.stepPush k j) (s.setPush k .locking)
  | lockPush {k j : ℕ} (hk : s.pushes[k]? = some .locking) (howner : s.owner = none) :
      ThreadPoolPass s (.stepPush k j) ({ s with owner := some (.push k) }.setPush k .emplacing)
  | emplace {k j : ℕ} (hk : s.pushes[k]? = some .emplacing) :
      ThreadPoolPass s (.stepPush k j) ((s.emplace k).setPush k .signalling)
  | signal {k j : ℕ} (hk : s.pushes[k]? = some .signalling) (hj : s.workers[j]? = some .blocked) :
      ThreadPoolPass s (.stepPush k j) ((s.setWorker j .woken).unlock.setPush k .returned)
  | lost {k j : ℕ} (hk : s.pushes[k]? = some .signalling) (hnone : .blocked ∉ s.workers) :
      ThreadPoolPass s (.stepPush k j) (s.unlock.setPush k .returned)
  | stop (hcaller : s.caller = .idle) :
      ThreadPoolPass s .stop { s with stops := s.stops ++ [.locking], stopCalled := s.ran }
  | lockStop {c : ℕ} (hc : s.stops[c]? = some .locking) (howner : s.owner = none) :
      ThreadPoolPass s (.stepStop c) ({ s with owner := some (.stop c) }.setStop c .testing)
  | clear {c : ℕ} (hc : s.stops[c]? = some .testing) (hrun : s.running = true) :
      ThreadPoolPass s (.stepStop c) ({ s with running := false }.setStop c .broadcasting)
  | late {c : ℕ} (hc : s.stops[c]? = some .testing) (hrun : s.running = false) :
      ThreadPoolPass s (.stepStop c) (s.unlock.setStop c .returned)
  | broadcast {c : ℕ} (hc : s.stops[c]? = some .broadcasting) :
      ThreadPoolPass s (.stepStop c) (s.condBroadCast.unlock.setStop c (.joining 0))
  | join {c j : ℕ} (hc : s.stops[c]? = some (.joining j)) (hj : s.workers[j]? = some .left) :
      ThreadPoolPass s (.stepStop c) (s.setStop c (.joining (j + 1)))
  | joined {c j : ℕ} (hc : s.stops[c]? = some (.joining j)) (hj : s.workers.length ≤ j) :
      ThreadPoolPass s (.stepStop c) (s.setStop c .returned)
  | destroy (hcaller : s.caller = .idle) (hstops : s.stopsReturned = true) (hpushes : s.pushesReturned = true) :
      ThreadPoolPass s .destroy { s with caller := .joining 0 }
  | destroyJoin {j : ℕ} (hcaller : s.caller = .joining j)
      (hj : s.workers[j]? = some .left ∨ s.workers[j]? = some .unstarted) :
      ThreadPoolPass s .destroyJoin { s with caller := .joining (j + 1) }
  | destroyed {j : ℕ} (hcaller : s.caller = .joining j) (hj : s.workers.length ≤ j) :
      ThreadPoolPass s .destroyJoin { s with caller := .destroyed }

section Inversion
variable {s t : ThreadPool}

theorem lock_eq_some {o : Owner} (h : s.lock o = some t) : s.owner = none ∧ t = { s with owner := some o } := by
  obtain ⟨howner, ht⟩ := Option.ite_none_right_eq_some.mp h
  exact ⟨howner, (Option.some.inj ht).symm⟩

theorem work_pass {i : ℕ} (h : s.step (.work i) = some t) : ThreadPoolPass s (.work i) t := by
  obtain ⟨pc, hi, hwork⟩ := Option.bind_eq_some_iff.mp h
  cases pc with
  | unstarted | left => cases hwork
  | outer =>
    cases hwork
    split_ifs with hrun
    · exact .move hi (.stays hrun)
    · exact .move hi (.leaves (Bool.eq_false_iff.mpr hrun))
  | locking | woken =>
    obtain ⟨u, hlock, rfl⟩ := Option.map_eq_some_iff.mp hwork
    obtain ⟨howner, rfl⟩ := lock_eq_some hlock
    exact .lock hi (by simp) howner
  | checking =>
    cases hwork
    split_ifs with hempty
    · exact .move hi (.waits hempty.1 hempty.2)
    · refine .move hi (.goes ?_)
      rw [← Bool.not_eq_true, ← not_and_or]
      exact hempty
  | waiting =>
    cases hwork
    exact .wait hi
  | blocked =>
    cases hwork
    exact .move hi .wakes
  | testing =>
    cases hwork
    split_ifs with hrun
    · exact .move hi (.takes hrun)
    · exact .back hi (Bool.eq_false_iff.mpr hrun)
  | taking =>
    cases hq : s.queue with
    | nil => simp [ThreadPool.work, hq] at hwork
    | cons task rest =>
      simp only [ThreadPool.work, hq, Option.some.injEq] at hwork
      exact hwork ▸ .take hi hq
  | running task =>
    cases hwork
    exact .finish hi

theorem stepPush_pass {k j : ℕ} (h : s.step (.stepPush k j) = some t) : ThreadPoolPass s (.stepPush k j) t := by
  obtain ⟨pc, hk, hpush⟩ := Option.bind_eq_some_iff.mp h
  cases pc with
  | called null =>
    cases hpush
    cases null with
    | true => exact .refused hk (Or.inl rfl)
    | false =>
      cases hrun : s.running with
      | true => exact .passed hk hrun
      | false => exact .refused hk (Or.inr hrun)
  | locking =>
    obtain ⟨u, hlock, rfl⟩ := Option.map_eq_some_iff.mp hpush
    obtain ⟨howner, rfl⟩ := lock_eq_some hlock
    exact .lockPush hk howner
  | emplacing =>
    cases hpush
    exact .emplace hk
  | signalling =>
    obtain ⟨u, hsignal, rfl⟩ := Option.map_eq_some_iff.mp hpush
    rw [condSignal] at hsignal
    split_ifs at hsignal with hj hblocked
    · cases hsignal
      exact .signal hk hj
    · cases hsignal
      exact .lost hk hblocked
  | refused | returned => cases hpush

theorem stepStop_pass {c : ℕ} (h : s.step (.stepStop c) = some t) : ThreadPoolPass s (.stepStop c) t := by
  obtain ⟨pc, hc, hstop⟩ := Option.bind_eq_some_iff.mp h
  cases pc with
  | locking =>
    obtain ⟨u, hlock, rfl⟩ := Option.map_eq_some_iff.mp hstop
    obtain ⟨howner, rfl⟩ := lock_eq_some hlock
    exact .lockStop hc howner
  | testing =>
    cases hstop
    split_ifs with hrun
    · exact .clear hc hrun
    · exact .late hc (Bool.eq_false_iff.mpr hrun)
  | broadcasting =>
    cases hstop
    exact .broadcast hc
  | joining j =>
    rw [ThreadPool.stepStop] at hstop
    split_ifs at hstop with hlen hjoins
    · cases hstop
      exact .joined hc hlen
    · cases hstop
      exact .join hc (of_decide_eq_true hjoins)
  | returned => cases hstop

/-- Every step is one of the cases. -/
theorem threadPoolPass_of_step {op : ThreadPoolOp} (h : s.step op = some t) : ThreadPoolPass s op t := by
  cases op with
  | work i => exact work_pass h
  | stepPush k j => exact stepPush_pass h
  | stepStop c => exact stepStop_pass h
  | run =>
    obtain ⟨⟨hcaller, hstops⟩, ht⟩ := Option.ite_none_right_eq_some.mp h
    cases ht
    rw [ThreadPool.run]
    split_ifs with hrun
    · exact .ranBefore hcaller hrun
    · exact .runs hcaller hstops (Bool.eq_false_iff.mpr hrun)
  | startThread =>
    cases hcaller : s.caller with
    | starting j =>
      simp only [ThreadPool.step, hcaller, Option.some.injEq] at h
      subst h
      rw [ThreadPool.startThread]
      split_ifs with hlen hj
      · exact .runEnd hcaller hlen
      · exact .started hcaller hj
      · exact .startedBefore hcaller hj (Nat.lt_of_not_le hlen)
    | idle | joining j | destroyed => simp [ThreadPool.step, hcaller] at h
  | pushTask null =>
    obtain ⟨hcaller, ht⟩ := Option.ite_none_left_eq_some.mp h
    cases ht
    exact .pushTask null hcaller
  | stop =>
    obtain ⟨hcaller, ht⟩ := Option.ite_none_right_eq_some.mp h
    cases ht
    exact .stop hcaller
  | destroy =>
    obtain ⟨⟨hcaller, hstops, hpushes⟩, ht⟩ := Option.ite_none_right_eq_some.mp h
    cases ht
    exact .destroy hcaller hstops hpushes
  | destroyJoin =>
    cases hcaller : s.caller with
    | joining j =>
      simp only [ThreadPool.step, hcaller, ThreadPool.destroyJoin] at h
      split_ifs at h with hlen hjoins
      · cases h
        exact .destroyed hcaller hlen
      · cases h
        refine .destroyJoin hcaller ?_
        simpa [ThreadPool.joins] using hjoins
    | idle | starting j | destroyed => simp [ThreadPool.step, hcaller] at h

/-- No step adds or drops a worker. -/
theorem ThreadPool.length_of_pass {op : ThreadPoolOp} (ht : ThreadPoolPass s op t) :
    t.workers.length = s.workers.length := by
  cases ht with
  | broadcast hc => exact List.length_map _
  | started | move | lock | wait | back | take | finish | signal => exact List.length_set
  | runs | ranBefore | startedBefore | runEnd | pushTask | refused | passed | lockPush | emplace | lost | stop
  | lockStop | clear | late | join | joined | destroy | destroyJoin | destroyed => rfl

end Inversion

end Chaos
