import Chaos.PoolTasks

/-!
# The end of a thread pool

A pool is fresh until `Run` sets `m_running`; then it serves until a call of `Stop` clears the flag, and when that
call has joined every worker the pool is over. The destructor joins the workers of a pool that serves with the flag
still set.
-/
namespace Chaos

open GuardedRuns Threads

/-- The worker is in the loop of `PoolWorkFunc`. -/
def WorkerPc.loops : WorkerPc → Bool
  | .unstarted | .left => false
  | _ => true

/-- The call of `Stop` has not reached its test of `m_running`. -/
def StopPc.ahead : StopPc → Bool
  | .locking | .testing => true
  | _ => false

/-- The call of `Stop` is not past its test. -/
def StopPc.quiet (pc : StopPc) : Bool := pc.ahead || pc = .returned

namespace ThreadPool

/-- The flag on which the workers loop is false, if any of them still does. -/
def FlagsDown (s : ThreadPool) : Prop := ∀ pc ∈ s.workers, pc.loops = true → s.running = false

/-- A step of a worker or of a call of `PushTask`, seen from the rest. -/
structure Frame (s t : ThreadPool) : Prop where
  running : t.running = s.running
  stops : t.stops = s.stops
  caller : t.caller = s.caller
  ran : t.ran = s.ran
  stopCalled : t.stopCalled = s.stopCalled
  workers : t.workers = s.workers ∨ ∃ (i : ℕ) (pc pc' : WorkerPc), s.workers[i]? = some pc ∧ pc.loops = true ∧
    t.workers = s.workers.set i pc' ∧ (pc'.loops = true ∨ pc' = .left ∧ s.running = false)

/-- One thread calls `Run` and the destructor, when every call of `Stop` has returned. -/
def CallsApart (s : ThreadPool) : Prop := s.caller = .idle ∨ ∀ pc ∈ s.stops, pc = .returned

structure Fresh (s : ThreadPool) : Prop where
  ran : s.ran = false
  stopCalled : s.stopCalled = false
  running : s.running = false
  workers : ∀ pc ∈ s.workers, pc = .unstarted
  caller : ∀ j, s.caller ≠ .starting j
  stops : ∀ pc ∈ s.stops, pc.quiet = true

/-- A `Stop` that was called is still to find the flag set. -/
structure Serving (s : ThreadPool) : Prop where
  ran : s.ran = true
  running : s.running = true
  workers : ∀ pc ∈ s.workers, pc ≠ .left
  started : ∀ i : ℕ, s.workers[i]? = some .unstarted → ∃ j, s.caller = .starting j ∧ j ≤ i
  stops : ∀ pc ∈ s.stops, pc.quiet = true
  stopCalled : s.stopCalled = true ↔ ∃ pc ∈ s.stops, pc.ahead = true

/-- The call has cleared the flag, and the workers it has joined have left. -/
structure Stopping (s : ThreadPool) (c : ℕ) : Prop where
  ran : s.ran = true
  stopCalled : s.stopCalled = true
  running : s.running = false
  workers : ∀ pc ∈ s.workers, pc ≠ .unstarted
  caller : s.caller = .idle
  joined : s.stops[c]? = some .broadcasting ∨
    ∃ j, s.stops[c]? = some (.joining j) ∧ ∀ i < j, s.workers[i]? = some .left
  stops : ∀ d ≠ c, ∀ pc ∈ s.stops[d]?, pc.quiet = true

structure Over (s : ThreadPool) : Prop where
  ran : s.ran = true
  stopCalled : s.stopCalled = true
  workers : ∀ pc ∈ s.workers, pc = .left

/-- Where a pool is in its life. -/
def Phase (s : ThreadPool) : Prop := Fresh s ∨ Serving s ∨ (∃ c, Stopping s c) ∨ Over s

section Frame
variable {s t : ThreadPool} {i k j : ℕ}

theorem frame_setWorker {pc pc' : WorkerPc} (hi : s.workers[i]? = some pc) (hpc : pc.loops = true)
    (hpc' : pc'.loops = true ∨ pc' = .left ∧ s.running = false) : Frame s (s.setWorker i pc') :=
  ⟨rfl, rfl, rfl, rfl, rfl, Or.inr ⟨i, pc, pc', hi, hpc, rfl, hpc'⟩⟩

theorem frame_of_work (ht : ThreadPoolPass s (.work i) t) : Frame s t := by
  cases ht with
  | move hi hmove =>
    cases hmove with
    | leaves hrun => exact frame_setWorker hi rfl (Or.inr ⟨rfl, hrun⟩)
    | stays | waits | goes | wakes | takes => exact frame_setWorker hi rfl (Or.inl rfl)
  | @lock i pc hi hpc howner =>
    have hloops : pc.loops = true := by rcases hpc with rfl | rfl <;> rfl
    exact ⟨rfl, rfl, rfl, rfl, rfl, Or.inr ⟨i, _, _, hi, hloops, rfl, Or.inl rfl⟩⟩
  | wait hi | back hi | take hi | finish hi =>
    exact ⟨rfl, rfl, rfl, rfl, rfl, Or.inr ⟨i, _, _, hi, rfl, rfl, Or.inl rfl⟩⟩

theorem frame_of_stepPush (ht : ThreadPoolPass s (.stepPush k j) t) : Frame s t := by
  cases ht with
  | refused | passed | lockPush | emplace | lost => exact ⟨rfl, rfl, rfl, rfl, rfl, Or.inl rfl⟩
  | signal hk hj => exact ⟨rfl, rfl, rfl, rfl, rfl, Or.inr ⟨j, _, _, hj, rfl, rfl, Or.inl rfl⟩⟩

theorem frame_of_pushTask {null : Bool} (ht : ThreadPoolPass s (.pushTask null) t) : Frame s t := by
  cases ht
  exact ⟨rfl, rfl, rfl, rfl, rfl, Or.inl rfl⟩

/-- Such a step moves no worker where none is in its loop. -/
theorem Frame.workers_eq (hf : Frame s t) (hstill : ∀ pc ∈ s.workers, pc.loops = false) :
    t.workers = s.workers := by
  rcases hf.workers with hsame | ⟨i, pc, pc', hi, hloops, -⟩
  · exact hsame
  · exact nomatch (hstill pc (List.mem_of_getElem? hi)).symm.trans hloops

end Frame

section Phases
variable {s t : ThreadPool} {op : ThreadPoolOp} {c : ℕ}

theorem stop_mem {pc : StopPc} (hc : s.stops[c]? = some pc) : pc ∈ s.stops := List.mem_of_getElem? hc

theorem quiet_set {pc' : StopPc} (h : ∀ pc ∈ s.stops, pc.quiet = true) (hpc' : pc'.quiet = true) :
    ∀ pc ∈ s.stops.set c pc', pc.quiet = true := by
  intro pc hpc
  rcases List.mem_or_eq_of_mem_set hpc with hpc | rfl
  · exact h pc hpc
  · exact hpc'

theorem all_returned (h : s.stopsReturned = true) : ∀ pc ∈ s.stops, pc = .returned := by
  simpa [stopsReturned] using h

theorem CallsApart.step (h : CallsApart s) (ht : ThreadPoolPass s op t) : CallsApart t := by
  have hframe (hf : Frame s t) : CallsApart t := by
    rw [CallsApart, hf.caller, hf.stops]
    exact h
  have hidle {c : ℕ} {pc : StopPc} (hc : s.stops[c]? = some pc) (hpc : pc ≠ .returned) : s.caller = .idle := by
    rcases h with hcaller | hstops
    · exact hcaller
    · exact absurd (hstops pc (stop_mem hc)) hpc
  cases op with
  | work i => exact hframe (frame_of_work ht)
  | pushTask null => exact hframe (frame_of_pushTask ht)
  | stepPush k j => exact hframe (frame_of_stepPush ht)
  | run =>
    cases ht with
    | runs hcaller hstops => exact Or.inr (all_returned hstops)
    | ranBefore => exact h
  | startThread =>
    have hstops (j : ℕ) (hcaller : s.caller = .starting j) : ∀ pc ∈ s.stops, pc = .returned := by
      rcases h with hidle | hstops
      · exact nomatch hidle.symm.trans hcaller
      · exact hstops
    cases ht with
    | started hcaller | startedBefore hcaller | runEnd hcaller => exact Or.inr (hstops _ hcaller)
  | stop =>
    cases ht with
    | stop hcaller => exact Or.inl hcaller
  | stepStop c =>
    cases ht with
    | lockStop hc | clear hc | late hc | broadcast hc | join hc | joined hc => exact Or.inl (hidle hc nofun)
  | destroy =>
    cases ht with
    | destroy hcaller hstops => exact Or.inr (all_returned hstops)
  | destroyJoin =>
    have hstops (j : ℕ) (hcaller : s.caller = .joining j) : ∀ pc ∈ s.stops, pc = .returned := by
      rcases h with hidle | hstops
      · exact nomatch hidle.symm.trans hcaller
      · exact hstops
    cases ht with
    | destroyJoin hcaller | destroyed hcaller => exact Or.inr (hstops _ hcaller)

theorem Fresh.frame (h : Fresh s) (hf : Frame s t) : Fresh t := by
  have hworkers : t.workers = s.workers := by
    apply hf.workers_eq
    intro pc hpc
    rw [h.workers pc hpc]
    rfl
  constructor
  · exact hf.ran.trans h.ran
  · exact hf.stopCalled.trans h.stopCalled
  · exact hf.running.trans h.running
  · exact hworkers ▸ h.workers
  · exact hf.caller ▸ h.caller
  · exact hf.stops ▸ h.stops

theorem Fresh.step (h : Fresh s) (ht : ThreadPoolPass s op t) : Fresh t ∨ Serving t := by
  cases op with
  | work i => exact Or.inl (h.frame (frame_of_work ht))
  | pushTask null => exact Or.inl (h.frame (frame_of_pushTask ht))
  | stepPush k j => exact Or.inl (h.frame (frame_of_stepPush ht))
  | run =>
    cases ht with
    | runs hcaller hstops hrun =>
      refine Or.inr ⟨rfl, rfl, ?_, fun i _ => ⟨0, rfl, Nat.zero_le i⟩, h.stops, ?_⟩
      · intro pc hpc hleft
        exact nomatch hleft.symm.trans (h.workers pc hpc)
      · constructor
        · intro hcalled
          exact nomatch h.stopCalled.symm.trans hcalled
        · rintro ⟨pc, hpc, hahead⟩
          rw [all_returned hstops pc hpc] at hahead
          cases hahead
    | ranBefore hcaller hrun => exact nomatch h.running.symm.trans hrun
  | startThread =>
    cases ht with
    | started hcaller | startedBefore hcaller | runEnd hcaller => exact absurd hcaller (h.caller _)
  | stop =>
    cases ht with
    | stop hcaller =>
      refine Or.inl ⟨h.ran, h.ran, h.running, h.workers, h.caller, ?_⟩
      intro pc hpc
      rcases List.mem_append.mp hpc with hpc | hpc
      · exact h.stops pc hpc
      · rw [List.mem_singleton.mp hpc]
        rfl
  | stepStop c =>
    have hquiet {pc : StopPc} (hc : s.stops[c]? = some pc) : pc.quiet = true := h.stops pc (stop_mem hc)
    cases ht with
    | lockStop | late =>
      exact Or.inl ⟨h.ran, h.stopCalled, h.running, h.workers, h.caller, quiet_set h.stops rfl⟩
    | clear hc hrun => exact nomatch h.running.symm.trans hrun
    | broadcast hc | join hc | joined hc => exact nomatch hquiet hc
  | destroy =>
    cases ht
    exact Or.inl ⟨h.ran, h.stopCalled, h.running, h.workers, nofun, h.stops⟩
  | destroyJoin =>
    cases ht <;> exact Or.inl ⟨h.ran, h.stopCalled, h.running, h.workers, nofun, h.stops⟩

/-- A worker that steps stays in the loop, or leaves it when `m_running` is not set. -/
theorem mem_of_frame {pc : WorkerPc} (hf : Frame s t) (hpc : pc ∈ t.workers) :
    pc ∈ s.workers ∨ pc.loops = true ∨ pc = .left ∧ s.running = false := by
  rcases hf.workers with hsame | ⟨i, _, pc', -, -, hset, hpc'⟩
  · exact Or.inl (hsame ▸ hpc)
  · rw [hset] at hpc
    rcases List.mem_or_eq_of_mem_set hpc with hpc | rfl
    · exact Or.inl hpc
    · exact Or.inr hpc'

theorem Serving.frame (h : Serving s) (hf : Frame s t) : Serving t := by
  constructor
  · exact hf.ran.trans h.ran
  · exact hf.running.trans h.running
  · intro pc hpc hleft
    rcases mem_of_frame hf hpc with hmem | hloops | ⟨-, hrun⟩
    · exact h.workers pc hmem hleft
    · rw [hleft] at hloops
      cases hloops
    · exact nomatch h.running.symm.trans hrun
  · intro i hi
    rw [hf.caller]
    refine h.started i ?_
    rcases hf.workers with hsame | ⟨c, pc, pc', hc, hloops, hset, hpc'⟩
    · exact hsame ▸ hi
    · rw [hset] at hi
      rcases set_cases hc hi with ⟨-, rfl⟩ | ⟨-, hi⟩
      · rcases hpc' with hloops | ⟨hleft, -⟩
        · cases hloops
        · cases hleft
      · exact hi
  · exact hf.stops ▸ h.stops
  · rw [hf.stops, hf.stopCalled]
    exact h.stopCalled

/-- The workers are started one after the other. -/
theorem Serving.starts {j : ℕ} (h : Serving s) (hcaller : s.caller = .starting j) {i : ℕ}
    (hi : s.workers[i]? = some .unstarted) : j ≤ i := by
  obtain ⟨j', hj', hle⟩ := h.started i hi
  cases hcaller.symm.trans hj'
  exact hle

theorem Serving.called {pc : StopPc} (h : Serving s) (hc : s.stops[c]? = some pc) (hpc : pc.ahead = true) :
    s.stopCalled = true := h.stopCalled.mpr ⟨pc, stop_mem hc, hpc⟩

theorem Serving.owner (h : Serving s) (o : Option Owner) : Serving { s with owner := o } :=
  ⟨h.ran, h.running, h.workers, h.started, h.stops, h.stopCalled⟩

/-- A call of `Stop` moves before its test. -/
theorem Serving.setStop {a b : StopPc} (h : Serving s) (hc : s.stops[c]? = some a)
    (ha : a.ahead = true) (hb : b.ahead = true) : Serving (s.setStop c b) where
  ran := h.ran
  running := h.running
  workers := h.workers
  started := h.started
  stops := quiet_set h.stops (by simp [StopPc.quiet, hb])
  stopCalled := iff_of_true (h.called hc ha) ⟨b, List.mem_of_getElem? (set_self hc), hb⟩

/-- The call that finds `m_running` set is the one that stops the pool. -/
theorem Serving.clear (h : Serving s) (happart : CallsApart s) (hc : s.stops[c]? = some .testing) :
    Stopping ({ s with running := false }.setStop c .broadcasting) c := by
  have hcaller : s.caller = .idle := by
    rcases happart with hcaller | hstops
    · exact hcaller
    · exact nomatch hstops _ (stop_mem hc)
  refine ⟨h.ran, h.called hc rfl, rfl, ?_, hcaller, Or.inl (set_self hc), ?_⟩
  · intro pc hpc hunstarted
    obtain ⟨i, hi⟩ := List.getElem?_of_mem hpc
    obtain ⟨j, hj, -⟩ := h.started i (hi.trans (congrArg some hunstarted))
    exact nomatch hcaller.symm.trans hj
  · intro d hd pc hpc
    exact h.stops pc (List.mem_of_getElem? ((set_of_ne hd).symm.trans hpc))

theorem Serving.step (h : Serving s) (happart : CallsApart s) (ht : ThreadPoolPass s op t) :
    Serving t ∨ ∃ c, Stopping t c := by
  cases op with
  | work i => exact Or.inl (h.frame (frame_of_work ht))
  | pushTask null => exact Or.inl (h.frame (frame_of_pushTask ht))
  | stepPush k j => exact Or.inl (h.frame (frame_of_stepPush ht))
  | run =>
    cases ht with
    | runs hcaller hstops hrun => exact nomatch hrun.symm.trans h.running
    | ranBefore => exact Or.inl h
  | startThread =>
    refine Or.inl ?_
    cases ht with
    | @started j hcaller hj =>
      refine ⟨h.ran, h.running, ?_, ?_, h.stops, h.stopCalled⟩
      · intro pc hpc
        rcases List.mem_or_eq_of_mem_set hpc with hpc | rfl
        · exact h.workers pc hpc
        · exact WorkerPc.noConfusion
      · intro i hi
        rcases set_cases hj hi with ⟨-, hpc⟩ | ⟨hij, hi⟩
        · cases hpc
        · exact ⟨j + 1, rfl, Nat.lt_of_le_of_ne (h.starts hcaller hi) (Ne.symm hij)⟩
    | @startedBefore j hcaller hj hlt =>
      refine ⟨h.ran, h.running, h.workers, ?_, h.stops, h.stopCalled⟩
      intro i hi
      have hij : j ≠ i := by
        rintro rfl
        exact hj hi
      exact ⟨j + 1, rfl, Nat.lt_of_le_of_ne (h.starts hcaller hi) hij⟩
    | runEnd hcaller hj =>
      refine ⟨h.ran, h.running, h.workers, ?_, h.stops, h.stopCalled⟩
      intro i hi
      obtain ⟨hlt, -⟩ := List.getElem?_eq_some_iff.mp hi
      exact absurd (Nat.le_trans hj (h.starts hcaller hi)) (Nat.not_le_of_lt hlt)
  | stop =>
    cases ht with
    | stop hcaller =>
      refine Or.inl ⟨h.ran, h.running, h.workers, h.started, ?_, ?_⟩
      · intro pc hpc
        rcases List.mem_append.mp hpc with hpc | hpc
        · exact h.stops pc hpc
        · rw [List.mem_singleton.mp hpc]
          rfl
      · exact iff_of_true h.ran ⟨.locking, List.mem_append_right _ (List.mem_singleton_self _), rfl⟩
  | stepStop c =>
    have hquiet {pc : StopPc} (hc : s.stops[c]? = some pc) : pc.quiet = true := h.stops pc (stop_mem hc)
    cases ht with
    | lockStop hc howner => exact Or.inl ((h.owner (some (.stop c))).setStop hc rfl rfl)
    | clear hc hrun => exact Or.inr ⟨c, h.clear happart hc⟩
    | late hc hrun => exact nomatch hrun.symm.trans h.running
    | broadcast hc | join hc | joined hc => exact nomatch hquiet hc
  | destroy =>
    cases ht with
    | destroy hcaller hstops hpushes =>
      refine Or.inl ⟨h.ran, h.running, h.workers, ?_, h.stops, h.stopCalled⟩
      intro i hi
      obtain ⟨j, hj, -⟩ := h.started i hi
      exact nomatch hcaller.symm.trans hj
  | destroyJoin =>
    have hstarted {j : ℕ} (hcaller : s.caller = .joining j) (i : ℕ) : s.workers[i]? ≠ some .unstarted := by
      intro hi
      obtain ⟨j', hj', -⟩ := h.started i hi
      exact nomatch hcaller.symm.trans hj'
    cases ht with
    | destroyJoin hcaller | destroyed hcaller =>
      exact Or.inl ⟨h.ran, h.running, h.workers, fun i hi => absurd hi (hstarted hcaller i), h.stops, h.stopCalled⟩

theorem Stopping.frame (h : Stopping s c) (hf : Frame s t) : Stopping t c := by
  have hleft (i : ℕ) (hi : s.workers[i]? = some .left) : t.workers[i]? = some .left := by
    rcases hf.workers with hsame | ⟨d, pc, pc', hd, hloops, hset, -⟩
    · exact hsame ▸ hi
    · have hid : i ≠ d := by
        rintro rfl
        cases hi.symm.trans hd
        cases hloops
      rw [hset]
      exact (set_of_ne hid).trans hi
  constructor
  · exact hf.ran.trans h.ran
  · exact hf.stopCalled.trans h.stopCalled
  · exact hf.running.trans h.running
  · intro pc hpc hunstarted
    rcases mem_of_frame hf hpc with hmem | hloops | ⟨hleft, -⟩
    · exact h.workers pc hmem hunstarted
    · rw [hunstarted] at hloops
      cases hloops
    · exact nomatch hunstarted.symm.trans hleft
  · exact hf.caller.trans h.caller
  · rw [hf.stops]
    rcases h.joined with hc | ⟨j, hc, hj⟩
    · exact Or.inl hc
    · exact Or.inr ⟨j, hc, fun i hi => hleft i (hj i hi)⟩
  · rw [hf.stops]
    exact h.stops

theorem Stopping.owner (h : Stopping s c) (o : Option Owner) : Stopping { s with owner := o } c :=
  ⟨h.ran, h.stopCalled, h.running, h.workers, h.caller, h.joined, h.stops⟩

/-- Another call of `Stop` moves. -/
theorem Stopping.other {d : ℕ} {a b : StopPc} (h : Stopping s c) (hd : s.stops[d]? = some a) (hdc : d ≠ c)
    (hb : b.quiet = true) : Stopping (s.setStop d b) c where
  ran := h.ran
  stopCalled := h.stopCalled
  running := h.running
  workers := h.workers
  caller := h.caller
  joined := by
    rcases h.joined with hc | ⟨j, hc, hj⟩
    · exact Or.inl ((set_of_ne hdc.symm).trans hc)
    · exact Or.inr ⟨j, (set_of_ne hdc.symm).trans hc, hj⟩
  stops e he v hv := by
    rcases set_cases hd hv with ⟨-, rfl⟩ | ⟨-, hv⟩
    · exact hb
    · exact h.stops e he v hv

theorem Stopping.ne_of_ahead {d : ℕ} {pc : StopPc} (h : Stopping s c) (hd : s.stops[d]? = some pc)
    (hpc : pc.quiet = true) : d ≠ c := by
  rintro rfl
  rcases h.joined with hc | ⟨j, hc, -⟩ <;>
  · cases hd.symm.trans hc
    cases hpc

theorem Stopping.eq_of_loud {d : ℕ} {pc : StopPc} (h : Stopping s c) (hd : s.stops[d]? = some pc)
    (hpc : pc.quiet = false) : d = c := by
  by_contra hne
  exact nomatch hpc.symm.trans (h.stops d hne pc hd)

/-- The move of the call itself leaves the others alone. -/
theorem Stopping.others {pc' : StopPc} (h : Stopping s c) :
    ∀ d ≠ c, ∀ pc ∈ (s.stops.set c pc')[d]?, pc.quiet = true := by
  intro d hd pc hpc
  exact h.stops d hd pc ((set_of_ne hd).symm.trans hpc)

theorem Stopping.stepStop {d : ℕ} (h : Stopping s c) (ht : ThreadPoolPass s (.stepStop d) t) :
    Stopping t c ∨ Over t := by
  cases ht with
  | lockStop hd howner => exact Or.inl ((h.owner (some (.stop d))).other hd (h.ne_of_ahead hd rfl) rfl)
  | clear hd hrun => exact nomatch h.running.symm.trans hrun
  | late hd hrun => exact Or.inl ((h.owner none).other hd (h.ne_of_ahead hd rfl) rfl)
  | broadcast hd =>
    obtain rfl := h.eq_of_loud hd rfl
    refine Or.inl ⟨h.ran, h.stopCalled, h.running, ?_, h.caller, Or.inr ⟨0, set_self hd, nofun⟩, h.others⟩
    intro pc hpc hunstarted
    obtain ⟨v, hv, rfl⟩ := List.mem_map.mp hpc
    refine h.workers v hv ?_
    cases v <;> first | rfl | cases hunstarted
  | @join d j hd hj =>
    obtain rfl := h.eq_of_loud hd rfl
    refine Or.inl ⟨h.ran, h.stopCalled, h.running, h.workers, h.caller, Or.inr ⟨j + 1, set_self hd, ?_⟩, h.others⟩
    intro i hi
    rcases h.joined with hc | ⟨j', hc, hleft⟩
    · cases hd.symm.trans hc
    · cases hd.symm.trans hc
      rcases Nat.lt_succ_iff_lt_or_eq.mp hi with hlt | rfl
      · exact hleft i hlt
      · exact hj
  | @joined d j hd hj =>
    obtain rfl := h.eq_of_loud hd rfl
    refine Or.inr ⟨h.ran, h.stopCalled, ?_⟩
    intro pc hpc
    obtain ⟨i, hi⟩ := List.getElem?_of_mem hpc
    obtain ⟨hlt, -⟩ := List.getElem?_eq_some_iff.mp hi
    rcases h.joined with hc | ⟨j', hc, hleft⟩
    · cases hd.symm.trans hc
    · cases hd.symm.trans hc
      exact Option.some.inj (hi.symm.trans (hleft i (Nat.lt_of_lt_of_le hlt hj)))

theorem Stopping.stopsReturned (h : Stopping s c) : s.stopsReturned = false := by
  rw [Bool.eq_false_iff]
  intro hreturned
  rcases h.joined with hc | ⟨j, hc, -⟩ <;> exact nomatch all_returned hreturned _ (stop_mem hc)

theorem Stopping.step (h : Stopping s c) (ht : ThreadPoolPass s op t) : Stopping t c ∨ Over t := by
  have hbusy := h.stopsReturned
  cases op with
  | work i => exact Or.inl (h.frame (frame_of_work ht))
  | pushTask null => exact Or.inl (h.frame (frame_of_pushTask ht))
  | stepPush k j => exact Or.inl (h.frame (frame_of_stepPush ht))
  | stepStop d => exact h.stepStop ht
  | run =>
    cases ht with
    | runs hcaller hstops => exact nomatch hbusy.symm.trans hstops
    | ranBefore hcaller hrun => exact nomatch h.running.symm.trans hrun
  | startThread =>
    cases ht with
    | started hcaller | startedBefore hcaller | runEnd hcaller => exact nomatch h.caller.symm.trans hcaller
  | stop =>
    cases ht with
    | stop hcaller =>
      have hsame {pc : StopPc} (hc : s.stops[c]? = some pc) : (s.stops ++ [.locking])[c]? = some pc :=
        append_of_some hc
      refine Or.inl ⟨h.ran, h.ran, h.running, h.workers, h.caller, ?_, ?_⟩
      · rcases h.joined with hc | ⟨j, hc, hj⟩
        · exact Or.inl (hsame hc)
        · exact Or.inr ⟨j, hsame hc, hj⟩
      · intro d hd pc hpc
        rcases append_cases hpc with ⟨-, rfl⟩ | hpc
        · rfl
        · exact h.stops d hd pc hpc
  | destroy =>
    cases ht with
    | destroy hcaller hstops => exact nomatch hbusy.symm.trans hstops
  | destroyJoin =>
    cases ht with
    | destroyJoin hcaller | destroyed hcaller => exact nomatch h.caller.symm.trans hcaller

theorem Over.frame (h : Over s) (hf : Frame s t) : Over t := by
  have hworkers : t.workers = s.workers := by
    apply hf.workers_eq
    intro pc hpc
    rw [h.workers pc hpc]
    rfl
  exact ⟨hf.ran.trans h.ran, hf.stopCalled.trans h.stopCalled, hworkers ▸ h.workers⟩

theorem Over.step (h : Over s) (ht : ThreadPoolPass s op t) : Over t := by
  cases op with
  | work i => exact h.frame (frame_of_work ht)
  | pushTask null => exact h.frame (frame_of_pushTask ht)
  | stepPush k j => exact h.frame (frame_of_stepPush ht)
  | run =>
    cases ht with
    | runs => exact ⟨rfl, h.stopCalled, h.workers⟩
    | ranBefore => exact h
  | startThread =>
    cases ht with
    | started hcaller hj => exact nomatch h.workers _ (List.mem_of_getElem? hj)
    | startedBefore | runEnd => exact ⟨h.ran, h.stopCalled, h.workers⟩
  | stop =>
    cases ht
    exact ⟨h.ran, h.ran, h.workers⟩
  | stepStop c =>
    cases ht with
    | lockStop | clear | late | join | joined => exact ⟨h.ran, h.stopCalled, h.workers⟩
    | broadcast hc =>
      refine ⟨h.ran, h.stopCalled, ?_⟩
      intro pc hpc
      obtain ⟨v, hv, rfl⟩ := List.mem_map.mp hpc
      rw [h.workers v hv]
      rfl
  | destroy | destroyJoin => cases ht <;> exact ⟨h.ran, h.stopCalled, h.workers⟩

theorem Phase.step (h : Phase s) (happart : CallsApart s) (ht : ThreadPoolPass s op t) : Phase t := by
  rcases h with hfresh | hserving | ⟨c, hstopping⟩ | hover
  · rcases hfresh.step ht with hfresh | hserving
    · exact Or.inl hfresh
    · exact Or.inr (Or.inl hserving)
  · rcases hserving.step happart ht with hserving | hstopping
    · exact Or.inr (Or.inl hserving)
    · exact Or.inr (Or.inr (Or.inl hstopping))
  · rcases hstopping.step ht with hstopping | hover
    · exact Or.inr (Or.inr (Or.inl ⟨c, hstopping⟩))
    · exact Or.inr (Or.inr (Or.inr hover))
  · exact Or.inr (Or.inr (Or.inr (hover.step ht)))

/-- A `Run` that sets the flag finds a fresh pool, or one that is over. -/
theorem Phase.fresh_or_over (h : Phase s) (hrun : s.running = false) (hstops : s.stopsReturned = true) :
    Fresh s ∨ Over s := by
  rcases h with hfresh | hserving | ⟨c, hstopping⟩ | hover
  · exact Or.inl hfresh
  · exact nomatch hrun.symm.trans hserving.running
  · exact nomatch hstopping.stopsReturned.symm.trans hstops
  · exact Or.inr hover

/-- Where `Run` can set the flag nobody is in the loop. -/
theorem Phase.none_loops (h : Phase s) (hrun : s.running = false) (hstops : s.stopsReturned = true) {i : ℕ}
    {pc : WorkerPc} (hi : s.workers[i]? = some pc) : pc.loops = false := by
  have hmem := List.mem_of_getElem? hi
  rcases h.fresh_or_over hrun hstops with hfresh | hover
  · rw [hfresh.workers pc hmem]
    rfl
  · rw [hover.workers pc hmem]
    rfl

end Phases

section Assert
variable {s t : ThreadPool} {op : ThreadPoolOp} {i : ℕ}

/-- What `PoolWorkFunc` asserts before it takes a task. -/
structure Tested (s : ThreadPool) : Prop where
  testing : ∀ i : ℕ, s.workers[i]? = some .testing → s.queue ≠ [] ∨ s.running = false
  taking : ∀ i : ℕ, s.workers[i]? = some .taking → s.queue ≠ []

theorem Tested.worker {a b : WorkerPc} (h : Tested s) (hi : s.workers[i]? = some a)
    (htesting : b = .testing → s.queue ≠ [] ∨ s.running = false) (htaking : b = .taking → s.queue ≠ []) :
    Tested (s.setWorker i b) where
  testing c hc := by
    rcases set_cases hi hc with ⟨-, hb⟩ | ⟨-, hc⟩
    · exact htesting hb.symm
    · exact h.testing c hc
  taking c hc := by
    rcases set_cases hi hc with ⟨-, hb⟩ | ⟨-, hc⟩
    · exact htaking hb.symm
    · exact h.taking c hc

/-- A worker moves, but not to the test or to the queue; what else the step does is nothing to the test. -/
theorem Tested.moved {a b : WorkerPc} (h : Tested s) (hi : s.workers[i]? = some a) (htesting : b ≠ .testing)
    (htaking : b ≠ .taking) (hworkers : t.workers = s.workers.set i b) (hqueue : t.queue = s.queue)
    (hrunning : t.running = s.running) : Tested t := by
  have hmoved := h.worker hi (fun hb => absurd hb htesting) (fun hb => absurd hb htaking)
  constructor
  · intro c hc
    rw [hworkers] at hc
    rw [hqueue, hrunning]
    exact hmoved.testing c hc
  · intro c hc
    rw [hworkers] at hc
    rw [hqueue]
    exact hmoved.taking c hc

/-- While one worker takes a task no other is between its test and the queue. -/
theorem Tested.take {task : ℕ} {rest : List ℕ} (hmutex : Exclusive s.owner s.inside)
    (hi : s.workers[i]? = some .taking) : Tested ((s.pop task rest).unlock.setWorker i (.running task)) := by
  have hother {c : ℕ} {pc : WorkerPc} (hpc : pc.locked = true)
      (hc : ((s.pop task rest).unlock.setWorker i (.running task)).workers[c]? = some pc) : False := by
    rcases set_cases hi hc with ⟨-, rfl⟩ | ⟨hne, hc⟩
    · cases hpc
    · have htaker : s.inside (.worker i) := ⟨.taking, hi, rfl⟩
      have hsecond : s.inside (.worker c) := ⟨pc, hc, hpc⟩
      exact hne (Owner.worker.inj (hmutex.eq hsecond htaker))
  constructor
  · intro c hc
    exact (hother rfl hc).elim
  · intro c hc
    exact (hother rfl hc).elim

/-- The step lemma. -/
theorem Tested.step (h : Tested s) (hmutex : Exclusive s.owner s.inside) (hphase : Phase s)
    (ht : ThreadPoolPass s op t) : Tested t := by
  cases ht with
  | runs hcaller hstops hrun =>
    constructor
    · intro c hc
      exact nomatch hphase.none_loops hrun hstops hc
    · intro c hc
      exact nomatch hphase.none_loops hrun hstops hc
  | started hcaller hj => exact h.moved hj WorkerPc.noConfusion WorkerPc.noConfusion rfl rfl rfl
  | move hi hmove =>
    cases hmove with
    | stays | leaves | waits | wakes => exact h.worker hi WorkerPc.noConfusion WorkerPc.noConfusion
    | goes hgoes => exact h.worker hi (fun _ => hgoes) WorkerPc.noConfusion
    | takes hrun =>
      refine h.worker hi WorkerPc.noConfusion fun _ => ?_
      rcases h.testing _ hi with hq | hnot
      · exact hq
      · exact nomatch hnot.symm.trans hrun
  | lock hi | wait hi | back hi | finish hi =>
    exact h.moved hi WorkerPc.noConfusion WorkerPc.noConfusion rfl rfl rfl
  | take hi hq => exact Tested.take hmutex hi
  | @emplace k j hk =>
    have hne : s.queue ++ [k] ≠ [] := List.append_ne_nil_of_right_ne_nil _ (List.cons_ne_nil _ _)
    exact ⟨fun _ _ => Or.inl hne, fun _ _ => hne⟩
  | signal hk hj => exact h.moved hj WorkerPc.noConfusion WorkerPc.noConfusion rfl rfl rfl
  | clear hc hrun => exact ⟨fun _ _ => Or.inr rfl, h.taking⟩
  | broadcast hc =>
    constructor
    · intro c hc
      exact h.testing c (workers_of_condBroadCast WorkerPc.noConfusion hc)
    · intro c hc
      exact h.taking c (workers_of_condBroadCast WorkerPc.noConfusion hc)
  | ranBefore | startedBefore | runEnd | pushTask | refused | passed | lockPush | lost | stop | lockStop | late | join
  | joined | destroy | destroyJoin | destroyed => exact ⟨h.testing, h.taking⟩

end Assert

section Runs
variable {nThreadNum : ℤ} {processors : ℕ} {ops : List ThreadPoolOp} {s t : ThreadPool} {op : ThreadPoolOp}

/-- What is known of the life of a pool. -/
structure Life (s : ThreadPool) : Prop where
  kept : Kept s
  apart : CallsApart s
  phase : Phase s
  tested : Tested s

theorem Life.step (h : Life s) (ht : ThreadPoolPass s op t) : Life t :=
  ⟨kept_step h.kept ht, h.apart.step ht, h.phase.step h.apart ht, h.tested.step h.kept.mutex h.phase ht⟩

theorem life_new (hprocessors : 0 < processors) : Life (.new nThreadNum processors) := by
  have hworkers : ∀ pc ∈ (ThreadPool.new nThreadNum processors).workers, pc = .unstarted :=
    fun pc hpc => (List.mem_replicate.mp hpc).2
  refine ⟨kept_new hprocessors, Or.inl rfl, Or.inl ⟨rfl, rfl, rfl, hworkers, nofun, nofun⟩, ?_⟩
  constructor
  · intro i hi
    exact nomatch hworkers _ (List.mem_of_getElem? hi)
  · intro i hi
    exact nomatch hworkers _ (List.mem_of_getElem? hi)

theorem life_of_exec (hprocessors : 0 < processors)
    (hs : exec ThreadPool.step (.new nThreadNum processors) ops = some s) : Life s :=
  invariant_of_exec (fun _ _ _ h ht => h.step (threadPoolPass_of_step ht)) (life_new hprocessors) hs

/-- The assertion of `PoolWorkFunc` holds in every run: a worker that goes to take a task finds one. -/
theorem taking_finds_task {i : ℕ} (hprocessors : 0 < processors)
    (hs : exec ThreadPool.step (.new nThreadNum processors) ops = some s) (hi : s.workers[i]? = some .taking) :
    s.queue ≠ [] :=
  (life_of_exec hprocessors hs).tested.taking i hi

/-- Where the loop of `Run` over the threads is at its end every worker is inside. -/
theorem Serving.inside (h : Serving s) (hcaller : ∀ j, s.caller ≠ .starting j) : ∀ pc ∈ s.workers, pc.loops = true := by
  intro pc hpc
  obtain ⟨i, hi⟩ := List.getElem?_of_mem hpc
  cases pc with
  | unstarted =>
    obtain ⟨j, hj, -⟩ := h.started i hi
    exact absurd hj (hcaller j)
  | left => exact absurd rfl (h.workers _ hpc)
  | outer | locking | checking | waiting | blocked | woken | testing | taking | running => rfl

/-- A pool that serves and is not being started has a worker in the loop. -/
theorem Serving.not_flagsDown (h : Serving s) (hmanned : s.workers ≠ []) (hcaller : ∀ j, s.caller ≠ .starting j) :
    ¬ s.FlagsDown := by
  intro hdown
  obtain ⟨pc, hpc⟩ := List.exists_mem_of_ne_nil _ hmanned
  exact nomatch h.running.symm.trans (hdown pc hpc (h.inside hcaller pc hpc))

theorem Over.flagsDown (h : Over s) : s.FlagsDown := by
  intro pc hpc hloops
  rw [h.workers pc hpc] at hloops
  cases hloops

/-- When the destructor joins the workers their flag is down if `Run` was not called, or `Stop` was after it. -/
theorem Life.flagsDown_iff {j : ℕ} (h : Life s) (hcaller : s.caller = .joining j) :
    s.FlagsDown ↔ s.ran = false ∨ s.stopCalled = true := by
  rcases h.phase with hfresh | hserving | ⟨c, hstopping⟩ | hover
  · exact iff_of_true (fun _ _ _ => hfresh.running) (Or.inl hfresh.ran)
  · have hstops : ∀ pc ∈ s.stops, pc = .returned := by
      rcases h.apart with hidle | hstops
      · exact nomatch hidle.symm.trans hcaller
      · exact hstops
    refine iff_of_false (hserving.not_flagsDown h.kept.awake.manned ?_) ?_
    · intro j' hj'
      exact nomatch hcaller.symm.trans hj'
    · rintro (hran | hcalled)
      · exact nomatch hran.symm.trans hserving.ran
      · obtain ⟨pc, hpc, hahead⟩ := hserving.stopCalled.mp hcalled
        rw [hstops pc hpc] at hahead
        cases hahead
  · exact nomatch hstopping.caller.symm.trans hcaller
  · exact iff_of_true hover.flagsDown (Or.inr hover.stopCalled)

end Runs

end ThreadPool

end Chaos
